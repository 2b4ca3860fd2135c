/-! What readers of settings documents in TOML agree on and where they differ. -/

set_option autoImplicit false
set_option relaxedAutoImplicit false

namespace TradeWire.Toml

abbrev Read (α : Type) := Option (α × List Char)

/-- What a dialect takes beyond the common rules. -/
structure Dialect where
  /-- A byte order mark may open the document. -/
  byteOrderMark : Bool
  /-- A character may be written by two hexadecimal digits. -/
  hexPairs : Bool
  /-- Behind an escaped backslash six quotes close a text of several lines, and three of them belong
  to it. -/
  longClosing : Bool
  /-- A table in braces may take several lines, with comments, and end with a comma. -/
  tableLines : Bool
  /-- How an unquoted value is read. -/
  word : List Char → Read String

end TradeWire.Toml
