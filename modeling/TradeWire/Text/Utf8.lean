/-! Bytes as text: characters of well-formed UTF-8, and single bytes that belong to none. -/

set_option autoImplicit false
set_option relaxedAutoImplicit false

namespace TradeWire

/-- A byte string, as it travels on the wire or stands in a file. -/
abbrev Bytes := List UInt8

namespace Text

/-- One unit of a byte string: a character, or a byte that no character takes. -/
inductive Piece where
  | char (c : Char)
  | stray (b : UInt8)
deriving Repr, DecidableEq

private def isTail (b : UInt8) : Bool := 0x80 ≤ b && b ≤ 0xbf

private def within (low high b : UInt8) : Bool := low ≤ b && b ≤ high

private def tailBits (b : UInt8) : Nat := b.toNat % 64

/-- The character that starts with byte `a`, with the number of further bytes it takes from `rest`. -/
def leadingChar (a : UInt8) (rest : Bytes) : Option (Char × Nat) :=
  if a < 0x80 then some (Char.ofNat a.toNat, 0)
  else if within 0xc2 0xdf a then
    match rest with
    | b :: _ => if isTail b then some (Char.ofNat (a.toNat % 32 * 64 + tailBits b), 1) else none
    | [] => none
  else if within 0xe0 0xef a then
    let low : UInt8 := if a == 0xe0 then 0xa0 else 0x80
    let high : UInt8 := if a == 0xed then 0x9f else 0xbf
    match rest with
    | b :: c :: _ =>
      if within low high b && isTail c then
        some (Char.ofNat (a.toNat % 16 * 4096 + tailBits b * 64 + tailBits c), 2)
      else none
    | _ => none
  else if within 0xf0 0xf4 a then
    let low : UInt8 := if a == 0xf0 then 0x90 else 0x80
    let high : UInt8 := if a == 0xf4 then 0x8f else 0xbf
    match rest with
    | b :: c :: d :: _ =>
      if within low high b && isTail c && isTail d then
        some (Char.ofNat (a.toNat % 8 * 262144 + tailBits b * 4096 + tailBits c * 64 + tailBits d), 3)
      else none
    | _ => none
  else none

/-- Cut a byte string into pieces; `taken` bytes in front already belong to a character. -/
def piecesFrom (taken : Nat) : Bytes → List Piece
  | [] => []
  | a :: rest =>
    match taken with
    | more + 1 => piecesFrom more rest
    | 0 =>
      match leadingChar a rest with
      | some (c, n) => .char c :: piecesFrom n rest
      | none => .stray a :: piecesFrom 0 rest

def pieces (bytes : Bytes) : List Piece := piecesFrom 0 bytes

/-- The characters of the pieces, when no byte strays. -/
def charsOfPieces : List Piece → Option (List Char)
  | [] => some []
  | .char c :: rest => (charsOfPieces rest).map (c :: ·)
  | .stray _ :: _ => none

/-- The text a byte string holds, when it is well-formed UTF-8. -/
def decodeUtf8? (bytes : Bytes) : Option String :=
  (charsOfPieces (pieces bytes)).map String.ofList

def encodeUtf8 (s : String) : Bytes := s.toUTF8.toList

private theorem toList_loop (bs : ByteArray) (i : Nat) (taken : Bytes) :
    ByteArray.toList.loop bs i taken = taken.reverse ++ bs.data.toList.drop i := by
  fun_induction ByteArray.toList.loop bs i taken with
  | case1 i taken inside ih =>
    have here : i < bs.data.toList.length := by simpa using inside
    have byte : bs.get! i = bs.data.toList[i] := getElem!_pos bs.data i here
    rw [ih, byte, List.drop_eq_getElem_cons here]
    simp
  | case2 i taken outside =>
    rw [List.drop_eq_nil_of_le (by simpa using Nat.le_of_not_lt outside), List.append_nil]

/-- The bytes of a text as they are stored. Evaluation does not have to look them up one by one. -/
theorem encodeUtf8_eq : encodeUtf8 = fun s => s.toByteArray.data.toList := by
  funext s
  simp [encodeUtf8, ByteArray.toList, toList_loop]

end Text

end TradeWire
