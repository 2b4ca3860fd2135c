/-! Tables with left-aligned columns. -/

set_option autoImplicit false
set_option relaxedAutoImplicit false

namespace TradeWire.Text.Columns

/-- A line of a table: the cells that are aligned, and the rest of the line. -/
structure Line where
  cells : List String
  last : String
deriving Repr, DecidableEq

def gap : Nat := 2

def fill (width : Nat) (s : String) : String :=
  s ++ String.ofList (List.replicate (width - s.length) ' ')

def columnWidth (cells : List String) : Nat :=
  cells.foldl (fun width cell => max width (cell.length + gap)) 0

/-- The first cells of the lines in front that have one. -/
def leadingCells : List Line → List String
  | ⟨cell :: _, _⟩ :: rest => cell :: leadingCells rest
  | _ => []

/-- Move the first column into the texts written so far. `width` is the width of the column block
the line before belongs to; a line without a cell ends the block. -/
def takeColumn : Option Nat → List (String × Line) → List (String × Line)
  | _, [] => []
  | _, (done, ⟨[], last⟩) :: rest => (done, ⟨[], last⟩) :: takeColumn none rest
  | block, (done, ⟨cell :: cells, last⟩) :: rest =>
    let width := block.getD (columnWidth (cell :: leadingCells (rest.map Prod.snd)))
    (done ++ fill width cell, ⟨cells, last⟩) :: takeColumn (some width) rest

/-- Move one column after the other, `columns` of them. -/
def takeColumns : Nat → List (String × Line) → List (String × Line)
  | 0, lines => lines
  | columns + 1, lines => takeColumns columns (takeColumn none lines)

def depth (lines : List Line) : Nat := lines.foldl (fun n line => max n line.cells.length) 0

def align (lines : List Line) : List String :=
  (takeColumns (depth lines) (lines.map (("", ·)))).map fun (done, line) => done ++ line.last

def lineOf (text : List Char) : Line :=
  text.foldr
    (fun c line =>
      if c == '\t' then ⟨"" :: line.cells, line.last⟩
      else
        match line.cells with
        | [] => ⟨[], String.ofList [c] ++ line.last⟩
        | cell :: cells => ⟨(String.ofList [c] ++ cell) :: cells, line.last⟩)
    ⟨[], ""⟩

def splitLines : List Char → List (List Char)
  | [] => [[]]
  | c :: rest =>
    if c == '\n' then [] :: splitLines rest
    else
      match splitLines rest with
      | [] => [[c]]
      | line :: lines => (c :: line) :: lines

/-- A text whose cells are separated by tabs, with its columns aligned. -/
def render (text : String) : String :=
  String.intercalate "\n" (align ((splitLines text.toList).map lineOf))

end TradeWire.Text.Columns
