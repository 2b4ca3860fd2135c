import TradeWire.Number.Word
import TradeWire.Schema.Error
import TradeWire.Schema.Model

/-! Byte sizes of data types and structures, depth first along their members, in machine words. -/

set_option autoImplicit false
set_option relaxedAutoImplicit false

namespace TradeWire

/-- The fixed, least and largest number of bytes. A fixed size of zero says that the entity does not
travel as one block of constant width. -/
structure Size where
  fixed : Int
  least : Int
  most : Int
deriving Repr, DecidableEq, Inhabited

/-- Every instance takes exactly the fixed size. -/
def Size.isStatic (s : Size) : Bool := s.fixed != 0 && s.fixed == s.most

def Schema.DataType.wireSize (t : Schema.DataType) : Size :=
  let fixed : Int := if t.variableSize then 0 else t.size
  ⟨fixed, fixed, t.size⟩

/-- The sizes of structures, in the order in which they were settled. -/
abbrev SizeTable := List (String × Size)

namespace SizeTable

def find? (sized : SizeTable) (name : String) : Option Size :=
  (List.find? (fun entry : String × Size => entry.1 == name) sized).map (·.2)

def sizeOf (m : Model) (sized : SizeTable) (name : String) : Size :=
  match m.type? name with
  | some type => type.wireSize
  | none => (find? sized name).getD default

end SizeTable

/-- The sums over the members of a structure. -/
structure Totals where
  fixed : Int
  least : Int
  most : Int
  isVariable : Bool
deriving Repr, DecidableEq

namespace Totals

def zero : Totals := ⟨0, 0, 0, false⟩

/-- The number of elements a member holds for certain: its cardinality when the count is fixed. -/
def repeatCount (member : Schema.Member) : Nat :=
  if member.minCardinality.isNone && 1 < member.cardinality then member.cardinality else 1

def addMember (t : Totals) (member : Schema.Member) (s : Size) : Totals :=
  let count := repeatCount member
  let isVariable := s.fixed == 0 || member.minCardinality.isSome
  { fixed := if isVariable then t.fixed else Word.add t.fixed (Word.mul s.fixed count)
    least := Word.add t.least (Word.mul s.least (member.minCardinality.getD count))
    most := Word.add t.most (Word.mul s.most member.cardinality)
    isVariable := t.isVariable || isVariable }

def size (t : Totals) : Size := ⟨if t.isVariable then 0 else t.fixed, t.least, t.most⟩

end Totals

/-- The least size is at most the fixed size, where there is one, and that at most the largest. -/
def Size.isOrdered (s : Size) : Bool :=
  let effective := if s.fixed == 0 then s.least else s.fixed
  s.least ≤ effective && effective ≤ s.most

/-- Settle the members of structure `owner`, with `settle` for the structures among their types. -/
def sizeMembers (m : Model) (settle : String → SizeTable → Except SchemaError SizeTable)
    (owner : String) : List Schema.Member → SizeTable → Totals → Except SchemaError (SizeTable × Totals)
  | [], sized, totals => .ok (sized, totals)
  | member :: rest, sized, totals => do
    let sized ← match m.structure? member.type with
      | none => pure sized
      | some sub =>
        if sub.isMessage then throw ⟨owner, member.name, .messageAsMember sub.name⟩
        else settle sub.name sized
    if member.cardinality == 0 then throw ⟨owner, member.name, .noCardinality⟩
    sizeMembers m settle owner rest sized
      (totals.addMember member (SizeTable.sizeOf m sized member.type))

/-- Settle structure `name`, below the structures of `path`. A path without repetition is not longer
than the number of structures, which is therefore fuel enough. -/
def sizeStructure (m : Model) : Nat → List String → String → SizeTable → Except SchemaError SizeTable
  | 0, _, name, _ => .error (.ofStructure name .selfReference)
  | fuel + 1, path, name, sized =>
    if (SizeTable.find? sized name).isSome then .ok sized
    else if path.contains name then .error (.ofStructure name .selfReference)
    else
      match m.structure? name with
      | none => .ok sized
      | some s =>
        match sizeMembers m (sizeStructure m fuel (name :: path)) name s.members sized .zero with
        | .error fault => .error fault
        | .ok (sized, totals) =>
          let size := totals.size
          if size.isOrdered then .ok (sized ++ [(name, size)])
          else .error (.ofStructure name .sizesOutOfOrder)

def sizeAll (m : Model) : List Schema.Structure → SizeTable → Except SchemaError SizeTable
  | [], sized => .ok sized
  | s :: rest, sized =>
    match sizeStructure m (m.structures.length + 1) [] s.name sized with
    | .error fault => .error fault
    | .ok more => sizeAll m rest more

/-- The sizes of all structures; messages come after the others. -/
def Model.sizes (m : Model) : Except SchemaError SizeTable :=
  sizeAll m (m.structures.filter (!·.isMessage) ++ m.structures.filter (·.isMessage)) []

end TradeWire
