import TradeWire.Proofs.Number.Integers
import TradeWire.Proofs.Record.Paths
import TradeWire.Proofs.Record.Resolution

/-! The path spelled from a location leads to the location. -/

set_option autoImplicit false
set_option relaxedAutoImplicit false

namespace TradeWire.Record

/-- A step of a path: the name of a field, and the number of the element in it that is entered. -/
structure Step where
  name : String
  item : Option Nat

def Step.spelled (step : Step) : List Char :=
  match step.item with
  | none => step.name.toList
  | some n => step.name.toList ++ '[' :: (Nat.toDigits 10 n ++ [']'])

/-- The steps to a position in an instance of the layout. -/
def steps : List Hop → Nat → Layout → List Step
  | [], i, l => [⟨((l.fields[i]?).map (·.name)).getD "", none⟩]
  | hop :: hops, i, l =>
    match l.fields[hop.field]? with
    | some (.nested name _ element) => ⟨name, hop.item⟩ :: steps hops i element
    | _ => []

def spell (r : Record) (place : Location) : String :=
  String.ofList (List.intercalate ['.'] ((steps place.hops place.field r.layout).map Step.spelled))

/-- The fields on the way to a location have plain names, and the elements there numbers of 64 bits. -/
def IsSpellable (r : Record) (place : Location) : Prop :=
  ∀ step ∈ steps place.hops place.field r.layout,
    IsPlain step.name ∧ ∀ n ∈ step.item, (n : Int) ≤ Word.maxSigned

private theorem splitDots_intercalate {parts : List (List Char)} (some_part : parts ≠ [])
    (undotted : ∀ part ∈ parts, '.' ∉ part) : splitDots (List.intercalate ['.'] parts) = parts := by
  induction parts with
  | nil => exact absurd rfl some_part
  | cons part rest ih =>
    have first := splitDots_of_undotted (undotted part List.mem_cons_self)
    cases rest with
    | nil => simpa [List.intercalate] using first
    | cons second others =>
      have joined : List.intercalate ['.'] (part :: second :: others) =
          part ++ '.' :: List.intercalate ['.'] (second :: others) := by
        simp [List.intercalate, List.intersperse]
      rw [joined, splitDots_dot, first,
        ih (List.cons_ne_nil second others) fun other later => undotted other (List.mem_cons_of_mem part later)]
      rfl

private theorem decimal_toDigits {n : Nat} (small : (n : Int) ≤ Word.maxSigned) :
    Literal.decimal (String.ofList (Nat.toDigits 10 n)) = .ok (n : Int) := by
  have writes : Literal.Writes (Nat.toDigits 10 n) (Nat.ofDigitChars 10 (Nat.toDigits 10 n) 0) :=
    .plain Nat.toDigits_ne_nil fun c member => Nat.isDigit_of_mem_toDigits (by decide) (by decide) member
  rw [Nat.ofDigitChars_toDigits (by decide) (by decide)] at writes
  have least : Word.minSigned ≤ (n : Int) := by
    unfold Word.minSigned
    omega
  exact Literal.decimal_eq_ok.mpr ⟨writes, least, small⟩

private theorem Step.undotted_spelled {step : Step} (plain : IsPlain step.name) : '.' ∉ step.spelled := by
  have undotted : '.' ∉ step.name.toList := fun member => (plain '.' member).1 rfl
  unfold spelled
  split
  · exact undotted
  · rename_i n _
    have digits : '.' ∉ Nat.toDigits 10 n := by
      intro member
      exact absurd (Nat.isDigit_of_mem_toDigits (by decide) (by decide) member) (by decide)
    simp [undotted, digits]

private theorem parseSegment_spelled {step : Step} (plain : IsPlain step.name)
    (small : ∀ n ∈ step.item, (n : Int) ≤ Word.maxSigned) :
    parseSegment step.spelled = some ⟨step.name, step.item.map Int.ofNat⟩ := by
  obtain ⟨name, item⟩ := step
  cases item with
  | none => exact parseSegment_of_plain plain
  | some n =>
    have unopened : ∀ c ∈ name.toList, (c != '[') = true := fun c member => bne_iff_ne.mpr (plain c member).2
    simp [parseSegment, Step.spelled, List.dropWhile_append_of_pos unopened,
      List.takeWhile_append_of_pos unopened, decimal_toDigits (small n rfl)]

section Spellable

variable {t : Table} {r : Record} {place : Location} {f : Field} {s : Slot}

private theorem resolveParts_steps (good : ∀ l ∈ t.layouts, l.IsWellFormed t) (path : String)
    (listed : r.layout ∈ t.layouts) (shape : r.HasShape) (there : r.at? place = some (f, s))
    (solid : f.isPad = false) (spellable : r.IsSpellable place) :
    resolveParts path r.layout r.slots ((steps place.hops place.field r.layout).map Step.spelled) =
      .ok place := by
  obtain ⟨hops, i⟩ := place
  induction hops generalizing r with
  | nil =>
    obtain ⟨here, _⟩ := member?_eq_some.mp there
    have named : steps [] i r.layout = [⟨f.name, none⟩] := by simp [steps, here]
    have plain := spellable ⟨f.name, none⟩ (by simp [named])
    have found := ((good r.layout listed).lookup f.name i).mpr ⟨f, here, solid, rfl⟩
    rw [named]
    exact resolveParts_cons_eq_ok.mpr
      ⟨_, i, parseSegment_spelled plain.1 plain.2, found, .inl ⟨rfl, rfl, rfl⟩⟩
  | cons hop hops ih =>
    rw [at?_cons] at there
    obtain ⟨inner, entered, deep⟩ := Option.bind_eq_some_iff.mp there
    obtain ⟨kind, entry⟩ := (enter_eq_some.mp entered).entersBy shape
    obtain ⟨name, repetition, nested, _⟩ := entry.2
    have first : steps (hop :: hops) i r.layout = ⟨name, hop.item⟩ :: steps hops i inner.layout := by
      simp [steps, nested]
    rw [IsSpellable, first, List.forall_mem_cons] at spellable
    obtain ⟨⟨plain, small⟩, others⟩ := spellable
    have wellFormed := good r.layout listed
    have inTable := (wellFormed.elements _ (List.mem_of_getElem? nested) inner.layout rfl).1
    have found := (wellFormed.lookup name hop.field).mpr ⟨_, nested, rfl, rfl⟩
    rw [first]
    exact resolveParts_cons_eq_ok.mpr ⟨_, hop.field, parseSegment_spelled plain small, found,
      .inr ⟨hop.item, inner, ⟨hops, i⟩, rfl, entry, ih inTable kind deep others, rfl⟩⟩

theorem resolve_spell (good : ∀ l ∈ t.layouts, l.IsWellFormed t) (listed : r.layout ∈ t.layouts)
    (shape : r.HasShape) (there : r.at? place = some (f, s)) (solid : f.isPad = false)
    (spellable : r.IsSpellable place) : r.resolve (r.spell place) = .ok place := by
  have resolved := resolveParts_steps good (r.spell place) listed shape there solid spellable
  have parts : splitDots (r.spell place).toList =
      (steps place.hops place.field r.layout).map Step.spelled := by
    rw [spell, String.toList_ofList]
    refine splitDots_intercalate ?_ ?_
    · intro none
      rw [none] at resolved
      cases resolved
    · intro part member
      obtain ⟨step, inside, rfl⟩ := List.mem_map.mp member
      exact Step.undotted_spelled (spellable step inside).1
  rw [resolve, parts, resolved]

end Spellable

end TradeWire.Record
