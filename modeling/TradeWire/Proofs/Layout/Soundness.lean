import TradeWire.Proofs.Layout.Compiled
import TradeWire.Proofs.Schema.Accepted

/-! A structure of constant size has members of constant size only, and their widths add up to it. -/

set_option autoImplicit false
set_option relaxedAutoImplicit false

namespace TradeWire

open Schema

/-- The elements of a field are sound and of the size that was settled for them. -/
def Field.HasSettledElements (m : Model) (sized : SizeTable) (f : Field) : Prop :=
  ∀ element, f.element? = some element → element.Sound ∧ element.size = sized.sizeOf m element.name

theorem Totals.repeatCount_of_le_one {member : Member} (few : member.cardinality ≤ 1) :
    Totals.repeatCount member = 1 := by
  have single : ¬1 < member.cardinality := by omega
  simp [Totals.repeatCount, single]

/-- Without a lower bound, a member counts as often as its cardinality says. -/
theorem Totals.repeatCount_of_plain {member : Member} (plain : member.minCardinality = none)
    (counted : member.cardinality ≠ 0) : Totals.repeatCount member = member.cardinality := by
  simp only [Totals.repeatCount, plain, Option.isNone_none, Bool.true_and, decide_eq_true_eq]
  split <;> omega

private theorem Field.Stems.fixed_mul {m : Model} {sized : SizeTable} {compiled : List Layout} {member : Member}
    {f : Field} (stems : f.Stems m compiled member) (settled : f.HasSettledElements m sized)
    (fixed : (sized.sizeOf m member.type).fixed ≠ 0) (plain : member.minCardinality = none) :
    f.isDynamic = false ∧
      Word.mul (sized.sizeOf m member.type).fixed (Totals.repeatCount member) = Word.wrap f.extent := by
  cases stems with
  | @primitive type kind known once suits =>
    have size : sized.sizeOf m member.type = type.wireSize := by simp [SizeTable.sizeOf, known]
    have constant : type.variableSize = false := by
      cases varies : type.variableSize with
      | false => rfl
      | true => simp [size, DataType.wireSize, varies] at fixed
    have one := Totals.repeatCount_of_le_one once.2
    have product : Word.mul (sized.sizeOf m member.type).fixed (Totals.repeatCount member) =
        Word.wrap type.size := by
      rw [size, one]
      simp [DataType.wireSize, constant, Word.mul]
    cases kind with
    | int | pad | bytes => exact ⟨rfl, product⟩
    | varBytes counter => simp [Primitive.Suits, constant] at suits
  | @nested element repetition other present named static suits =>
    obtain ⟨sound, size⟩ := settled element rfl
    have width : (sized.sizeOf m member.type).fixed = Word.wrap element.extent := by
      rw [← named, ← size]
      exact sound.fixed_eq static
    cases repetition with
    | once =>
      have one := Totals.repeatCount_of_le_one suits.2
      refine ⟨rfl, ?_⟩
      rw [width, one, Word.mul_wrap_left]
      simp [Field.extent]
    | array count =>
      obtain ⟨_, many, rfl⟩ := suits
      have several := Totals.repeatCount_of_plain plain (by omega)
      refine ⟨rfl, ?_⟩
      rw [width, several, Word.mul_wrap_left, Field.extent, Int.natCast_mul, Int.mul_comm]
    | group counter least most =>
      have counted := suits.1
      rw [plain] at counted
      cases counted

private theorem isVariable_of_totalsOf {m : Model} {sized : SizeTable} {members : List Member} {totals : Totals}
    (constant : (SizeTable.totalsOf m sized totals members).isVariable = false) :
    totals.isVariable = false := by
  induction members generalizing totals with
  | nil => exact constant
  | cons member rest ih =>
    have later : (SizeTable.totalsOf m sized (totals.addMember member (sized.sizeOf m member.type))
        rest).isVariable = false := constant
    have next := ih later
    simp only [Totals.addMember, Bool.or_eq_false_iff] at next
    exact next.1

private theorem totalsOf_fixed {m : Model} {sized : SizeTable} {compiled : List Layout} {members : List Member}
    {fields : List Field} (related : List.Forall₂ (Field.Stems m compiled) members fields)
    (settled : ∀ f ∈ fields, f.HasSettledElements m sized) {totals : Totals} {sum : Nat}
    (start : totals.fixed = Word.wrap sum)
    (constant : (SizeTable.totalsOf m sized totals members).isVariable = false) :
    (∀ f ∈ fields, f.isDynamic = false) ∧
      (SizeTable.totalsOf m sized totals members).fixed =
        Word.wrap ((sum + extentOf fields : Nat) : Int) := by
  induction related generalizing totals sum with
  | nil => exact ⟨by simp, by simpa [SizeTable.totalsOf, extentOf] using start⟩
  | @cons member f members fields stems rest ih =>
    have step : SizeTable.totalsOf m sized totals (member :: members) =
        SizeTable.totalsOf m sized (totals.addMember member (sized.sizeOf m member.type)) members := rfl
    rw [step] at constant ⊢
    have next := isVariable_of_totalsOf constant
    simp only [Totals.addMember, Bool.or_eq_false_iff, beq_eq_false_iff_ne, ne_eq,
      Option.isSome_eq_false_iff, Option.isNone_iff_eq_none] at next
    obtain ⟨_, nonzero, plain⟩ := next
    obtain ⟨here, product⟩ := stems.fixed_mul (settled f (by simp)) nonzero plain
    have sum_here : (totals.addMember member (sized.sizeOf m member.type)).fixed =
        Word.wrap ((sum + f.extent : Nat) : Int) := by
      simp only [Totals.addMember, beq_eq_false_iff_ne.mpr nonzero, plain, Option.isSome_none,
        Bool.or_self, Bool.false_eq_true, if_false, product, start]
      exact Word.add_wrap_wrap sum f.extent
    obtain ⟨others, total⟩ := ih (fun g later => settled g (by simp [later])) sum_here constant
    refine ⟨?_, ?_⟩
    · intro g member
      rcases List.mem_cons.mp member with rfl | later
      · exact here
      · exact others g later
    · rw [total, extentOf, Nat.add_assoc]

theorem Table.sound_of_compile {m : Model} {t : Table} (accepted : m.IsAccepted)
    (compiled : Table.compile m = .ok t) : ∀ l ∈ t.layouts, l.Sound := by
  obtain ⟨_, sizes, sound⟩ := Table.isSound_of_compile compiled
  intro l
  induction l using Layout.nesting with
  | step name message size fields ih =>
    intro listed
    obtain ⟨s, found, stem, sizeEq, _⟩ := sound.stems _ listed
    simp only [Layout.name, Layout.fields, Layout.size] at found stem sizeEq
    have named : s.name = name := by simpa using List.find?_some found
    have entry := Model.entry_of_sizes sizes found
    -- what is known of the elements of a field
    have nested : ∀ f ∈ fields, ∀ element, f.element? = some element →
        element.size.isStatic = true ∧ element ∈ t.layouts := by
      intro f member element has
      obtain ⟨source, _, stems⟩ := stem.of_mem member
      cases stems with
      | primitive known once suits => cases has
      | nested other present same static suits =>
        cases has
        exact ⟨static, present⟩
    have elements : ∀ f ∈ fields, ∀ element, f.element? = some element → element.Sound := by
      intro f member element has
      exact ih f member element has (nested f member element has).2
    refine .mk ?_ stem.counters ?_ ?_ elements
    · intro fieldName type width form member
      obtain ⟨source, _, stems⟩ := stem.of_mem member
      cases stems with
      | primitive known once suits =>
        have allowed := accepted.widths _ (List.mem_of_find?_eq_some known) suits.1
        simp only [integerWidths, List.mem_cons, List.not_mem_nil, or_false] at allowed
        omega
    · intro static
      have unshadowed : m.type? name = none := named ▸ accepted.apart s (List.mem_of_find?_eq_some found)
      have whole : size = (SizeTable.totalsOf m t.sizes .zero s.members).size := by
        rw [sizeEq, SizeTable.sizeOf, unshadowed, entry.size]
        rfl
      have constant : (SizeTable.totalsOf m t.sizes .zero s.members).isVariable = false := by
        cases varies : (SizeTable.totalsOf m t.sizes .zero s.members).isVariable with
        | false => rfl
        | true => simp [whole, Size.isStatic, Totals.size, varies] at static
      have settled : ∀ f ∈ fields, f.HasSettledElements m t.sizes := by
        intro f member element has
        obtain ⟨other, stems⟩ := sound.stems element (nested f member element has).2
        exact ⟨elements f member element has, stems.size⟩
      obtain ⟨fixed, total⟩ := totalsOf_fixed stem.related settled
        (show Totals.zero.fixed = Word.wrap (0 : Nat) by simp [Totals.zero]) constant
      refine ⟨?_, fixed⟩
      rw [whole, Totals.size, constant]
      simpa using total
    · intro f member element has
      exact (nested f member element has).1

private theorem Layout.Sound.fields_ne_nil {l : Layout} (sound : l.Sound) (static : l.size.isStatic = true) :
    l.fields ≠ [] := by
  intro none
  have zero : l.size.fixed = 0 := by
    rw [sound.fixed_eq static, Layout.extent_eq_sum, none]
    rfl
  simp [Size.isStatic, zero] at static

/-- A layout with at least one field is anchored: a dynamic field is never the first, and no field is
declared to hold no element at all. -/
theorem Table.anchored_of_compile {m : Model} {t : Table} (accepted : m.IsAccepted)
    (compiled : Table.compile m = .ok t) : ∀ l ∈ t.layouts, l.fields ≠ [] → l.Anchored := by
  obtain ⟨_, sizes, sound⟩ := Table.isSound_of_compile compiled
  intro l
  induction l using Layout.nesting with
  | step name message size fields ih =>
    intro listed present
    obtain ⟨s, found, stem, _, _⟩ := sound.stems _ listed
    simp only [Layout.name, Layout.fields] at found stem present
    have covers := (Model.entry_of_sizes sizes found).covers
    cases fields with
    | nil => exact absurd rfl present
    | cons first rest =>
      refine .mk ?_ ?_ ?_
      · -- the counter of a dynamic field stands before it
        cases dynamic : first.isDynamic with
        | false => rfl
        | true =>
          obtain ⟨counter, governed⟩ := first.counter?_of_isDynamic dynamic
          have before := (stem.counters 0 first counter rfl governed).1
          omega
      · intro fieldName repetition element member
        obtain ⟨source, owned, stems⟩ := stem.of_mem member
        have counted := (covers source owned).1
        cases stems with
        | nested other inside same static suits =>
          cases repetition with
          | once => exact Nat.one_pos
          | array count =>
            obtain ⟨_, many, rfl⟩ := suits
            exact Nat.lt_of_succ_lt many
          | group counter least most =>
            obtain ⟨_, rfl⟩ := suits
            exact Nat.pos_of_ne_zero counted
      · intro f member element nested
        obtain ⟨source, _, stems⟩ := stem.of_mem member
        cases stems with
        | primitive known once suits => cases nested
        | nested other inside same static suits =>
          cases nested
          have whole := Table.sound_of_compile accepted compiled element inside
          exact ih _ member element rfl inside (whole.fields_ne_nil static)

/-- The layouts that a document gives rise to; none when it is not accepted. -/
def layoutsOf (document : Bytes) : List Layout :=
  match Model.parse document with
  | .error _ => []
  | .ok m =>
    match Table.compile m with
    | .error _ => []
    | .ok t => t.layouts

theorem exists_of_any_layoutsOf {document : Bytes} {p : Layout → Bool}
    (run : (layoutsOf document).any p = true) :
    ∃ m t l, Model.parse document = .ok m ∧ Table.compile m = .ok t ∧ l ∈ t.layouts ∧ p l = true := by
  obtain ⟨l, listed, checked⟩ := List.any_eq_true.mp run
  unfold layoutsOf at listed
  split at listed
  · cases listed
  · rename_i m parsed
    split at listed
    · cases listed
    · rename_i t compiled
      exact ⟨m, t, l, parsed, compiled, listed, checked⟩

theorem layoutsOf_eq {document : Bytes} {m : Model} (parsed : Model.parse document = .ok m) :
    layoutsOf document = ((Table.compile m).toOption.map (·.layouts)).getD [] := by
  simp only [layoutsOf, parsed]
  cases Table.compile m with
  | error | ok => rfl

/-- Two models without flows say the same. -/
def Model.isAlike (m other : Model) : Bool :=
  m.name == other.name && m.version == other.version && m.subVersion == other.subVersion &&
    m.build == other.build && m.types == other.types && m.structures == other.structures &&
      m.templates == other.templates && m.usages == other.usages && m.flows.isEmpty && other.flows.isEmpty

private theorem Model.eq_of_isAlike {m other : Model} (alike : m.isAlike other = true) : m = other := by
  obtain ⟨name, version, subVersion, build, types, structures, templates, usages, flows⟩ := m
  obtain ⟨_, _, _, _, _, _, _, _, others⟩ := other
  simp only [isAlike, Bool.and_eq_true, beq_iff_eq, List.isEmpty_iff] at alike
  obtain ⟨⟨⟨⟨⟨⟨⟨⟨⟨rfl, rfl⟩, rfl⟩, rfl⟩, rfl⟩, rfl⟩, rfl⟩, rfl⟩, rfl⟩, rfl⟩ := alike
  rfl

/-- Once it is known as what a document is read, its models and layouts are evaluated without reading it again. -/
theorem Model.parse_of_isAlike {document : Bytes} {m : Model}
    (run : (Model.parse document).toOption.any m.isAlike = true) : Model.parse document = .ok m := by
  obtain ⟨read, parsed, alike⟩ := (Option.any_eq_true _ _).mp run
  rw [toOption_eq_some.mp parsed, Model.eq_of_isAlike alike]

end TradeWire
