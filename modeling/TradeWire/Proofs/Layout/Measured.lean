import Mathlib.Tactic.Choose
import TradeWire.Proofs.Layout.References

/-! Sizes in whole numbers, which the computed sizes are as long as these are machine numbers. -/

set_option autoImplicit false
set_option relaxedAutoImplicit false

namespace TradeWire

open Schema

/-- The fixed, least and largest number of bytes, in whole numbers. Without a fixed size there is zero. -/
structure Span where
  fixed : Nat
  least : Nat
  most : Nat
deriving Repr, DecidableEq, Inhabited

namespace Span

def size (x : Span) : Size := ⟨x.fixed, x.least, x.most⟩

/-- What is added for one member keeps the structure from having a fixed size. -/
def varies (x : Span) (member : Member) : Bool := x.fixed == 0 || member.minCardinality.isSome

/-- The sums over some members whose types have these spans. -/
def of (span : Member → Span) (members : List Member) : Span where
  fixed :=
    if members.any fun member => (span member).varies member then 0
    else (members.map fun member => (span member).fixed * Totals.repeatCount member).sum
  least := (members.map fun member =>
    (span member).least * member.minCardinality.getD (Totals.repeatCount member)).sum
  most := (members.map fun member => (span member).most * member.cardinality).sum

private theorem of_congr {span other : Member → Span} {members : List Member}
    (same : ∀ member ∈ members, span member = other member) : of span members = of other members := by
  have each : ∀ (β : Type) (g : Member → Span → β),
      (members.map fun member => g member (span member)) = members.map fun member => g member (other member) := by
    intro β g
    apply List.map_congr_left
    intro member listed
    rw [same member listed]
  have vary : (members.any fun member => (span member).varies member) =
      members.any fun member => (other member).varies member := by
    have marks := congrArg (List.any · id) (each Bool fun member x => x.varies member)
    simpa only [List.any_map, Function.comp_def, id] using marks
  have fixed := each Nat fun member x => x.fixed * Totals.repeatCount member
  have least := each Nat fun member x =>
    x.least * member.minCardinality.getD (Totals.repeatCount member)
  have most := each Nat fun member x => x.most * member.cardinality
  simp only [of, vary, fixed, least, most]

private theorem size_fixed_beq (x : Span) : (x.size.fixed == 0) = (x.fixed == 0) := by
  rw [Bool.eq_iff_iff]
  simp [size]

def Fits (x : Span) : Prop := (x.least : Int) ≤ Word.maxSigned ∧ (x.most : Int) ≤ Word.maxSigned

instance (x : Span) : Decidable x.Fits := inferInstanceAs (Decidable (_ ∧ _))

end Span

def Schema.DataType.span (t : DataType) : Span :=
  let fixed := if t.variableSize then 0 else t.size
  ⟨fixed, fixed, t.size⟩

theorem Schema.DataType.size_span (t : DataType) : t.span.size = t.wireSize := by
  cases varies : t.variableSize <;> simp [span, Span.size, wireSize, varies]

namespace Model

variable {m : Model}

/-- The span of a data type, or of a structure by those of its members' types. -/
inductive Measures (m : Model) : String → Span → Prop
  | ofType {name : String} {t : DataType} (found : m.type? name = some t) : Measures m name t.span
  | ofStructure {name : String} {s : Structure} {span : Member → Span} (found : m.structure? name = some s)
      (each : ∀ member ∈ s.members, Measures m member.type (span member)) :
      Measures m name (Span.of span s.members)

def SumsFit (m : Model) : Prop := ∀ s ∈ m.structures, ∀ x, m.Measures s.name x → x.Fits

/-- Structures that are made of one another in the end, of proper members, and with room between their least
and their largest size. -/
structure IsWellFounded (m : Model) : Prop where
  acyclic : m.IsAcyclic
  components : ∀ s ∈ m.structures, ∀ member ∈ s.members, ∀ sub ∈ m.structures,
    sub.name = member.type → sub.isMessage = false
  counted : ∀ s ∈ m.structures, ∀ member ∈ s.members, 1 ≤ member.cardinality
  ordered : ∀ s ∈ m.structures, ∀ x, m.Measures s.name x → x.least ≤ x.most

private theorem Measures.fixed_eq_least {name : String} {x : Span} (measures : m.Measures name x)
    (fixed : x.fixed ≠ 0) : x.fixed = x.least := by
  induction measures with
  | @ofType name t found =>
    cases varies : t.variableSize with
    | true => simp [DataType.span, varies] at fixed
    | false => rfl
  | @ofStructure name s span found each ih =>
    have constant : ∀ member ∈ s.members, (span member).varies member = false := by
      intro member listed
      cases some_vary : s.members.any fun member => (span member).varies member with
      | true => simp [Span.of, some_vary] at fixed
      | false => simpa using List.any_eq_false.mp some_vary member listed
    have none_vary : (s.members.any fun member => (span member).varies member) = false := by
      apply List.any_eq_false.mpr
      intro member listed
      simp [constant member listed]
    simp only [Span.of, none_vary, Bool.false_eq_true, if_false]
    apply congrArg List.sum
    apply List.map_congr_left
    intro member listed
    have steady := constant member listed
    simp only [Span.varies, Bool.or_eq_false_iff, beq_eq_false_iff_ne, ne_eq,
      Option.isSome_eq_false_iff, Option.isNone_iff_eq_none] at steady
    rw [ih member listed steady.1, steady.2, Option.getD_none]

/-- A size that a structure has if it has any comes from whole numbers. -/
theorem Rates.exists_measures {name : String} {size : Size} (rates : m.Rates name size) :
    ∃ x, m.Measures name x := by
  induction rates with
  | ofType found => exact ⟨_, .ofType found⟩
  | ofStructure found each ih =>
    choose! span measures using ih
    exact ⟨_, .ofStructure found measures⟩

end Model

theorem Word.foldl_add_mul {α : Type} (value count : α → Nat) (items : List α) (n : Nat) :
    items.foldl (fun sum item => Word.add sum (Word.mul (value item) (count item))) (Word.wrap n) =
      Word.wrap ((n + (items.map fun item => value item * count item).sum : Nat) : Int) := by
  induction items generalizing n with
  | nil => rw [List.foldl_nil, List.map_nil, List.sum_nil, Nat.add_zero]
  | cons item rest ih =>
    have product : Word.mul (value item) (count item) = Word.wrap ((value item * count item : Nat) : Int) := by
      rw [Word.mul, Int.natCast_mul]
    rw [List.foldl_cons, product, Word.add_wrap_wrap, ih, List.map_cons, List.sum_cons, Nat.add_assoc]

namespace Totals

variable {span : Member → Span} {members : List Member}

theorem zero_eq_wrap : (0 : Int) = Word.wrap (0 : Nat) := by simp

private theorem least_of : (Totals.of (fun member => (span member).size) members).least =
    Word.wrap (Span.of span members).least := by
  have sums := Word.foldl_add_mul (fun member => (span member).least)
    (fun member => member.minCardinality.getD (repeatCount member)) members 0
  rw [Nat.zero_add, ← zero_eq_wrap] at sums
  exact (List.foldl_hom Totals.least fun _ _ => rfl).symm.trans sums

private theorem most_of : (Totals.of (fun member => (span member).size) members).most =
    Word.wrap (Span.of span members).most := by
  have sums := Word.foldl_add_mul (fun member => (span member).most)
    (fun member => member.cardinality) members 0
  rw [Nat.zero_add, ← zero_eq_wrap] at sums
  exact (List.foldl_hom Totals.most fun _ _ => rfl).symm.trans sums

theorem isVariable_of (size : Member → Size) (members : List Member) : (Totals.of size members).isVariable =
    members.any fun member => (size member).fixed == 0 || member.minCardinality.isSome := by
  have sums : ∀ t : Totals,
      (members.foldl (fun totals member => totals.addMember member (size member)) t).isVariable =
        (t.isVariable || members.any fun member => (size member).fixed == 0 || member.minCardinality.isSome) := by
    induction members with
    | nil => simp
    | cons member rest ih =>
      intro t
      rw [List.foldl_cons, ih, List.any_cons, ← Bool.or_assoc]
      rfl
  exact (sums .zero).trans (Bool.false_or _)

private theorem fixed_foldl {size : Member → Size} {members : List Member} (t : Totals)
    (steady : ∀ member ∈ members, ((size member).fixed == 0 || member.minCardinality.isSome) = false) :
    (members.foldl (fun totals member => totals.addMember member (size member)) t).fixed =
      members.foldl (fun sum member =>
        Word.add sum (Word.mul (size member).fixed (repeatCount member))) t.fixed := by
  induction members generalizing t with
  | nil => rfl
  | cons member rest ih =>
    have here : (t.addMember member (size member)).fixed =
        Word.add t.fixed (Word.mul (size member).fixed (repeatCount member)) := by
      simp only [addMember, steady member (by simp), Bool.false_eq_true, if_false]
    rw [List.foldl_cons, List.foldl_cons, ih _ fun other later => steady other (by simp [later]), here]

theorem fixed_of {size : Member → Size} {members : List Member}
    (steady : (Totals.of size members).isVariable = false) :
    (Totals.of size members).fixed = members.foldl (fun sum member =>
      Word.add sum (Word.mul (size member).fixed (repeatCount member))) 0 := by
  rw [isVariable_of, List.any_eq_false] at steady
  exact fixed_foldl .zero fun member listed => Bool.eq_false_iff.mpr (steady member listed)

private theorem size_of (fits : (Span.of span members).Fits)
    (small : (Span.of span members).fixed ≤ (Span.of span members).least) :
    (Totals.of (fun member => (span member).size) members).size = (Span.of span members).size := by
  obtain ⟨low, high⟩ := fits
  have least : (Totals.of (fun member => (span member).size) members).least = (Span.of span members).least := by
    rw [least_of, Word.wrap_natCast low]
  have most : (Totals.of (fun member => (span member).size) members).most = (Span.of span members).most := by
    rw [most_of, Word.wrap_natCast high]
  have vary : (Totals.of (fun member => (span member).size) members).isVariable =
      members.any fun member => (span member).varies member := by
    simp only [isVariable_of, Span.size_fixed_beq, Span.varies]
  unfold Totals.size
  cases some_vary : members.any fun member => (span member).varies member with
  | true =>
    have none : (Span.of span members).fixed = 0 := by simp [Span.of, some_vary]
    rw [vary, some_vary, least, most, Span.size, none]
    rfl
  | false =>
    have whole : (Span.of span members).fixed =
        (members.map fun member => (span member).fixed * repeatCount member).sum := by
      simp [Span.of, some_vary]
    have fixed : (Totals.of (fun member => (span member).size) members).fixed =
        (Span.of span members).fixed := by
      have sums := Word.foldl_add_mul (fun member => (span member).fixed) repeatCount members 0
      rw [Nat.zero_add, ← zero_eq_wrap, ← whole, Word.wrap_natCast (by omega)] at sums
      exact (fixed_of (vary.trans some_vary)).trans sums
    rw [vary, some_vary, least, most, fixed]
    rfl

end Totals

namespace Model

variable {m : Model}

theorem Measures.fixed_le_least {name : String} {x : Span} (measures : m.Measures name x) :
    x.fixed ≤ x.least := by
  by_cases fixed : x.fixed = 0
  · omega
  · exact Nat.le_of_eq (measures.fixed_eq_least fixed)

/-- Where sums are machine numbers, the sizes in whole numbers are the computed ones. -/
theorem Measures.rates (fits : m.SumsFit) {name : String} {x : Span} (measures : m.Measures name x) :
    m.Rates name x.size := by
  induction measures with
  | ofType found =>
    rw [DataType.size_span]
    exact .ofType found
  | @ofStructure name s span found each ih =>
    have whole : m.Measures name (Span.of span s.members) := .ofStructure found each
    have named := name_of_structure? found
    have bounds := fits s (List.mem_of_find?_eq_some found) _ (named ▸ whole)
    rw [← Totals.size_of bounds whole.fixed_le_least]
    exact .ofStructure found ih

/-- Sizes are in order when the least is no larger than the largest. -/
theorem Measures.isOrdered_iff {name : String} {x : Span} (measures : m.Measures name x) :
    x.size.isOrdered = true ↔ x.least ≤ x.most := by
  simp only [Size.isOrdered, Span.size, Bool.and_eq_true, decide_eq_true_eq, beq_iff_eq]
  by_cases fixed : x.fixed = 0
  · simp [fixed]
  · have same := measures.fixed_eq_least fixed
    have nonzero : ¬(x.fixed : Int) = 0 := by omega
    rw [if_neg nonzero]
    omega

/-- With sums that are machine numbers, a model is sizable when it is well founded in whole numbers. -/
theorem isSizable_iff (regular : m.IsRegular) (fits : m.SumsFit) : m.IsSizable ↔ m.IsWellFounded := by
  constructor
  · intro sizable
    refine ⟨sizable.acyclic, ?_, ?_, ?_⟩
    · intro s inside member listed sub also named
      have found := regular.structure?_iff.mpr inside
      exact sizable.components s.name s found member listed sub (named ▸ regular.structure?_iff.mpr also)
    · intro s inside member listed
      have counted := sizable.counted s.name s (regular.structure?_iff.mpr inside) member listed
      omega
    · intro s inside x measures
      have found := regular.structure?_iff.mpr inside
      exact measures.isOrdered_iff.mp (sizable.ordered s.name s found _ (measures.rates fits))
  · intro founded
    refine ⟨founded.acyclic, ?_, ?_, ?_⟩
    · intro name s found member listed sub also
      exact founded.components s (List.mem_of_find?_eq_some found) member listed sub
        (List.mem_of_find?_eq_some also) (name_of_structure? also)
    · intro name s found member listed
      have counted := founded.counted s (List.mem_of_find?_eq_some found) member listed
      omega
    · intro name s found size rates
      obtain ⟨x, measures⟩ := rates.exists_measures
      obtain rfl := rates.unique regular (measures.rates fits)
      have named := name_of_structure? found
      exact measures.isOrdered_iff.mpr
        (founded.ordered s (List.mem_of_find?_eq_some found) x (named ▸ measures))

theorem exists_measures_of_sizes (regular : m.IsRegular) (fits : m.SumsFit) {sized : SizeTable}
    (done : m.sizes = .ok sized) {s : Structure} (inside : s ∈ m.structures) :
    ∃ x, m.Measures s.name x ∧ sized.sizeOf m s.name = x.size := by
  have rates := rates_of_sizes regular done (regular.structure?_iff.mpr inside)
  obtain ⟨x, measures⟩ := rates.exists_measures
  exact ⟨x, measures, (measures.rates fits).unique regular rates⟩

/-- Spans that solve the equations of a model are its sizes in whole numbers. -/
theorem Measures.eq_of_solves {span : String → Span}
    (types : ∀ name t, m.type? name = some t → span name = t.span)
    (structures : ∀ s ∈ m.structures, span s.name = Span.of (fun member => span member.type) s.members)
    {name : String} {x : Span} (measures : m.Measures name x) : x = span name := by
  induction measures with
  | ofType found => exact (types _ _ found).symm
  | @ofStructure name s own found each ih =>
    rw [← name_of_structure? found, structures s (List.mem_of_find?_eq_some found)]
    exact Span.of_congr ih

def sizedSpan (m : Model) (sized : SizeTable) (name : String) : Span :=
  match m.type? name with
  | some t => t.span
  | none =>
    let size := sized.sizeOf m name
    ⟨size.fixed.toNat, size.least.toNat, size.most.toNat⟩

/-- Computed sizes that solve the equations show that the sums were machine numbers. -/
theorem sumsFit_of_solves {sized : SizeTable}
    (solves : ∀ s ∈ m.structures, (m.sizedSpan sized s.name).Fits ∧
      m.sizedSpan sized s.name = Span.of (fun member => m.sizedSpan sized member.type) s.members) :
    m.SumsFit := by
  intro s inside x measures
  have types : ∀ name t, m.type? name = some t → m.sizedSpan sized name = t.span := by
    intro name t found
    simp only [sizedSpan, found]
  rw [measures.eq_of_solves types fun s inside => (solves s inside).2]
  exact (solves s inside).1

end Model

end TradeWire
