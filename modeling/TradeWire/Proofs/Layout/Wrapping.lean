import Mathlib.Data.List.Forall2
import TradeWire.Proofs.Layout.Building
import TradeWire.Proofs.Layout.Measured
import TradeWire.Proofs.Layout.Offsets

/-!
Sizes beyond the machine numbers. Addition and multiplication of machine words commute with taking what is left
of a whole number, so the computed sizes and offsets are what is left of those in whole numbers, no matter where
the sums wrapped. They are the whole numbers themselves just when these are machine numbers; the order in which
the sizes of a structure have to be does not tell.
-/

set_option autoImplicit false
set_option relaxedAutoImplicit false

namespace TradeWire

open Schema

namespace Word

private theorem wrap_natCast_iff {n : Nat} : wrap n = n ↔ (n : Int) ≤ maxSigned := by
  constructor
  · intro same
    rw [← same]
    exact wrap_le_maxSigned n
  · exact wrap_natCast

private theorem foldl_add_mul_of_wrap {α : Type} {word : α → Int} {value : α → Nat} (count : α → Nat) {items : List α}
    (same : ∀ item ∈ items, word item = wrap (value item)) :
    items.foldl (fun sum item => add sum (mul (word item) (count item))) 0 =
      wrap ((items.map fun item => value item * count item).sum : Nat) := by
  have whole := foldl_add_mul value count items 0
  rw [← Totals.zero_eq_wrap, Nat.zero_add] at whole
  rw [← whole]
  apply List.foldl_ext
  intro sum item listed
  rw [same item listed, mul_wrap_left, mul]

end Word

/-- What is left of a span where sums and products are machine words. The fixed size is lost when that of a part
comes out as zero, and stays when it is a machine number. -/
structure Span.WrapsTo (x : Span) (size : Size) : Prop where
  least : size.least = Word.wrap x.least
  most : size.most = Word.wrap x.most
  fixed : size.fixed = 0 ∨ size.fixed = Word.wrap x.fixed
  keeps : (x.fixed : Int) ≤ Word.maxSigned → size.fixed = x.fixed

namespace Span.WrapsTo

variable {x : Span} {size : Size}

private theorem of_type (t : DataType) (fits : (t.size : Int) ≤ Word.maxSigned) : t.span.WrapsTo t.wireSize := by
  have fixed : (t.span.fixed : Int) ≤ Word.maxSigned := by
    cases varies : t.variableSize with
    | true => simp [DataType.span, varies, Word.maxSigned]
    | false => simpa [DataType.span, varies] using fits
  rw [← DataType.size_span]
  exact ⟨(Word.wrap_natCast fixed).symm, (Word.wrap_natCast fits).symm, .inr (Word.wrap_natCast fixed).symm,
    fun _ => rfl⟩

private theorem fixed_eq_zero (wraps : x.WrapsTo size) (none : x.fixed = 0) : size.fixed = 0 := by
  have kept := wraps.keeps (by simp [none, Word.maxSigned])
  simpa [none] using kept

private theorem eq_size_iff (wraps : x.WrapsTo size) (small : x.fixed ≤ x.least) : size = x.size ↔ x.Fits := by
  have whole : size = x.size ↔ size.fixed = x.fixed ∧ size.least = x.least ∧ size.most = x.most := by
    cases size
    simp only [Span.size, Size.mk.injEq]
  rw [whole, wraps.least, wraps.most, Word.wrap_natCast_iff, Word.wrap_natCast_iff, Span.Fits]
  constructor
  · exact And.right
  · rintro ⟨low, high⟩
    exact ⟨wraps.keeps (by omega), low, high⟩

end Span.WrapsTo

namespace Totals

variable {size : Member → Size} {span : Member → Span} {members : List Member}

private theorem repeatCount_pos (member : Member) : 0 < repeatCount member := by
  unfold repeatCount
  split
  · rename_i many
    simp only [Bool.and_eq_true, decide_eq_true_eq] at many
    omega
  · exact Nat.one_pos

private theorem wrapsTo_of (each : ∀ member ∈ members, (span member).WrapsTo (size member)) :
    (Span.of span members).WrapsTo (Totals.of size members).size := by
  have least : (Totals.of size members).least = Word.wrap (Span.of span members).least :=
    (List.foldl_hom Totals.least fun _ _ => rfl).symm.trans
      (Word.foldl_add_mul_of_wrap _ fun member listed => (each member listed).least)
  have most : (Totals.of size members).most = Word.wrap (Span.of span members).most :=
    (List.foldl_hom Totals.most fun _ _ => rfl).symm.trans
      (Word.foldl_add_mul_of_wrap _ fun member listed => (each member listed).most)
  -- a member that varies does so in machine words too
  have varies : (∃ member ∈ members, (span member).varies member = true) →
      (Totals.of size members).isVariable = true := by
    rintro ⟨member, listed, some_vary⟩
    rw [isVariable_of, List.any_eq_true]
    refine ⟨member, listed, ?_⟩
    simp only [Span.varies, Bool.or_eq_true, beq_iff_eq] at some_vary ⊢
    exact some_vary.imp_left (each member listed).fixed_eq_zero
  cases some_vary : members.any fun member => (span member).varies member with
  | true =>
    have none : (Span.of span members).fixed = 0 := by simp [Span.of, some_vary]
    have variable_ := varies (List.any_eq_true.mp some_vary)
    refine ⟨least, most, .inl ?_, fun _ => ?_⟩
    · simp [Totals.size, variable_]
    · simp [Totals.size, variable_, none]
  | false =>
    have steady := List.any_eq_false.mp some_vary
    have whole : (Span.of span members).fixed =
        (members.map fun member => (span member).fixed * repeatCount member).sum := by
      simp [Span.of, some_vary]
    -- as long as no member is lost, the fixed size is what is left of the sum
    have sum : (Totals.of size members).isVariable = false →
        (Totals.of size members).size.fixed = Word.wrap (Span.of span members).fixed := by
      intro constant
      rw [Totals.size, constant, whole]
      refine (fixed_of constant).trans (Word.foldl_add_mul_of_wrap _ ?_)
      intro member listed
      rw [isVariable_of, List.any_eq_false] at constant
      have nonzero := constant member listed
      simp only [Bool.or_eq_true, beq_iff_eq, not_or] at nonzero
      exact (each member listed).fixed.resolve_left nonzero.1
    refine ⟨least, most, ?_, ?_⟩
    · cases constant : (Totals.of size members).isVariable with
      | true => simp [Totals.size, constant]
      | false => exact .inr (sum constant)
    · intro fits
      have constant : (Totals.of size members).isVariable = false := by
        rw [isVariable_of, List.any_eq_false]
        intro member listed
        have part : (span member).fixed * repeatCount member ≤ (Span.of span members).fixed := by
          rw [whole]
          exact List.le_sum_of_mem (List.mem_map_of_mem listed)
        have one := Nat.le_mul_of_pos_right (span member).fixed (repeatCount_pos member)
        have kept := (each member listed).keeps (by omega)
        simpa [Span.varies, kept] using steady member listed
      rw [sum constant, Word.wrap_natCast fits]

end Totals

namespace Model

variable {m : Model}

private theorem typeSize_le_of_parse {document : Bytes} (parsed : Model.parse document = .ok m) {t : DataType}
    (listed : t ∈ m.types) : (t.size : Int) ≤ Word.maxSigned := by
  obtain ⟨_, _, _, reads⟩ := Model.readFrom_of_parse parsed
  obtain ⟨_, _, source⟩ := exists_of_forall₂_right reads.types.each listed
  exact optionalNat?_le source.size

private theorem Measures.exists_rates (fits : ∀ t ∈ m.types, (t.size : Int) ≤ Word.maxSigned) {name : String}
    {x : Span}
    (measures : m.Measures name x) : ∃ size, m.Rates name size ∧ x.WrapsTo size := by
  induction measures with
  | ofType found => exact ⟨_, .ofType found, .of_type _ (fits _ (List.mem_of_find?_eq_some found))⟩
  | ofStructure found each ih =>
    choose! size rates wraps using ih
    exact ⟨_, .ofStructure found rates, Totals.wrapsTo_of wraps⟩

private theorem Measures.eq_span_of_type? (regular : m.IsRegular) {name : String} {t : DataType} {x : Span}
    (found : m.type? name = some t) (measures : m.Measures name x) : x = t.span := by
  cases measures with
  | ofType also =>
    rw [found] at also
    cases also
    rfl
  | ofStructure also =>
    rw [regular.apart _ _ also] at found
    cases found

private theorem Measures.exists_spans (regular : m.IsRegular) {name : String} {s : Structure} {x : Span}
    (found : m.structure? name = some s) (measures : m.Measures name x) :
    ∃ span : Member → Span, (∀ member ∈ s.members, m.Measures member.type (span member)) ∧
      x = Span.of span s.members := by
  cases measures with
  | ofType also =>
    rw [regular.apart _ _ found] at also
    cases also
  | ofStructure also each =>
    rw [found] at also
    cases also
    exact ⟨_, each, rfl⟩

end Model

section Capacities

variable {m : Model} {compiled : List Layout} {span : Member → Span}

private theorem Field.Stems.capacity_eq (regular : m.IsRegular) {member : Member} {f : Field}
    (stems : f.Stems m compiled member) (sound : ∀ l ∈ compiled, l.Sound) (counted : member.cardinality ≠ 0)
    (measures : m.Measures member.type (span member))
    (below : ∀ l ∈ compiled, l.name = member.type → l.capacity = (span member).most) :
    f.capacity = (span member).most * member.cardinality := by
  cases stems with
  | @primitive type kind known once suits =>
    have one : member.cardinality = 1 := by omega
    rw [measures.eq_span_of_type? regular known, one, Nat.mul_one]
    cases kind with
    | int | pad | bytes | varBytes => rfl
  | @nested element repetition other present named static suits =>
    rw [Field.capacity_nested, suits.most_eq counted, ← (sound element present).capacity_eq static,
      below element present named, Nat.mul_comm]

private theorem Layout.Stems.map_capacity (regular : m.IsRegular) {sized : SizeTable} {l : Layout} {s : Structure}
    (stems : l.Stems m sized compiled s) (sound : ∀ l ∈ compiled, l.Sound)
    (counted : ∀ member ∈ s.members, member.cardinality ≠ 0)
    (each : ∀ member ∈ s.members, m.Measures member.type (span member))
    (below : ∀ member ∈ s.members, ∀ l ∈ compiled, l.name = member.type → l.capacity = (span member).most) :
    l.fields.map Field.capacity = s.members.map fun member => (span member).most * member.cardinality := by
  refine map_eq_of_forall₂ ((List.forall₂_and_left _ _).mpr ⟨fun member owned => owned, stems.fields.related⟩) ?_
  rintro member f ⟨owned, fieldStems⟩
  exact fieldStems.capacity_eq regular sound (counted member owned) (each member owned) (below member owned)

private theorem Model.Measures.capacity_eq {t : Table} (regular : m.IsRegular) (accepted : m.IsAccepted)
    (compiled : Table.compile m = .ok t) {name : String} {x : Span} (measures : m.Measures name x) :
    ∀ l ∈ t.layouts, l.name = name → l.capacity = x.most := by
  obtain ⟨_, sizes, stemming⟩ := Table.isSound_of_compile compiled
  have sound := Table.sound_of_compile accepted compiled
  induction measures with
  | ofType found =>
    rintro l listed rfl
    obtain ⟨s, stems⟩ := stemming.stems l listed
    rw [regular.apart _ _ stems.found] at found
    cases found
  | @ofStructure name s span found each ih =>
    rintro l listed rfl
    obtain ⟨source, stems⟩ := stemming.stems l listed
    cases stems.found.symm.trans found
    have covers := (Model.entry_of_sizes sizes found).covers
    rw [Layout.capacity,
      stems.map_capacity regular sound (fun member owned => (covers member owned).1) each ih]
    rfl

end Capacities

section Starts

variable {α : Type} {field : α → Field}

private theorem startBehind_append (sum : Option Nat) (before after : List α) :
    startBehind field sum (before ++ after) = startBehind field (startBehind field sum before) after := by
  induction before generalizing sum with
  | nil => rfl
  | cons a rest ih => simp [startBehind, ih]

private theorem exists_of_mem_place {runs : List (Run α)}
    (cut : ∀ run ∈ runs, run.IsCut fun a => (field a).isElementary)
    (sound : ∀ run ∈ runs, ∀ a ∈ run.members, (field a).Sound) {start : Option Nat} {placed : PlacedRun α}
    (listed : placed ∈ Run.place field (wrappedStart start) runs) :
    ∃ before after, runs = before ++ placed.run :: after ∧
      placed.start = wrappedStart (startBehind field start (before.flatMap Run.members)) := by
  induction runs generalizing start with
  | nil => simp [Run.place] at listed
  | cons run rest ih =>
    simp only [Run.place, List.mem_cons] at listed
    rcases listed with rfl | later
    · exact ⟨[], rest, rfl, rfl⟩
    · rw [(cut run (by simp)).next_start (sound run (by simp))] at later
      obtain ⟨before, after, rfl, behind⟩ := ih (fun other inside => cut other (by simp [inside]))
        (fun other inside => sound other (by simp [inside])) later
      refine ⟨run :: before, after, rfl, ?_⟩
      rw [behind, List.flatMap_cons, startBehind_append]

private theorem Layout.Sound.start_eq {l : Layout} (sound : l.Sound) {placed : PlacedRun (Field × Nat)}
    (listed : placed ∈ l.runs) {start : Int} (known : placed.start = some start) :
    start = Word.wrap (((l.fields.take placed.run.head.2).map Field.capacity).sum : Nat) := by
  have members := Run.flatMap_members_partition (fun member : Field × Nat => member.1.isElementary)
    l.fields.zipIdx
  have sounds : ∀ run ∈ Run.partition (fun member : Field × Nat => member.1.isElementary) l.fields.zipIdx,
      ∀ part ∈ run.members, part.1.Sound := by
    intro run member part inside
    have listed : part ∈ l.fields.zipIdx := members ▸ List.mem_flatMap.mpr ⟨run, member, inside⟩
    exact sound.field (List.fst_mem_of_mem_zipIdx listed)
  have placing : placed ∈ Run.place Prod.fst (wrappedStart (some 0))
      (Run.partition (fun member : Field × Nat => member.1.isElementary) l.fields.zipIdx) := listed
  obtain ⟨before, after, cut, behind⟩ := exists_of_mem_place
    (Run.isCut_of_mem_partition (fun member : Field × Nat => member.1.isElementary) l.fields.zipIdx)
    sounds placing
  rw [cut, List.flatMap_append, List.flatMap_cons] at members
  generalize before.flatMap Run.members = earlier at members behind
  -- the position of the first field of the run is the number of fields before it
  have here : l.fields.zipIdx[earlier.length]? = some placed.run.head := by
    rw [← members, List.getElem?_append_right (Nat.le_refl _), Nat.sub_self]
    cases placed.run with
    | block first rest => rfl
    | single member => rfl
  have position : placed.run.head.2 = earlier.length := by
    rw [List.getElem?_zipIdx] at here
    obtain ⟨f, _, same⟩ := Option.map_eq_some_iff.mp here
    simp [← same]
  have fields : earlier.map Prod.fst = l.fields.take placed.run.head.2 := by
    have whole := congrArg (List.map Prod.fst) members
    rw [List.zipIdx_map_fst] at whole
    rw [position, ← whole, List.map_append, List.take_left' (List.length_map _)]
  rw [behind] at known
  obtain ⟨n, exact_start, rfl⟩ := Option.map_eq_some_iff.mp known
  obtain ⟨constant, total⟩ := startBehind_eq_some exact_start
  have extents : (earlier.map fun member => member.1.extent) =
      (l.fields.take placed.run.head.2).map Field.capacity := by
    rw [← fields, List.map_map]
    apply List.map_congr_left
    intro member inside
    exact (member.1.capacity_of_not_dynamic (constant member inside)).symm
  rw [total, Nat.zero_add, extents]

end Starts

/-- How many bytes the members before one take at most. -/
def Span.before (span : Member → Span) (members : List Member) (i : Nat) : Nat :=
  ((members.take i).map fun member => (span member).most * member.cardinality).sum

private theorem Span.before_le (span : Member → Span) (members : List Member) (i : Nat) :
    Span.before span members i ≤ (Span.of span members).most :=
  ((List.take_sublist i members).map _).sum_le_sum fun _ _ => Nat.zero_le _

/-- Computed sizes are what is left of the sizes in whole numbers, and equal them just when those are machine
numbers. So it is with the largest size that a layout stands for, and with the start of a run, which is what the
members before it take. -/
theorem Model.sizes_wrap : ∀ document m, Model.parse document = .ok m →
    (∀ sized, m.sizes = .ok sized → ∀ s ∈ m.structures, ∃ x, m.Measures s.name x ∧
      x.WrapsTo (sized.sizeOf m s.name) ∧ (sized.sizeOf m s.name = x.size ↔ x.Fits)) ∧
    ∀ t, Table.compile m = .ok t → ∀ l ∈ t.layouts, ∃ s ∈ m.structures, s.name = l.name ∧
      ∃ span : Member → Span, (∀ member ∈ s.members, m.Measures member.type (span member)) ∧
        m.Measures l.name (Span.of span s.members) ∧
        l.capacity = (Span.of span s.members).most ∧
        ∀ placed ∈ l.runs, ∀ start, placed.start = some start →
          start = Word.wrap (Span.before span s.members placed.run.head.2) ∧
          (start = Span.before span s.members placed.run.head.2 ↔
            (Span.before span s.members placed.run.head.2 : Int) ≤ Word.maxSigned) ∧
          ((Span.of span s.members).Fits → start = Span.before span s.members placed.run.head.2) := by
  intro document m parsed
  have regular := isRegular_of_parse parsed
  have accepted := Model.isAccepted_of_parse parsed
  constructor
  · intro sized done s inside
    have rates := rates_of_sizes regular done (regular.structure?_iff.mpr inside)
    obtain ⟨x, measures⟩ := rates.exists_measures
    obtain ⟨size, again, wraps⟩ := measures.exists_rates fun t => typeSize_le_of_parse parsed
    obtain rfl := rates.unique regular again
    exact ⟨x, measures, wraps, wraps.eq_size_iff measures.fixed_le_least⟩
  · intro t compiled l listed
    obtain ⟨_, sizes, stemming⟩ := Table.isSound_of_compile compiled
    obtain ⟨s, stems⟩ := stemming.stems l listed
    obtain ⟨x, measures⟩ := (rates_of_sizes regular sizes stems.found).exists_measures
    obtain ⟨span, each, rfl⟩ := measures.exists_spans regular stems.found
    have sound := Table.sound_of_compile accepted compiled
    have covers := (Model.entry_of_sizes sizes stems.found).covers
    have capacities := stems.map_capacity regular sound (fun member owned => (covers member owned).1) each
      fun member owned => (each member owned).capacity_eq regular accepted compiled
    refine ⟨s, List.mem_of_find?_eq_some stems.found, name_of_structure? stems.found, span, each, measures,
      measures.capacity_eq regular accepted compiled l listed rfl, ?_⟩
    intro placed part start known
    have behind := (sound l listed).start_eq part known
    rw [List.map_take, capacities, ← List.map_take] at behind
    have exact_iff : start = Span.before span s.members placed.run.head.2 ↔
        (Span.before span s.members placed.run.head.2 : Int) ≤ Word.maxSigned := by
      rw [← Word.wrap_natCast_iff, behind]
      rfl
    refine ⟨behind, exact_iff, ?_⟩
    rintro ⟨_, high⟩
    have part_le := Span.before_le span s.members placed.run.head.2
    exact exact_iff.mpr (by omega)

/-- A schema with a box of three items, and a crate of so many that their bytes exceed a word. -/
def cratesDocument : Bytes := List.flatMap Text.encodeUtf8
  ["<Model><DataTypes><DataType name='N' rootType='int' size='4'/>",
    "<DataType name='Q' rootType='int' size='8'/></DataTypes><Structures>",
    "<Structure name='Item'><Member name='Qty' type='Q' cardinality='1'/></Structure>",
    "<Structure name='Box'><Member name='Items' type='Item' cardinality='3'/>",
    "<Member name='Count' type='N' cardinality='1'/>",
    "<Member name='More' type='Item' cardinality='2' minCardinality='0' counter='Count'/></Structure>",
    "<Structure name='Crate'><Member name='Items' type='Item' cardinality='2305843009213693952'/>",
    "<Member name='Tail' type='N' cardinality='1'/></Structure></Structures></Model>"]

/-- What the structures of the schema take, in whole numbers. -/
def cratesSpan (m : Model) (name : String) : Span :=
  match m.type? name with
  | some t => t.span
  | none =>
    if name == "Item" then ⟨8, 8, 8⟩
    else if name == "Box" then ⟨0, 28, 44⟩
    else ⟨0x10000000000000004, 0x10000000000000004, 0x10000000000000004⟩

private theorem exists_crates : ∃ m t, Model.parse cratesDocument = .ok m ∧ Table.compile m = .ok t ∧
    (∀ name x, m.Measures name x → x = cratesSpan m name) ∧
    (∃ box ∈ m.structures, box.name = "Box" ∧ ∃ l ∈ t.layouts, l.name = "Box" ∧
      l.runs.map (·.start) = [some 0, some 24, some 28]) ∧
    ∃ crate ∈ m.structures, crate.name = "Crate" ∧ t.sizeOf "Crate" = ⟨4, 4, 4⟩ ∧
      Span.before (fun member => cratesSpan m member.type) crate.members 1 = 0x10000000000000000 ∧
        ∃ l ∈ t.layouts, l.name = "Crate" ∧ l.runs.map (·.start) = [some 0, some 0] := by
  have run : ((Model.parse cratesDocument).toOption.any fun m => (Table.compile m).toOption.any fun t =>
      (m.structures.all fun s =>
        cratesSpan m s.name == Span.of (fun member => cratesSpan m member.type) s.members) &&
      (m.structures.any fun s => s.name == "Box") &&
      (t.layouts.any fun l => l.name == "Box" && l.runs.map (·.start) == [some 0, some 24, some 28]) &&
      (m.structures.any fun s => s.name == "Crate" && t.sizeOf "Crate" == ⟨4, 4, 4⟩ &&
        Span.before (fun member => cratesSpan m member.type) s.members 1 == 0x10000000000000000) &&
      t.layouts.any fun l => l.name == "Crate" && l.runs.map (·.start) == [some 0, some 0]) = true := by
    rw [cratesDocument, Text.encodeUtf8_eq]
    decide +kernel
  simp only [Option.any_eq_true, toOption_eq_some, Bool.and_eq_true, List.all_eq_true, List.any_eq_true,
    beq_iff_eq] at run
  obtain ⟨m, parsed, t, compiled, ⟨⟨⟨solves, box, inside, named⟩, l, listed, boxRuns⟩, crate, within, ⟨crateNamed,
    size⟩, before⟩, k, present, crateRuns⟩ := run
  refine ⟨m, t, parsed, compiled, ?_, ⟨box, inside, named, l, listed, boxRuns⟩, crate, within, crateNamed, size,
    before, k, present, crateRuns⟩
  intro name x measures
  refine measures.eq_of_solves ?_ solves
  intro name t found
  simp only [cratesSpan, found]

theorem Model.box_sizes_wrap : ∃ m t s l, Model.parse cratesDocument = .ok m ∧ Table.compile m = .ok t ∧
    s ∈ m.structures ∧ s.name = "Box" ∧ t.sizeOf "Box" = ⟨0, 28, 44⟩ ∧ l ∈ t.layouts ∧ l.name = "Box" ∧
      l.runs.map (·.start) = [some 0, some 24, some 28] ∧
        ∃ span : Member → Span, (∀ member ∈ s.members, m.Measures member.type (span member)) ∧
          ∀ placed ∈ l.runs, ∀ start, placed.start = some start →
            start = Span.before span s.members placed.run.head.2 := by
  obtain ⟨m, t, parsed, compiled, only, ⟨box, inside, named, l, listed, layoutNamed, starts⟩, _⟩ := exists_crates
  obtain ⟨sized, placed⟩ := Model.sizes_wrap cratesDocument m parsed
  obtain ⟨_, sizes, _⟩ := Table.isSound_of_compile compiled
  have apart := (isRegular_of_parse parsed).apart "Box" box
    (named ▸ (isRegular_of_parse parsed).structure?_iff.mpr inside)
  have span : cratesSpan m "Box" = ⟨0, 28, 44⟩ := by
    simp only [cratesSpan, apart]
    rfl
  obtain ⟨x, measures, _, exact_iff⟩ := sized t.sizes sizes box inside
  obtain rfl := only _ x measures
  rw [named, span] at exact_iff
  obtain ⟨s, within, same, spans, each, whole, _, run⟩ := placed t compiled l listed
  have fits := only _ _ whole
  rw [layoutNamed, span] at fits
  refine ⟨m, t, s, l, parsed, compiled, within, same.trans layoutNamed, ?_, listed, layoutNamed, starts, spans,
    each, ?_⟩
  · rw [Table.sizeOf, (Table.isSound_of_compile compiled).1]
    exact exact_iff.mpr (by decide)
  · intro placed part start known
    exact (run placed part start known).2.2 (by rw [fits]; decide)

/-- The crate takes four bytes more than a word can count, and is sized and accepted with the four bytes alone;
what follows the items starts where the items start. -/
theorem Model.crate_sizes_ne : ∃ m t s l, Model.parse cratesDocument = .ok m ∧ Table.compile m = .ok t ∧
    s ∈ m.structures ∧ s.name = "Crate" ∧ t.sizeOf "Crate" = ⟨4, 4, 4⟩ ∧
      m.Measures "Crate" ⟨0x10000000000000004, 0x10000000000000004, 0x10000000000000004⟩ ∧
        l ∈ t.layouts ∧ l.name = "Crate" ∧ l.runs.map (·.start) = [some 0, some 0] ∧
          ∃ span : Member → Span, (∀ member ∈ s.members, m.Measures member.type (span member)) ∧
            Span.before span s.members 1 = 0x10000000000000000 := by
  obtain ⟨m, t, parsed, compiled, only, _, crate, inside, named, size, before, l, listed, layoutNamed, starts⟩ :=
    exists_crates
  have regular := isRegular_of_parse parsed
  have found := named ▸ regular.structure?_iff.mpr inside
  obtain ⟨_, sizes, _⟩ := Table.isSound_of_compile compiled
  obtain ⟨x, measures⟩ := (rates_of_sizes regular sizes found).exists_measures
  obtain ⟨spans, each, _⟩ := measures.exists_spans regular found
  obtain rfl := only _ x measures
  have span : cratesSpan m "Crate" = ⟨0x10000000000000004, 0x10000000000000004, 0x10000000000000004⟩ := by
    simp only [cratesSpan, regular.apart "Crate" crate found]
    rfl
  rw [span] at measures
  refine ⟨m, t, crate, l, parsed, compiled, inside, named, size, measures, listed, layoutNamed, starts,
    fun member => cratesSpan m member.type, ?_, before⟩
  intro member owned
  have here := each member owned
  rwa [only _ _ here] at here

end TradeWire
