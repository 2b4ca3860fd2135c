import TradeWire.Proofs.Layout.WellFormed
import TradeWire.Proofs.Record.Reachable

/-! The fields that a layout refers to by position are there in every record that can come about. -/

set_option autoImplicit false
set_option relaxedAutoImplicit false

namespace TradeWire

/-- The slot at a position is there and holds a number. -/
def HoldsInt (slots : List Slot) (i : Nat) : Prop := ∃ raw symbol, slots[i]? = some (.int raw symbol)

/-- Every position that the layout refers to is there in the slots, at every depth. -/
inductive Layout.Resolves : Layout → List Slot → Prop
  | intro {l : Layout} {slots : List Slot}
      (members : ∀ placed ∈ l.runs, ∀ member ∈ placed.run.members,
        l.fields[member.2]? = some member.1 ∧ ∃ s, slots[member.2]? = some s ∧ member.1.Admits s)
      (counters : ∀ f ∈ l.fields, ∀ counter, f.counter? = some counter → HoldsInt slots counter)
      (header : ∀ info, l.message = some info → ∃ inner,
        slots[info.header.field]? = some (.struct inner) ∧
          HoldsInt inner info.header.bodyLen ∧ HoldsInt inner info.header.templateId)
      (structures : ∀ (i : Nat) (name : String) (repetition : Repetition) (element : Layout)
        (inner : List Slot), l.fields[i]? = some (.nested name repetition element) →
          slots[i]? = some (.struct inner) → element.Resolves inner)
      (items : ∀ (i : Nat) (name : String) (repetition : Repetition) (element : Layout)
        (items : List (List Slot)) (item : List Slot),
          l.fields[i]? = some (.nested name repetition element) → slots[i]? = some (.elems items) →
            item ∈ items → element.Resolves item) :
      Resolves l slots

/-- When a run is to be read, the counter of each of its members has been read. -/
def Layout.ReadsCountersFirst (l : Layout) : Prop :=
  ∀ (buf : Bytes) (off : Int) (k : Nat) (placed : PlacedRun ReadPart) (earlier : List Slot) (pos : Int),
    (placedRuns ReadPart.field (readParts l.fields))[k]? = some placed →
      readRuns l.name off [] ((placedRuns ReadPart.field (readParts l.fields)).take k) buf off =
          .ok (earlier, pos) →
        ∀ part ∈ placed.run.members, ∀ counter, part.field.counter? = some counter →
          HoldsInt earlier counter

theorem Field.Admits.int_inv {name type : String} {size : Nat} {form : IntForm} {s : Slot}
    (shape : (Field.primitive name type size (.int form)).Admits s) :
    ∃ raw symbol, s = .int raw symbol := by
  cases s with
  | int raw symbol => exact ⟨raw, symbol, rfl⟩
  | pad | bytes | struct | elems => simp [Field.Admits] at shape

theorem holdsInt_of_forall₂ {fields : List Field} {slots : List Slot} {i size : Nat} {name type : String}
    {form : IntForm} (shape : List.Forall₂ Field.Admits fields slots)
    (here : fields[i]? = some (.primitive name type size (.int form))) : HoldsInt slots i := by
  obtain ⟨s, there, kind⟩ := forall₂_getElem? shape here
  obtain ⟨raw, symbol, rfl⟩ := kind.int_inv
  exact ⟨raw, symbol, there⟩

/-- In a well-formed layout all positions resolve, once they do in the elements. -/
theorem Layout.IsWellFormed.resolves {t : Table} {l : Layout} (good : l.IsWellFormed t)
    (below : ∀ f ∈ l.fields, ∀ element, f.element? = some element →
      ∀ slots, element.Admits slots → element.Resolves slots)
    {slots : List Slot} (shape : l.Admits slots) : l.Resolves slots := by
  have kinds := Layout.admits_iff.mp shape
  refine .intro ?_ ?_ ?_ ?_ ?_
  · intro placed member part inside
    have listed : part ∈ l.fields.zipIdx := by
      have whole := flatMap_members_placedRuns Prod.fst l.fields.zipIdx
      exact whole ▸ List.mem_flatMap.mpr ⟨placed, member, inside⟩
    have here : l.fields[part.2]? = some part.1 := List.mem_zipIdx_iff_getElem?.mp listed
    exact ⟨here, forall₂_getElem? kinds here⟩
  · intro f member counter governed
    obtain ⟨i, here⟩ := List.mem_iff_getElem?.mp member
    have dynamic : f.isDynamic = true := f.isDynamic_of_counter? governed
    obtain ⟨other, same, _, name, type, size, form, there, _⟩ := good.counters i f here dynamic
    obtain rfl : other = counter := Option.some.inj (same.symm.trans governed)
    exact holdsInt_of_forall₂ kinds there
  · intro info message
    obtain ⟨name, header, here, _, bodyLen, templateId⟩ := good.header info message
    obtain ⟨s, there, kind⟩ := forall₂_getElem? kinds here
    cases s with
    | struct inner =>
      simp only [Field.Admits] at kind
      have innerKinds := Layout.admits_iff.mp kind
      obtain ⟨_, _, _, first⟩ := bodyLen
      obtain ⟨_, _, _, second⟩ := templateId
      exact ⟨inner, there, holdsInt_of_forall₂ innerKinds first, holdsInt_of_forall₂ innerKinds second⟩
    | pad | int | bytes | elems => simp [Field.Admits] at kind
  · intro i name repetition element inner here there
    obtain ⟨s, same, kind⟩ := forall₂_getElem? kinds here
    obtain rfl := Option.some.inj (there.symm.trans same)
    obtain ⟨_, _, form, admitted⟩ := kind.struct_inv
    cases form
    exact below _ (List.mem_of_getElem? here) element rfl inner admitted
  · intro i name repetition element items item here there listed
    obtain ⟨s, same, kind⟩ := forall₂_getElem? kinds here
    obtain rfl := Option.some.inj (there.symm.trans same)
    obtain ⟨_, _, _, form, _, admitted⟩ := kind.elems_inv
    cases form
    exact below _ (List.mem_of_getElem? here) element rfl item (admitted item listed)

/-- In a compiled table every layout resolves in whatever has its shape. -/
theorem Table.resolves_of_admits {m : Model} {t : Table} (accepted : m.IsAccepted)
    (compiled : Table.compile m = .ok t) :
    ∀ l ∈ t.layouts, ∀ slots, l.Admits slots → l.Resolves slots := by
  intro l
  induction l using Layout.nesting with
  | step name message size fields ih =>
    intro listed slots shape
    have good := Table.isWellFormed_of_compile accepted compiled listed
    refine good.resolves ?_ shape
    intro f member element nested
    exact ih f member element nested (good.elements f member element nested).1

private theorem members_eq_of_counter? {run : Run ReadPart} (cut : run.IsCut fun part => part.field.isElementary)
    {part : ReadPart} (member : part ∈ run.members) {counter : Nat}
    (governed : part.field.counter? = some counter) : run.members = [part] := by
  cases run with
  | block first rest =>
    have dynamic := part.field.isDynamic_of_counter? governed
    have elementary : part.field.isElementary = true := cut part member
    rw [Field.not_dynamic_of_elementary elementary] at dynamic
    cases dynamic
  | single only =>
    have same : part = only := by simpa [Run.members] using member
    simp [Run.members, same]

/-- The slots read before a run are those of the fields before it, its counters among them. -/
theorem Layout.Sound.readsCountersFirst {l : Layout} (sound : l.Sound) : l.ReadsCountersFirst := by
  intro buf off k placed earlier pos here read part member counter governed
  have whole := flatMap_members_placedRuns ReadPart.field (readParts l.fields)
  have names : (readParts l.fields).map ReadPart.field = l.fields := by
    simp [readParts_eq_map, Function.comp_def]
  generalize runsEq : placedRuns ReadPart.field (readParts l.fields) = runs at here read whole
  have cut : ∀ p ∈ runs, p.run.IsCut fun part => part.field.isElementary := by
    intro p listed
    rw [← runsEq] at listed
    exact Run.isCut_of_mem_partition _ _ p.run (run_of_mem_place listed)
  have kinds : ∀ p ∈ runs, ∀ other ∈ p.run.members, other.Reads Field.Admits := by
    intro p listed other inside
    have known : other ∈ readParts l.fields := whole ▸ List.mem_flatMap.mpr ⟨p, listed, inside⟩
    rw [readParts_eq_map] at known
    obtain ⟨f, _, rfl⟩ := List.mem_map.mp known
    exact Field.admits_holdsOfReads.reads rfl
  obtain ⟨more, joined, shape⟩ := Field.admits_holdsOfReads.forall₂_of_readRuns
    (fun p listed => cut p (List.mem_of_mem_take listed))
    (fun p listed => kinds p (List.mem_of_mem_take listed)) read
  rw [List.nil_append] at joined
  subst joined
  have alone := members_eq_of_counter? (cut placed (List.mem_of_getElem? here)) member governed
  obtain ⟨inside, same⟩ := List.getElem?_eq_some_iff.mp here
  have fields : l.fields = ((runs.take k).flatMap fun p => p.run.members).map ReadPart.field ++
      part.field :: ((runs.drop (k + 1)).flatMap fun p => p.run.members).map ReadPart.field := by
    have split : runs = runs.take k ++ placed :: runs.drop (k + 1) := by
      rw [← same, List.getElem_cons_drop, List.take_append_drop]
    have parts := whole
    rw [split, List.flatMap_append, List.flatMap_cons, alone] at parts
    rw [← names, ← parts]
    simp
  have own : l.fields[(((runs.take k).flatMap fun p => p.run.members).map ReadPart.field).length]? =
      some part.field := by
    conv_lhs => rw [fields]
    simp
  obtain ⟨before, name, type, size, form, there, _⟩ := sound.countersPrecede _ _ _ own governed
  rw [fields, List.getElem?_append_left before] at there
  exact holdsInt_of_forall₂ shape there

end TradeWire
