import Mathlib.Data.List.Nodup
import TradeWire.Proofs.Layout.Runs
import TradeWire.Proofs.Layout.Soundness

/-! Well-formed layouts: their runs, names, counters, elements and headers. -/

set_option autoImplicit false
set_option relaxedAutoImplicit false

namespace TradeWire

open Schema

/-- The field at a position is an integer of this name. -/
def Layout.HasIntAt (l : Layout) (i : Nat) (name : String) : Prop :=
  ∃ type size form, l.fields[i]? = some (.primitive name type size (.int form))

/-- What holds of every structure of a table. -/
structure Layout.IsWellFormed (t : Table) (l : Layout) : Prop where
  /-- The runs hold each position once, in order. -/
  members : (l.runs.flatMap fun placed => placed.run.members.map (·.2)) = List.range l.fields.length
  /-- No two neighbouring runs are elementary. -/
  maximal : ∀ k a b, l.runs[k]? = some a → l.runs[k + 1]? = some b →
    ¬(a.run.head.1.isElementary = true ∧ b.run.head.1.isElementary = true)
  lookup : ∀ name i, l.lookup? name = some i ↔
    ∃ f, l.fields[i]? = some f ∧ f.isPad = false ∧ f.name = name
  widths : ∀ name type size form, Field.primitive name type size (.int form) ∈ l.fields →
    size = 1 ∨ size = 2 ∨ size = 4 ∨ size = 8
  counters : ∀ i f, l.fields[i]? = some f → f.isDynamic = true →
    ∃ counter, f.counter? = some counter ∧ counter < i ∧ IsCounterAt l.fields counter
  elements : ∀ f ∈ l.fields, ∀ element, f.element? = some element →
    element ∈ t.layouts ∧ t.layout? element.name = some element ∧ element.isMessage = false ∧
      element.size.isStatic = true ∧ element.IsConstant
  /-- The header of a message is a nested field at a known place. -/
  header : ∀ info, l.message = some info → ∃ name header,
    l.fields[info.header.field]? = some (.nested name .once header) ∧
      (l.fieldOffset? info.header.field).isSome = true ∧
        header.HasIntAt info.header.bodyLen "BodyLen" ∧
          header.HasIntAt info.header.templateId "TemplateID"

private theorem map_run_place {α : Type} (field : α → Field) (start : Option Int) (runs : List (Run α)) :
    (Run.place field start runs).map (·.run) = runs := by
  induction runs generalizing start with
  | nil => rfl
  | cons run rest ih => simp [Run.place, ih]

namespace Layout

private theorem flatMap_positions_runs (l : Layout) :
    (l.runs.flatMap fun placed => placed.run.members.map (·.2)) = List.range l.fields.length := by
  have members := flatMap_members_placedRuns Prod.fst l.fields.zipIdx
  have positions := congrArg (List.map Prod.snd) members
  rw [List.map_flatMap, List.zipIdx_map_snd] at positions
  rw [List.range_eq_range']
  exact positions

private theorem runs_maximal (l : Layout) (k : Nat) (a b : PlacedRun (Field × Nat)) (here : l.runs[k]? = some a)
    (next : l.runs[k + 1]? = some b) :
    ¬(a.run.head.1.isElementary = true ∧ b.run.head.1.isElementary = true) := by
  have cut := map_run_place Prod.fst (some 0)
    (Run.partition (fun member : Field × Nat => member.1.isElementary) l.fields.zipIdx)
  refine Run.partition_no_adjacent_blocks (fun member : Field × Nat => member.1.isElementary)
    l.fields.zipIdx k a.run b.run ?_ ?_
  · rw [← cut, List.getElem?_map]
    exact congrArg (Option.map _) here
  · rw [← cut, List.getElem?_map]
    exact congrArg (Option.map _) next

theorem lookup?_eq_some {l : Layout} {name : String} {i : Nat} (found : l.lookup? name = some i) :
    ∃ f, l.fields[i]? = some f ∧ f.isPad = false ∧ f.name = name := by
  obtain ⟨inside, holds, _⟩ := List.findIdx?_eq_some_iff_getElem.mp found
  simp only [Bool.and_eq_true, Bool.not_eq_true', beq_iff_eq] at holds
  exact ⟨l.fields[i], List.getElem?_eq_getElem inside, holds⟩

private theorem lookup?_iff {l : Layout} (distinct : (l.fields.map Field.name).Nodup) (name : String) (i : Nat) :
    l.lookup? name = some i ↔ ∃ f, l.fields[i]? = some f ∧ f.isPad = false ∧ f.name = name := by
  refine ⟨lookup?_eq_some, ?_⟩
  rintro ⟨f, here, solid, named⟩
  have some_found : (l.lookup? name).isSome = true := by
    simp only [lookup?, List.findIdx?_isSome, List.any_eq_true]
    exact ⟨f, List.mem_of_getElem? here, by simp [solid, named]⟩
  obtain ⟨j, found⟩ := Option.isSome_iff_exists.mp some_found
  obtain ⟨g, there, _, same⟩ := lookup?_eq_some found
  have position : j = i := by
    have first : (l.fields.map Field.name)[j]? = some name := by simp [there, same]
    have second : (l.fields.map Field.name)[i]? = some name := by simp [here, named]
    have inside : j < (l.fields.map Field.name).length := (List.getElem?_eq_some_iff.mp first).1
    exact (List.getElem?_inj inside distinct).mp (first.trans second.symm)
  rw [found, position]

private theorem hasIntAt_of_lookup? {l : Layout} {name : String} {i : Nat} (found : l.lookup? name = some i)
    (integer : ((l.fields[i]?).bind (·.intForm?)).isSome = true) : l.HasIntAt i name := by
  obtain ⟨f, here, _, named⟩ := lookup?_eq_some found
  simp only [here, Option.bind_some] at integer
  match f, integer with
  | .primitive fieldName type size (.int form), _ =>
    obtain rfl : fieldName = name := named
    exact ⟨type, size, form, here⟩

private theorem linkHeader_eq_ok {l : Layout} {link : HeaderLink} (linked : linkHeader l = .ok link) :
    ∃ name header, l.fields[link.field]? = some (.nested name .once header) ∧
      (l.fieldOffset? link.field).isSome = true ∧
        header.HasIntAt link.bodyLen "BodyLen" ∧ header.HasIntAt link.templateId "TemplateID" := by
  unfold linkHeader at linked
  simp only at linked
  split at linked
  · cases linked
  · rename_i i found
    obtain ⟨inside, heads, _⟩ := List.findIdx?_eq_some_iff_getElem.mp found
    split at linked
    · cases linked
    · rename_i placed
      split at linked
      · rename_i bodyLen templateId bodyLenFound templateIdFound
        split at linked
        · rename_i integers
          cases linked
          simp only [Bool.and_eq_true] at integers
          have here : l.fields[i]? = some l.fields[i] := List.getElem?_eq_getElem inside
          -- only a nested structure heads a message
          cases shape : l.fields[i] with
          | primitive name type size kind => simp [shape] at heads
          | nested name repetition element =>
            cases repetition with
            | array | group => simp [shape] at heads
            | once =>
              rw [shape] at here
              simp only [here, Option.bind_some, Field.element?, Option.getD_some]
                at bodyLenFound templateIdFound integers
              exact ⟨name, element, here, Option.isSome_iff_ne_none.mpr (by simpa using placed),
                hasIntAt_of_lookup? bodyLenFound integers.1,
                hasIntAt_of_lookup? templateIdFound integers.2⟩
        · cases linked
      · cases linked

end Layout

theorem find?_of_nodup {α : Type} {l : List α} {key : α → String} {a : α} (distinct : (l.map key).Nodup)
    (listed : a ∈ l) : l.find? (fun b => key b == key a) = some a := by
  cases found : l.find? (fun b => key b == key a) with
  | none =>
    have clash := List.find?_eq_none.mp found a listed
    simp at clash
  | some b =>
    have same : key b = key a := by simpa using List.find?_some found
    rw [List.inj_on_of_nodup_map distinct (List.mem_of_find?_eq_some found) listed same]

theorem Table.isWellFormed_of_compile {m : Model} {t : Table} (accepted : m.IsAccepted)
    (compiled : Table.compile m = .ok t) {l : Layout} (listed : l ∈ t.layouts) : l.IsWellFormed t := by
  have layouts := Table.sound_of_compile accepted compiled
  obtain ⟨_, sizes, sound⟩ := Table.isSound_of_compile compiled
  obtain ⟨s, stems⟩ := sound.stems l listed
  have whole := layouts l listed
  have entry := Model.entry_of_sizes sizes stems.found
  have names : l.fields.map Field.name = s.members.map (·.name) :=
    map_eq_of_forall₂ stems.fields.related fun _ _ field => field.name_eq
  have distinct : (l.fields.map Field.name).Nodup :=
    names ▸ accepted.members s (List.mem_of_find?_eq_some stems.found)
  refine ⟨l.flatMap_positions_runs, l.runs_maximal, l.lookup?_iff distinct, ?_, ?_, ?_, ?_⟩
  · intro name type size form member
    obtain ⟨source, _, field⟩ := stems.fields.of_mem member
    cases field with
    | primitive known once suits =>
      have allowed := accepted.widths _ (List.mem_of_find?_eq_some known) suits.1
      simpa [integerWidths] using allowed
  · intro i f here dynamic
    obtain ⟨counter, governed⟩ := f.counter?_of_isDynamic dynamic
    exact ⟨counter, governed, stems.fields.counters i f counter here governed⟩
  · intro f member element nested
    obtain ⟨source, owned, field⟩ := stems.fields.of_mem member
    cases field with
    | primitive known once suits => cases nested
    | @nested element repetition other present named static suits =>
      cases nested
      obtain ⟨sub, below⟩ := sound.stems element present
      have component := ((entry.covers source owned).2 sub (named ▸ below.found)).1
      refine ⟨present, find?_of_nodup sound.distinct present, ?_, static,
        (layouts element present).isConstant static⟩
      rcases below.message with ⟨none, _⟩ | ⟨_, _, message, _⟩
      · simp [Layout.isMessage, none]
      · rw [component] at message
        cases message
  · intro info message
    rcases stems.message with ⟨none, _⟩ | ⟨link, some, _, linked⟩
    · rw [none] at message
      cases message
    · rw [some] at message
      cases message
      exact Layout.linkHeader_eq_ok linked

end TradeWire
