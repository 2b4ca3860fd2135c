import Mathlib.Data.List.TakeWhile
import TradeWire.Proofs.Layout.WellFormed
import TradeWire.Proofs.Record.Reachable
import TradeWire.Session.Outgoing

/-! A name without dot and bracket is the path of the field it names. -/

set_option autoImplicit false
set_option relaxedAutoImplicit false

namespace TradeWire

namespace Record

/-- A name that stands for itself in a path. -/
def IsPlain (name : String) : Prop := ∀ c ∈ name.toList, c ≠ '.' ∧ c ≠ '['

instance (name : String) : Decidable (IsPlain name) :=
  List.decidableBAll (fun c => c ≠ '.' ∧ c ≠ '[') name.toList

private theorem splitDots_ne_nil (chars : List Char) : splitDots chars ≠ [] := by
  cases chars with
  | nil => simp [splitDots]
  | cons c rest =>
    simp only [splitDots]
    split
    · simp
    · split <;> simp

theorem splitDots_dot (front rest : List Char) :
    splitDots (front ++ '.' :: rest) = splitDots front ++ splitDots rest := by
  induction front with
  | nil => rfl
  | cons c more ih =>
    simp only [List.cons_append, splitDots, ih]
    split
    · rfl
    · cases parts : splitDots more with
      | nil => exact absurd parts (splitDots_ne_nil more)
      | cons part others => rfl

theorem splitDots_of_undotted {part : List Char} (undotted : '.' ∉ part) : splitDots part = [part] := by
  induction part with
  | nil => rfl
  | cons c rest ih =>
    obtain ⟨solid, others⟩ := not_or.mp (List.mem_cons.not.mp undotted)
    simp [splitDots, Ne.symm solid, ih others]

theorem splitDots_of_plain {part : List Char} (plain : ∀ c ∈ part, c ≠ '.' ∧ c ≠ '[') :
    splitDots part = [part] :=
  splitDots_of_undotted fun member => (plain '.' member).1 rfl

private theorem splitDots_append {part : List Char} (plain : ∀ c ∈ part, c ≠ '.' ∧ c ≠ '[') (rest : List Char) :
    splitDots (part ++ '.' :: rest) = part :: splitDots rest := by
  rw [splitDots_dot, splitDots_of_plain plain, List.singleton_append]

theorem parseSegment_of_plain {name : String} (plain : IsPlain name) :
    parseSegment name.toList = some ⟨name, none⟩ := by
  have unindexed : name.toList.dropWhile (· != '[') = [] := by
    refine List.dropWhile_eq_nil_iff.mpr ?_
    intro c member
    simpa using (plain c member).2
  simp [parseSegment, unindexed]

private theorem resolve_of_plain (r : Record) {name : String} (plain : IsPlain name) :
    r.resolve name =
      match r.layout.lookup? name with
      | none => .error (.unknownField r.layout.name name)
      | some i => .ok ⟨[], i⟩ := by
  rw [resolve, splitDots_of_plain plain, resolveParts, parseSegment_of_plain plain]
  cases found : r.layout.lookup? name with
  | none => simp [found]
  | some i => simp [found]

theorem locate_of_lookup? {r : Record} {name : String} {i : Nat} {f : Field} {s : Slot} (plain : IsPlain name)
    (found : r.layout.lookup? name = some i) (here : r.layout.fields[i]? = some f)
    (there : r.slots[i]? = some s) : r.locate name = .ok (⟨[], i⟩, f, s) := by
  simp [locate, resolve_of_plain r plain, found, at?, follow, here, there]

theorem place_of_plain {r : Record} {name : String} {place : Location} {f : Field} {s : Slot}
    (plain : IsPlain name) (located : r.locate name = .ok (place, f, s)) :
    ∃ i, place = ⟨[], i⟩ ∧ r.layout.fields[i]? = some f := by
  have there := at?_of_locate located
  unfold locate at located
  rw [resolve_of_plain r plain] at located
  cases found : r.layout.lookup? name with
  | none =>
    rw [found] at located
    cases located
  | some i =>
    rw [found] at located
    simp only at located
    split at located
    · cases located
      refine ⟨i, rfl, ?_⟩
      simp only [at?, follow, Option.bind_some] at there
      split at there
      · rename_i here _
        cases there
        exact here
      · cases there
    · cases located

theorem resolve_sessionPath {r : Record} {header name : String} {i : Nat} {element : Layout} {inner : List Slot}
    (plain : IsPlain header) (plainField : IsPlain name) (found : r.layout.lookup? header = some i)
    (nested : r.layout.fields[i]? = some (.nested header .once element))
    (held : r.slots[i]? = some (.struct inner)) :
    r.resolve (sessionPath header name) =
      match element.lookup? name with
      | none => .error (.unknownField element.name (sessionPath header name))
      | some j => .ok ⟨[⟨i, none⟩], j⟩ := by
  have parts : splitDots (sessionPath header name).toList = [header.toList, name.toList] := by
    have chars : (sessionPath header name).toList = header.toList ++ '.' :: name.toList := by
      simp [sessionPath]
    rw [chars, splitDots_append plain, splitDots_of_plain plainField]
  cases named : element.lookup? name with
  | none | some j =>
    simp [resolve, parts, resolveParts, parseSegment_of_plain plain, parseSegment_of_plain plainField,
      found, nested, held, named, Except.map, Location.below]

theorem locate_sessionPath {r : Record} {header name : String} {i j : Nat} {element : Layout} {inner : List Slot}
    {f : Field} {s : Slot} (plain : IsPlain header) (plainField : IsPlain name)
    (found : r.layout.lookup? header = some i)
    (nested : r.layout.fields[i]? = some (.nested header .once element))
    (held : r.slots[i]? = some (.struct inner)) (named : element.lookup? name = some j)
    (here : element.fields[j]? = some f) (there : inner[j]? = some s) :
    r.locate (sessionPath header name) = .ok (⟨[⟨i, none⟩], j⟩, f, s) := by
  simp [locate, resolve_sessionPath plain plainField found nested held, named, at?, follow, nested, held,
    here, there]

/-- A change that leaves the structures, arrays and groups of a record alone. -/
structure LeavesStructures (r next : Record) : Prop where
  layout : next.layout = r.layout
  reachable : ∀ l, Reachable l r → Reachable l next
  structures : ∀ (i : Nat) (name : String) (repetition : Repetition) (element : Layout),
    r.layout.fields[i]? = some (.nested name repetition element) → next.slots[i]? = r.slots[i]?

private theorem LeavesStructures.refl (r : Record) : LeavesStructures r r :=
  ⟨rfl, fun _ reached => reached, fun _ _ _ _ _ => rfl⟩

private theorem LeavesStructures.trans {r mid next : Record} (first : LeavesStructures r mid)
    (second : LeavesStructures mid next) : LeavesStructures r next := by
  refine ⟨second.layout.trans first.layout, fun l reached => second.reachable l (first.reachable l reached), ?_⟩
  intro i name repetition element nested
  rw [second.structures i name repetition element (first.layout ▸ nested)]
  exact first.structures i name repetition element nested

private theorem leavesStructures_modify {r : Record} {name : String} {place : Location} {f : Field} {s : Slot}
    {change : Slot → Slot} (plain : IsPlain name) (located : r.locate name = .ok (place, f, s))
    (flat : f.element? = none) (changed : Change r (r.modify place change)) :
    LeavesStructures r (r.modify place change) := by
  refine ⟨rfl, fun l reached => .change reached changed, ?_⟩
  intro k other repetition element nested
  obtain ⟨i, rfl, here⟩ := place_of_plain plain located
  have apart : i ≠ k := by
    rintro rfl
    rw [Option.some.inj (here.symm.trans nested)] at flat
    cases flat
  simp [modify, modifySlots, apart]

section Setters

variable {r next : Record} {name : String}

private theorem leavesStructures_setInteger (plain : IsPlain name) (sets : SetsInteger r name next)
    (changed : Change r next) : LeavesStructures r next := by
  obtain ⟨located, _⟩ := sets
  obtain ⟨field, type, found⟩ := locate_of_locateInt located
  exact leavesStructures_modify plain found rfl changed

private theorem leavesStructures_setUint {raw : UInt64} (plain : IsPlain name)
    (set : r.setUint name raw = .ok next) : LeavesStructures r next :=
  leavesStructures_setInteger plain (setsInteger_of_setUint set) (.setUint set)

private theorem leavesStructures_setInt {value : Int} (plain : IsPlain name)
    (set : r.setInt name value = .ok next) : LeavesStructures r next :=
  leavesStructures_setInteger plain (setsInteger_of_setInt set) (.setInt set)

theorem leavesStructures_setEnum {symbol : String} (plain : IsPlain name)
    (set : r.setEnum name symbol = .ok next) : LeavesStructures r next :=
  leavesStructures_setInteger plain (setsInteger_of_setEnum set) (.setEnum set)

theorem leavesStructures_setBytes {data : Bytes} (plain : IsPlain name)
    (set : r.setBytes name data = .ok next) : LeavesStructures r next := by
  have changed := Change.setBytes set
  obtain ⟨place, s, located, rfl⟩ := setBytes_eq_ok set
  obtain ⟨f, found, flat, _⟩ := locate_of_locateBytes located
  exact leavesStructures_modify plain found flat changed

end Setters

private theorem leavesStructures_putValue {r : Record} {f : Field} (plain : IsPlain f.name) (slot : Slot) :
    LeavesStructures r (r.putValue f slot) := by
  unfold putValue
  simp only
  split
  · rename_i next set
    split at set
    · split at set
      · exact leavesStructures_setInt plain set
      · exact leavesStructures_setUint plain set
    · exact leavesStructures_setBytes plain set
  · exact .refl r

theorem leavesStructures_echo {r : Record} (plain : ∀ f ∈ r.layout.fields, IsPlain f.name)
    (source : Record) : LeavesStructures r (r.echo source) := by
  unfold echo
  refine List.foldlRecOn (motive := LeavesStructures r) _ _ (.refl r) ?_
  intro soFar leaves f member
  refine leaves.trans ?_
  split
  · split
    · exact leavesStructures_putValue (plain f member) _
    · exact .refl soFar
  · exact .refl soFar

end Record

/-- The fields of a compiled table have plain names if the members that were declared have. -/
theorem Table.isPlain_of_compile {m : Model} {t : Table} (compiled : Table.compile m = .ok t)
    (plain : ∀ s ∈ m.structures, ∀ member ∈ s.members, Record.IsPlain member.name) {l : Layout}
    (listed : l ∈ t.layouts) : ∀ f ∈ l.fields, Record.IsPlain f.name := by
  intro f inside
  obtain ⟨_, _, sound⟩ := Table.isSound_of_compile compiled
  obtain ⟨source, stems⟩ := sound.stems l listed
  obtain ⟨member, known, related⟩ := stems.fields.of_mem inside
  rw [related.name_eq]
  exact plain source (List.mem_of_find?_eq_some stems.found) member known

end TradeWire
