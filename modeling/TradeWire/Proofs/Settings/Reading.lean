import TradeWire.Proofs.Settings.Numerals

/-! Documents that name each key once, read by either reader. -/

set_option autoImplicit false
set_option relaxedAutoImplicit false

namespace TradeWire.Toml

def entriesOf (lines : List (String × Plain)) : Entries := lines.map fun line => (line.1, .value line.2.value)

/-- Lines that can be written: keys without quotes, each of them once, and integers of 64 bits. -/
structure AreWritable (lines : List (String × Plain)) : Prop where
  bare : ∀ line ∈ lines, IsBareKey line.1
  signed : ∀ line ∈ lines, line.2.IsSigned
  distinct : (lines.map (·.1)).Nodup

namespace Selective

private theorem enter_of_fresh {used : Used} {key : String} (fresh : used.lookup [key] = none) :
    used.enter [key] = some (([key], .value) :: used) := by
  have top : parents [key] = [] := rfl
  simp [Used.enter, top, fresh]

private theorem areConsistent_texts (items : List String) : areConsistent (items.map .text) = true := by
  induction items with
  | nil => rw [List.map_nil, areConsistent]
  | cons s items ih => simp [areConsistent, isConsistent, ih]

private theorem isConsistent_plain (v : Plain) : isConsistent v.value = true := by
  cases v with
  | text s => simp [Plain.value, isConsistent]
  | integer n => simp [Plain.value, isConsistent]
  | texts items => simp [Plain.value, isConsistent, areConsistent_texts]

private theorem step_of_fresh (isWanted : String → Bool) (entries : Entries) {used : Used} {key : String} (v : Plain)
    (fresh : used.lookup [key] = none) :
    Progress.step isWanted ⟨entries, used, .top⟩ (.entry [key] v.value) =
      some ⟨entries ++ [(key, .value v.value)], ([key], .value) :: used, .top⟩ := by
  simp [Progress.step, enter_of_fresh fresh, isConsistent_plain]

private theorem steps_of_fresh (isWanted : String → Bool) {lines : List (String × Plain)}
    (distinct : (lines.map (·.1)).Nodup) (entries : Entries) {used : Used}
    (fresh : ∀ line ∈ lines, used.lookup [line.1] = none) :
    ∃ after, (lines.map fun line => Expression.entry [line.1] line.2.value).foldlM (Progress.step isWanted)
      ⟨entries, used, .top⟩ = some ⟨entries ++ entriesOf lines, after, .top⟩ := by
  induction lines generalizing entries used with
  | nil => exact ⟨used, by simp [entriesOf]⟩
  | cons line lines ih =>
    obtain ⟨key, v⟩ := line
    simp only [List.map_cons, List.nodup_cons] at distinct
    have others : ∀ line ∈ lines, List.lookup [line.1] (([key], Use.value) :: used) = none := by
      intro line member
      have apart : [line.1] ≠ [key] := fun same =>
        distinct.1 (List.mem_map.mpr ⟨line, member, (List.cons.inj same).1⟩)
      rw [List.lookup_cons, beq_eq_false_iff_ne.mpr apart]
      exact fresh line (List.mem_cons_of_mem _ member)
    obtain ⟨after, done⟩ := ih distinct.2 (entries ++ [(key, .value v.value)]) others
    refine ⟨after, ?_⟩
    have first := step_of_fresh isWanted entries v (fresh _ List.mem_cons_self)
    simp only [List.map_cons, List.foldlM_cons, first, Option.bind_eq_bind, Option.bind_some, done]
    simp [entriesOf]

theorem parse_written (isWanted : String → Bool) {lines : List (String × Plain)} (writable : AreWritable lines) :
    parse isWanted (writeDocument lines) = some (entriesOf lines) := by
  obtain ⟨after, done⟩ := steps_of_fresh isWanted writable.distinct [] (fun _ _ => List.lookup_nil)
  simp [parse, document_written readsIntegers writable.bare writable.signed, done]

end Selective

namespace Thorough

namespace Tree

private theorem descendAll_texts (context : Path) (name : String) (t : Tree) (items : List String) :
    descendAll context name t (items.map .text) = some t := by
  induction items with
  | nil => rw [List.map_nil, descendAll]
  | cons s items ih => simp [descendAll, descend, ih]

private theorem exists_descend (context : Path) (name : String) (inList : Bool) (t : Tree) (v : Plain) :
    ∃ after, descend context name inList t v.value = some after ∧ after.nodes = t.nodes := by
  cases v with
  | text s => exact ⟨t, by simp [Plain.value, descend], rfl⟩
  | integer n => exact ⟨t, by simp [Plain.value, descend], rfl⟩
  | texts items =>
    exact ⟨t.noteKind (kindPath context name) true, by rw [Plain.value, descend, descendAll_texts], rfl⟩

/-- The nodes of a tree that holds the values of some lines and nothing else. -/
def Holds (t : Tree) (lines : List (String × Plain)) : Prop :=
  t.nodes = lines.map fun line => ([line.1], .value line.2.value)

private theorem lookup_of_fresh {t : Tree} {lines : List (String × Plain)} {key : String} (holds : t.Holds lines)
    (fresh : key ∉ lines.map (·.1)) : t.nodes.lookup [key] = none := by
  apply lookup_of_not_mem
  rw [holds, List.map_map]
  intro known
  obtain ⟨line, inside, same⟩ := List.mem_map.mp known
  exact fresh (List.mem_map.mpr ⟨line, inside, (List.cons.inj same).1⟩)

private theorem holds_put {t : Tree} {lines : List (String × Plain)} {key : String} (v : Plain)
    (holds : t.Holds lines)
    (fresh : key ∉ lines.map (·.1)) : (t.put [key] (.value v.value)).Holds (lines ++ [(key, v)]) := by
  have others : (t.nodes.filter fun node => node.1 != [key] && !isBelow [key] node.1) = t.nodes := by
    rw [holds, List.filter_eq_self]
    intro node member
    obtain ⟨line, inside, rfl⟩ := List.mem_map.mp member
    have apart : line.1 ≠ key := fun same => fresh (List.mem_map.mpr ⟨line, inside, same⟩)
    simp [isBelow, apart]
  have placed : (t.put [key] (.value v.value)).nodes = t.nodes ++ [([key], .value v.value)] :=
    congrArg (· ++ [([key], Node.value v.value)]) others
  rw [Holds, placed, holds, List.map_append, List.map_singleton]

private theorem assignValue_plain {t : Tree} {lines : List (String × Plain)} {key : String} (v : Plain)
    (holds : t.Holds lines) (fresh : key ∉ lines.map (·.1)) :
    t.assignValue [] key v.value = some (t.put [key] (.value v.value)) := by
  have unused := lookup_of_fresh holds fresh
  have top : parents [key] = [] := rfl
  cases v <;> simp [Plain.value, assignValue, assign, top, unused]

private theorem exists_enterAll {t : Tree} {lines : List (String × Plain)} {key : String} (v : Plain)
    (holds : t.Holds lines)
    (fresh : key ∉ lines.map (·.1)) :
    ∃ after, t.enterAll [] [([key], v.value)] = some after ∧ after.Holds (lines ++ [(key, v)]) := by
  obtain ⟨inner, inside, same⟩ := exists_descend [] key false t v
  have kept : inner.Holds lines := same.trans holds
  refine ⟨(inner.put [key] (.value v.value)).noteKind (kindPath [] key) (isList v.value), ?_, holds_put v kept fresh⟩
  simp [enterAll, openParts, inside, assignValue_plain v kept fresh]

end Tree

private theorem exists_step {t : Tree} {lines : List (String × Plain)} {key : String} (v : Plain)
    (holds : t.Holds lines)
    (fresh : key ∉ lines.map (·.1)) :
    ∃ after, Progress.step ⟨t, []⟩ (.entry [key] v.value) = some ⟨after, []⟩ ∧ after.Holds (lines ++ [(key, v)]) := by
  obtain ⟨after, entered, held⟩ := t.exists_enterAll v holds fresh
  exact ⟨after, by simp [Progress.step, entered], held⟩

private theorem exists_steps {done lines : List (String × Plain)} {t : Tree} (holds : t.Holds done)
    (distinct : ((done ++ lines).map (·.1)).Nodup) :
    ∃ after, (lines.map fun line => Expression.entry [line.1] line.2.value).foldlM Progress.step ⟨t, []⟩ =
      some ⟨after, []⟩ ∧ after.Holds (done ++ lines) := by
  induction lines generalizing done t with
  | nil => exact ⟨t, rfl, by simpa using holds⟩
  | cons line lines ih =>
    obtain ⟨key, v⟩ := line
    have fresh : key ∉ done.map (·.1) := by
      intro known
      rw [List.map_append] at distinct
      exact (List.nodup_append.mp distinct).2.2 key known key (by simp) rfl
    obtain ⟨next, taken, held⟩ := exists_step v holds fresh
    obtain ⟨after, steps, whole⟩ := ih held (by simpa using distinct)
    refine ⟨after, ?_, by simpa using whole⟩
    simp only [List.map_cons, List.foldlM_cons, taken, Option.bind_eq_bind, Option.bind_some, steps]

theorem parse_written {lines : List (String × Plain)} (writable : AreWritable lines) :
    parse (writeDocument lines) = some (entriesOf lines) := by
  have empty : Tree.empty.Holds [] := rfl
  obtain ⟨after, steps, holds⟩ := exists_steps empty (by simpa using writable.distinct)
  simp only [parse, document_written readsIntegers writable.bare writable.signed, Option.bind_eq_bind,
    Option.bind_some, steps]
  rw [holds, List.nil_append, List.filterMap_map]
  exact congrArg some (congrFun List.filterMap_eq_map' lines)

end Thorough

end TradeWire.Toml
