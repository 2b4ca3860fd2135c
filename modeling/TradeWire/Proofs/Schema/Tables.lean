import TradeWire.Proofs.Data.Related
import TradeWire.Schema.Reader

/-! Each key stands in a table once, where it was put first, with the value put last. -/

set_option autoImplicit false
set_option relaxedAutoImplicit false

namespace TradeWire.Schema

variable {κ ν : Type} [BEq κ] [LawfulBEq κ] {key : κ} {value : ν} {table : List (κ × ν)}

theorem map_fst_put (key : κ) (value : ν) (table : List (κ × ν)) :
    (put key value table).map (·.1) =
      if key ∈ table.map (·.1) then table.map (·.1) else table.map (·.1) ++ [key] := by
  induction table with
  | nil => rfl
  | cons entry rest ih =>
    unfold put
    by_cases same : entry.1 = key
    · simp [same]
    · have other : ¬key = entry.1 := fun equal => same equal.symm
      simp only [beq_iff_eq, same, if_false, List.map_cons, ih, List.mem_cons, other, false_or]
      split
      · rfl
      · rfl

theorem mem_put (distinct : (table.map (·.1)).Nodup) {entry : κ × ν} (member : entry ∈ put key value table) :
    entry = (key, value) ∨ (entry ∈ table ∧ entry.1 ≠ key) := by
  induction table with
  | nil => exact .inl (List.mem_singleton.mp member)
  | cons first rest ih =>
    obtain ⟨fresh, distinct⟩ := List.nodup_cons.mp distinct
    unfold put at member
    by_cases same : first.1 = key
    · simp only [beq_iff_eq, same, if_true, List.mem_cons] at member
      rcases member with here | later
      · exact .inl here
      · refine .inr ⟨List.mem_cons_of_mem _ later, ?_⟩
        rintro rfl
        exact fresh (List.mem_map.mpr ⟨entry, later, same.symm⟩)
    · simp only [beq_iff_eq, same, if_false, List.mem_cons] at member
      rcases member with rfl | later
      · exact .inr ⟨List.mem_cons_self, same⟩
      · rcases ih distinct later with new | ⟨old, other⟩
        · exact .inl new
        · exact .inr ⟨List.mem_cons_of_mem _ old, other⟩

theorem nodup_put (distinct : (table.map (·.1)).Nodup) : ((put key value table).map (·.1)).Nodup := by
  rw [map_fst_put]
  split
  · exact distinct
  · rename_i fresh
    exact nodup_append_singleton distinct fresh

private theorem lookup_put_self (key : κ) (value : ν) (table : List (κ × ν)) :
    (put key value table).lookup key = some value := by
  induction table with
  | nil => exact List.lookup_cons_self
  | cons entry rest ih =>
    unfold put
    by_cases here : entry.1 = key
    · simp only [beq_iff_eq, here, if_true, List.lookup_cons_self]
    · simp only [beq_iff_eq, here, if_false]
      rw [lookup_cons_of_ne (Ne.symm here), ih]

private theorem lookup_put_of_ne {other : κ} (apart : other ≠ key) (value : ν) (table : List (κ × ν)) :
    (put key value table).lookup other = table.lookup other := by
  induction table with
  | nil => exact lookup_cons_of_ne apart
  | cons entry rest ih =>
    obtain ⟨known, old⟩ := entry
    unfold put
    by_cases here : known = key
    · subst here
      simp only [beq_self_eq_true, if_true, lookup_cons_of_ne apart]
    · simp only [beq_iff_eq, here, if_false, List.lookup_cons, ih]

def putAll (table : List (κ × ν)) (entries : List (κ × ν)) : List (κ × ν) :=
  entries.foldl (fun table entry => put entry.1 entry.2 table) table

theorem nodup_putAll (distinct : (table.map (·.1)).Nodup) (entries : List (κ × ν)) :
    ((putAll table entries).map (·.1)).Nodup := by
  induction entries generalizing table with
  | nil => exact distinct
  | cons entry rest ih => exact ih (nodup_put distinct)

/-- What is found is the last that was put, or else what was there before. -/
theorem lookup_putAll (table entries : List (κ × ν)) (key : κ) :
    (putAll table entries).lookup key = (entries.reverse.lookup key).or (table.lookup key) := by
  induction entries generalizing table with
  | nil => rfl
  | cons entry rest ih =>
    obtain ⟨other, value⟩ := entry
    have step : putAll table ((other, value) :: rest) = putAll (put other value table) rest := rfl
    rw [step, ih, List.reverse_cons, List.lookup_append, Option.or_assoc]
    by_cases same : key = other
    · subst same
      rw [lookup_put_self, List.lookup_cons_self, Option.some_or]
    · rw [lookup_put_of_ne same, lookup_cons_of_ne same, List.lookup_nil, Option.none_or]

/-- In a table that has each key once, an entry is what its key finds. -/
theorem mem_iff_lookup_eq_some (distinct : (table.map (·.1)).Nodup) :
    (key, value) ∈ table ↔ table.lookup key = some value := by
  induction table with
  | nil => simp
  | cons entry rest ih =>
    obtain ⟨other, old⟩ := entry
    obtain ⟨fresh, distinct⟩ := List.nodup_cons.mp distinct
    by_cases same : key = other
    · subst same
      have gone : (key, value) ∉ rest := fun later => fresh (List.mem_map.mpr ⟨_, later, rfl⟩)
      simp [gone, eq_comm]
    · rw [lookup_cons_of_ne same, ← ih distinct]
      simp [same]

end TradeWire.Schema
