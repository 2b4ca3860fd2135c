import Mathlib.Data.List.Sort
import TradeWire.Schema.Reader

/-! Sorting by insertion keeps the items, and those of equal keys in their order. -/

set_option autoImplicit false
set_option relaxedAutoImplicit false

namespace TradeWire.Schema

variable {α : Type} {mayPrecede : α → α → Bool}

private theorem insertBy_eq_orderedInsert (item : α) (items : List α) :
    insertBy mayPrecede item items = items.orderedInsert (fun a b => mayPrecede a b = true) item := by
  induction items with
  | nil => rfl
  | cons first rest ih => simp only [insertBy, List.orderedInsert_cons, ih]

private theorem sortBy_eq_insertionSort (items : List α) :
    sortBy mayPrecede items = items.insertionSort fun a b => mayPrecede a b = true := by
  induction items with
  | nil => rfl
  | cons item rest ih =>
    rw [List.insertionSort_cons, ← ih, ← insertBy_eq_orderedInsert]
    rfl

theorem perm_sortBy (mayPrecede : α → α → Bool) (items : List α) : (sortBy mayPrecede items).Perm items := by
  rw [sortBy_eq_insertionSort]
  exact List.perm_insertionSort _ items

private theorem pairwise_sortBy (total : ∀ a b, mayPrecede a b = true ∨ mayPrecede b a = true)
    (transitive : ∀ a b c, mayPrecede a b = true → mayPrecede b c = true → mayPrecede a c = true)
    (items : List α) : (sortBy mayPrecede items).Pairwise fun a b => mayPrecede a b = true := by
  have : Std.Total fun a b => mayPrecede a b = true := ⟨total⟩
  have : IsTrans α fun a b => mayPrecede a b = true := ⟨transitive⟩
  rw [sortBy_eq_insertionSort]
  exact List.pairwise_insertionSort _ items

private theorem filter_sortBy (total : ∀ a b, mayPrecede a b = true ∨ mayPrecede b a = true)
    (transitive : ∀ a b c, mayPrecede a b = true → mayPrecede b c = true → mayPrecede a c = true)
    {keep : α → Bool} (alike : ∀ a b, keep a = true → keep b = true → mayPrecede a b = true)
    (items : List α) : (sortBy mayPrecede items).filter keep = items.filter keep := by
  have : Std.Total fun a b => mayPrecede a b = true := ⟨total⟩
  have : IsTrans α fun a b => mayPrecede a b = true := ⟨transitive⟩
  -- what is kept is sorted as it stands, so that sorting leaves it in order; and nothing is lost
  have ordered : (items.filter keep).Pairwise fun a b => mayPrecede a b = true := by
    refine List.pairwise_of_forall_mem_list ?_
    intro a first b second
    exact alike a b (List.mem_filter.mp first).2 (List.mem_filter.mp second).2
  have inside : (items.filter keep).Sublist (sortBy mayPrecede items) := by
    rw [sortBy_eq_insertionSort]
    exact List.sublist_insertionSort ordered List.filter_sublist
  have kept : (items.filter keep).Sublist ((sortBy mayPrecede items).filter keep) := by
    simpa using inside.filter keep
  have length : (items.filter keep).length = ((sortBy mayPrecede items).filter keep).length :=
    ((perm_sortBy mayPrecede items).filter keep).length_eq.symm
  exact (kept.eq_of_length length).symm

/-- A list is sorted by a key: it has the items of the other list by ascending keys, and those of one key in
the order they had there. -/
structure IsStableSort {κ : Type} [LE κ] [DecidableEq κ] (key : α → κ) (items sorted : List α) : Prop where
  perm : sorted.Perm items
  ascending : sorted.Pairwise fun a b => key a ≤ key b
  stable : ∀ k, sorted.filter (key · = k) = items.filter (key · = k)

theorem isStableSort_sortBy {κ : Type} [LE κ] [DecidableEq κ] [Std.IsLinearOrder κ] {key : α → κ}
    (decides : ∀ a b, mayPrecede a b = true ↔ key a ≤ key b) (items : List α) :
    IsStableSort key items (sortBy mayPrecede items) := by
  have total : ∀ a b, mayPrecede a b = true ∨ mayPrecede b a = true := by
    intro a b
    simpa only [decides] using Std.le_total
  have transitive : ∀ a b c, mayPrecede a b = true → mayPrecede b c = true → mayPrecede a c = true := by
    intro a b c
    simpa only [decides] using Std.le_trans
  refine ⟨perm_sortBy mayPrecede items, ?_, ?_⟩
  · exact (pairwise_sortBy total transitive items).imp fun ordered => (decides _ _).mp ordered
  · intro k
    refine filter_sortBy total transitive ?_ items
    intro a b first second
    rw [decides, of_decide_eq_true first, of_decide_eq_true second]
    exact Std.le_refl k

theorem IsStableSort.congr {κ : Type} [LE κ] [DecidableEq κ] {key other : α → κ} {items sorted : List α}
    (same : ∀ a ∈ items, key a = other a) (stable : IsStableSort key items sorted) :
    IsStableSort other items sorted := by
  have also : ∀ a ∈ sorted, key a = other a := by
    intro a member
    exact same a (stable.perm.mem_iff.mp member)
  refine ⟨stable.perm, ?_, ?_⟩
  · refine stable.ascending.imp_of_mem ?_
    intro a b first second ordered
    rwa [← also a first, ← also b second]
  · intro k
    have left := List.filter_congr fun a member => congrArg (fun x => decide (x = k)) (also a member)
    have right := List.filter_congr fun a member => congrArg (fun x => decide (x = k)) (same a member)
    rw [← left, ← right]
    exact stable.stable k

end TradeWire.Schema
