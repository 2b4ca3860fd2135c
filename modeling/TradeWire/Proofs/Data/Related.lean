import Mathlib.Data.List.DropRight
import Mathlib.Data.List.Forall2

/-! Lists related element by element, and what computations and searches along a list find. -/

set_option autoImplicit false
set_option relaxedAutoImplicit false

namespace TradeWire

theorem forall₂_getElem? {α β : Type} {R : α → β → Prop} {as : List α} {bs : List β}
    (related : List.Forall₂ R as bs) {i : Nat} {a : α} (here : as[i]? = some a) :
    ∃ b, bs[i]? = some b ∧ R a b := by
  induction related generalizing i with
  | nil => simp at here
  | @cons x y xs ys first rest ih =>
    cases i with
    | zero =>
      simp only [List.getElem?_cons_zero, Option.some.injEq] at here
      exact ⟨y, by simp, here ▸ first⟩
    | succ i =>
      obtain ⟨b, there, holds⟩ := ih (by simpa using here)
      exact ⟨b, by simpa using there, holds⟩

theorem exists_of_forall₂_right {α β : Type} {R : α → β → Prop} {as : List α} {bs : List β}
    (related : List.Forall₂ R as bs) {b : β} (member : b ∈ bs) : ∃ a ∈ as, R a b := by
  obtain ⟨i, here⟩ := List.mem_iff_getElem?.mp member
  obtain ⟨a, there, holds⟩ := forall₂_getElem? related.flip here
  exact ⟨a, List.mem_of_getElem? there, holds⟩

theorem forall₂_modify {α β : Type} {R : α → β → Prop} {as : List α} {bs : List β} {change : β → β}
    (related : List.Forall₂ R as bs) {i : Nat}
    (good : ∀ a b, as[i]? = some a → bs[i]? = some b → R a b → R a (change b)) :
    List.Forall₂ R as (bs.modify i change) := by
  induction related generalizing i with
  | nil => simp
  | @cons x y xs ys first rest ih =>
    cases i with
    | zero => simpa using ⟨good x y (by simp) (by simp) first, rest⟩
    | succ i =>
      simp only [List.modify_succ_cons, List.forall₂_cons]
      refine ⟨first, ih ?_⟩
      intro a b here there holds
      exact good a b (by simpa using here) (by simpa using there) holds

theorem forall_mem_modify {β : Type} {P : β → Prop} {l : List β} {change : β → β} {n : Nat}
    (all : ∀ b ∈ l, P b) (good : ∀ b, l[n]? = some b → P (change b)) :
    ∀ b ∈ l.modify n change, P b := by
  intro b member
  obtain ⟨i, here⟩ := List.mem_iff_getElem?.mp member
  rw [List.getElem?_modify] at here
  obtain ⟨c, there, changed⟩ := Option.map_eq_some_iff.mp here
  by_cases same : n = i
  · subst same
    simp only [if_true] at changed
    exact changed ▸ good c there
  · simp only [same, if_false] at changed
    exact changed ▸ all c (List.mem_of_getElem? there)

/-- What holds of all members of a list goes on to do so just when it holds of the member that is changed. -/
theorem forall_mem_modify_iff {β : Type} {P : β → Prop} {l : List β} {change : β → β} {n : Nat} {b : β}
    (all : ∀ b ∈ l, P b) (there : l[n]? = some b) : (∀ b ∈ l.modify n change, P b) ↔ P (change b) := by
  constructor
  · intro changed
    exact changed _ (List.mem_of_getElem? (i := n) (by simp [there]))
  · intro good
    refine forall_mem_modify all ?_
    intro c also
    obtain rfl : b = c := Option.some.inj (there.symm.trans also)
    exact good

theorem forall₂_map_of_mem {α β : Type} {R : α → β → Prop} {g : α → β} {l : List α}
    (all : ∀ a ∈ l, R a (g a)) : List.Forall₂ R l (l.map g) := by
  induction l with
  | nil => simp
  | cons a rest ih =>
    simp only [List.map_cons, List.forall₂_cons]
    exact ⟨all a (by simp), ih fun b later => all b (by simp [later])⟩

theorem map_eq_of_forall₂ {α β γ : Type} {R : α → β → Prop} {as : List α} {bs : List β} {g : α → γ}
    {h : β → γ} (related : List.Forall₂ R as bs) (same : ∀ a b, R a b → h b = g a) :
    bs.map h = as.map g := by
  induction related with
  | nil => rfl
  | @cons a b as bs here rest ih => simp [same a b here, ih]

theorem forall₂_trans {α β γ : Type} {R : α → β → Prop} {S : β → γ → Prop} {T : α → γ → Prop}
    {as : List α} {bs : List β} {cs : List γ} (compose : ∀ a b c, R a b → S b c → T a c)
    (first : List.Forall₂ R as bs) (second : List.Forall₂ S bs cs) : List.Forall₂ T as cs := by
  induction first generalizing cs with
  | nil =>
    cases second
    exact .nil
  | cons here _ ih =>
    cases second with
    | cons there rest => exact .cons (compose _ _ _ here there) (ih rest)

theorem nodup_append_singleton {α : Type} {names : List α} {name : α} (distinct : names.Nodup)
    (fresh : name ∉ names) : (names ++ [name]).Nodup := by
  refine List.nodup_append.mpr ⟨distinct, by simp, ?_⟩
  intro a known b last same
  rw [List.mem_singleton] at last
  exact fresh (last ▸ same ▸ known)

theorem nodup_map_append_singleton {α β : Type} {name : α → β} {items : List α} {item : α}
    (distinct : (items.map name).Nodup) (fresh : ∀ other ∈ items, name other ≠ name item) :
    ((items ++ [item]).map name).Nodup := by
  rw [List.map_append]
  refine nodup_append_singleton distinct ?_
  intro known
  obtain ⟨other, inside, same⟩ := List.mem_map.mp known
  exact fresh other inside same

theorem lookup_cons_of_ne {κ ν : Type} [BEq κ] [LawfulBEq κ] {key other : κ} {value : ν} {table : List (κ × ν)}
    (apart : other ≠ key) : ((key, value) :: table).lookup other = table.lookup other := by
  rw [List.lookup_cons, beq_eq_false_iff_ne.mpr apart]

/-- Nothing is found in a table under a key that none of its entries has. -/
theorem lookup_of_not_mem {κ ν : Type} [BEq κ] [LawfulBEq κ] {table : List (κ × ν)} {key : κ}
    (unknown : key ∉ table.map (·.1)) : table.lookup key = none := by
  rw [List.lookup_eq_none_iff]
  intro entry member
  rw [bne_iff_ne]
  rintro rfl
  exact unknown (List.mem_map_of_mem member)

/-- An item that stands in a list or among the children of one in it, at whatever depth. -/
inductive OccursIn {α : Type} (children : α → List α) (item : α) : List α → Prop where
  | here {items : List α} (member : item ∈ items) : OccursIn children item items
  | under {items : List α} (outer : α) (member : outer ∈ items)
      (inside : OccursIn children item (children outer)) : OccursIn children item items

theorem occursIn_iff {α : Type} {children : α → List α} {item : α} {items : List α} :
    OccursIn children item items ↔ ∃ outer ∈ items, item = outer ∨ OccursIn children item (children outer) := by
  constructor
  · rintro (⟨member⟩ | ⟨outer, member, inside⟩)
    · exact ⟨item, member, .inl rfl⟩
    · exact ⟨outer, member, .inr inside⟩
  · rintro ⟨outer, member, rfl | inside⟩
    · exact .here member
    · exact .under outer member inside

/-- A list is what is left when one element is dropped from its end, and that element as often as it was. -/
theorem exists_rdropWhile_append_replicate {α : Type} [BEq α] [LawfulBEq α] (a : α) (items : List α) :
    ∃ n, items = items.rdropWhile (· == a) ++ List.replicate n a := by
  refine ⟨(items.rtakeWhile (· == a)).length, ?_⟩
  have same : items.rtakeWhile (· == a) = List.replicate (items.rtakeWhile (· == a)).length a := by
    apply List.eq_replicate_of_mem
    intro item member
    exact beq_iff_eq.mp (List.mem_rtakeWhile_imp (p := (· == a)) member)
  rw [← same, List.rdropWhile_append_rtakeWhile]

/-- What is taken from the front of a list stops where the elements of a kind do. -/
theorem takeWhile_append_of_head {α : Type} {p : α → Bool} {front rest : List α}
    (inside : ∀ a ∈ front, p a = true) (apart : ∀ a ∈ rest.head?, p a = false) :
    (front ++ rest).takeWhile p = front ∧ (front ++ rest).dropWhile p = rest := by
  rw [List.takeWhile_append_of_pos inside, List.dropWhile_append_of_pos inside]
  cases rest with
  | nil => simp
  | cons a more => simp [apart a rfl]

theorem find?_reverse_of_unique {α : Type} {p : α → Bool} {items : List α}
    (unique : ∀ a ∈ items, ∀ b ∈ items, p a = true → p b = true → a = b) :
    items.reverse.find? p = items.find? p := by
  have found : ∀ others : List α, (∀ a ∈ others, a ∈ items) →
      ∀ a ∈ others, p a = true → others.find? p = some a := by
    intro others within a member holds
    obtain ⟨b, first⟩ := Option.isSome_iff_exists.mp (List.find?_isSome.mpr ⟨a, member, holds⟩)
    rw [first, unique b (within b (List.mem_of_find?_eq_some first)) a (within a member) (List.find?_some first) holds]
  cases first : items.find? p with
  | none =>
    rw [List.find?_eq_none] at first ⊢
    exact fun a member => first a (List.mem_reverse.mp member)
  | some a =>
    exact found items.reverse (fun b member => List.mem_reverse.mp member) a
      (List.mem_reverse.mpr (List.mem_of_find?_eq_some first)) (List.find?_some first)

/-- Lists that are put together have no fewer elements than there are lists, if none of them is empty. -/
theorem length_le_flatMap {α β : Type} {g : α → List β} (filled : ∀ a, g a ≠ []) (items : List α) :
    items.length ≤ (items.flatMap g).length := by
  induction items with
  | nil => exact Nat.le_refl _
  | cons a items ih =>
    have first := List.length_pos_iff.mpr (filled a)
    simp only [List.flatMap_cons, List.length_append, List.length_cons]
    omega

theorem bind_eq_ok {ε α β : Type} {x : Except ε α} {g : α → Except ε β} {b : β} :
    (x >>= g) = .ok b ↔ ∃ a, x = .ok a ∧ g a = .ok b := by
  cases x with
  | error fault => simp [bind, Except.bind]
  | ok a => simp [bind, Except.bind]

theorem map_eq_ok {ε α β : Type} {g : α → β} {x : Except ε α} {b : β} :
    x.map g = .ok b ↔ ∃ a, x = .ok a ∧ g a = b := by
  cases x with
  | error fault => simp [Except.map]
  | ok a => simp [Except.map]

theorem map_eq_error {ε α β : Type} {g : α → β} {x : Except ε α} {fault : ε} :
    x.map g = .error fault ↔ x = .error fault := by
  cases x with
  | error other => simp [Except.map]
  | ok a => simp [Except.map]

theorem toOption_eq_some {ε α : Type} {x : Except ε α} {a : α} : x.toOption = some a ↔ x = .ok a := by
  cases x with
  | error fault => simp [Except.toOption]
  | ok value => simp [Except.toOption]

def fault? {ε α : Type} : Except ε α → Option ε
  | .error fault => some fault
  | .ok _ => none

theorem fault?_eq_some {ε α : Type} {x : Except ε α} {fault : ε} :
    fault? x = some fault ↔ x = .error fault := by
  cases x with
  | error other => simp [fault?]
  | ok value => simp [fault?]

theorem forall₂_of_mapM {ε α β : Type} {g : α → Except ε β} {l : List α} {out : List β}
    (done : l.mapM g = .ok out) : List.Forall₂ (fun a b => g a = .ok b) l out := by
  induction l generalizing out with
  | nil =>
    cases done
    exact .nil
  | cons a rest ih =>
    rw [List.mapM_cons] at done
    obtain ⟨b, here, more⟩ := bind_eq_ok.mp done
    obtain ⟨bs, there, last⟩ := bind_eq_ok.mp more
    cases last
    exact .cons here (ih there)

end TradeWire
