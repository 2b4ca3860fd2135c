import TradeWire.Text.Pattern

/-! What patterns match: a front of the text, and a whole run of characters where one class is repeated. -/

set_option autoImplicit false
set_option relaxedAutoImplicit false

namespace TradeWire.Pattern

private theorem suffix_of_mem_repeated {step : List Char → List (List Char)}
    (suffix : ∀ cs rest, rest ∈ step cs → rest <:+ cs) {fuel : Nat} {cs rest : List Char}
    (member : rest ∈ repeated step fuel cs) : rest <:+ cs := by
  induction fuel generalizing cs with
  | zero =>
    obtain rfl : rest = cs := by simpa [repeated] using member
    exact List.suffix_refl rest
  | succ fuel ih =>
    rw [repeated, List.mem_append, List.mem_singleton, List.mem_flatMap] at member
    rcases member with ⟨left, kept, more⟩ | rfl
    · exact (ih more).trans (suffix cs left (List.mem_filter.mp kept).1)
    · exact List.suffix_refl rest

private theorem suffix_of_mem_rests {p : Pattern} {cs rest : List Char} (member : rest ∈ p.rests cs) :
    rest <:+ cs := by
  induction p generalizing cs rest with
  | nothing =>
    obtain rfl : rest = cs := by simpa [rests] using member
    exact List.suffix_refl rest
  | one holds =>
    cases cs with
    | nil => cases member
    | cons c more =>
      rw [rests] at member
      split at member
      · obtain rfl : rest = more := by simpa using member
        exact List.suffix_cons c rest
      · cases member
  | seq p q first second =>
    rw [rests, List.mem_flatMap] at member
    obtain ⟨left, kept, more⟩ := member
    exact (second more).trans (first kept)
  | either p q first second =>
    rw [rests, List.mem_append] at member
    rcases member with left | right
    · exact first left
    · exact second right
  | many p step => exact suffix_of_mem_repeated (fun _ _ member => step member) member

theorem first_eq_some {p : Pattern} {cs text rest : List Char} :
    p.first cs = Option.some (text, rest) ↔ (p.rests cs).head? = Option.some rest ∧ cs = text ++ rest := by
  rw [first, Option.map_eq_some_iff]
  constructor
  · rintro ⟨left, head, same⟩
    obtain ⟨rfl, rfl⟩ := Prod.mk.inj same
    obtain ⟨taken, rfl⟩ := suffix_of_mem_rests (List.mem_of_head? head)
    refine ⟨head, ?_⟩
    rw [List.length_append, Nat.add_sub_cancel, List.take_left]
  · rintro ⟨head, rfl⟩
    refine ⟨rest, head, ?_⟩
    rw [List.length_append, Nat.add_sub_cancel, List.take_left]

theorem first_eq_none {p : Pattern} {cs : List Char} : p.first cs = none ↔ p.rests cs = [] := by
  rw [first, Option.map_eq_none_iff, List.head?_eq_none_iff]

/-! ## Single characters and runs of them -/

theorem rests_one_cons (holds : Char → Bool) (c : Char) (cs : List Char) :
    (one holds).rests (c :: cs) = if holds c then [cs] else [] := rfl

theorem rests_seq_one (holds : Char → Bool) (q : Pattern) (c : Char) (cs : List Char) :
    (seq (one holds) q).rests (c :: cs) = if holds c then q.rests cs else [] := by
  rw [rests, rests_one_cons]
  split
  · exact List.flatMap_singleton ..
  · rfl

theorem head?_rests_many_one (holds : Char → Bool) (cs : List Char) :
    ((many (one holds)).rests cs).head? = Option.some (cs.dropWhile holds) := by
  rw [rests]
  -- one turn takes one character, and there are turns for all of them
  suffices ∀ fuel, cs.length ≤ fuel →
      (repeated (one holds).rests fuel cs).head? = Option.some (cs.dropWhile holds) from this _ (Nat.le_refl _)
  induction cs with
  | nil =>
    intro fuel _
    cases fuel <;> rfl
  | cons c cs ih =>
    intro fuel enough
    cases fuel with
    | zero => cases enough
    | succ fuel =>
      have next := ih fuel (Nat.le_of_succ_le_succ enough)
      rw [repeated, rests_one_cons]
      by_cases inside : holds c = true
      · simp [inside, next]
      · simp [inside]

theorem forall_of_mem_rests_many_one {holds : Char → Bool} {cs rest : List Char}
    (member : rest ∈ (many (one holds)).rests cs) : ∃ text, cs = text ++ rest ∧ ∀ c ∈ text, holds c = true := by
  rw [rests] at member
  generalize cs.length = fuel at member
  induction fuel generalizing cs with
  | zero =>
    obtain rfl : rest = cs := by simpa [repeated] using member
    exact ⟨[], rfl, by simp⟩
  | succ fuel ih =>
    rw [repeated, List.mem_append, List.mem_singleton, List.mem_flatMap] at member
    rcases member with ⟨left, kept, more⟩ | rfl
    · cases cs with
      | nil => cases kept
      | cons c cs =>
        have one := (List.mem_filter.mp kept).1
        rw [rests_one_cons] at one
        split at one
        · rename_i inside
          obtain rfl : left = cs := by simpa using one
          obtain ⟨text, rfl, all⟩ := ih more
          exact ⟨c :: text, rfl, List.forall_mem_cons.mpr ⟨inside, all⟩⟩
        · cases one
    · exact ⟨[], rfl, by simp⟩

theorem forall_of_mem_rests_some_one {holds : Char → Bool} {cs rest : List Char}
    (member : rest ∈ (Pattern.some (one holds)).rests cs) :
    ∃ text, text ≠ [] ∧ cs = text ++ rest ∧ ∀ c ∈ text, holds c = true := by
  cases cs with
  | nil => cases member
  | cons c cs =>
    rw [Pattern.some, rests_seq_one] at member
    split at member
    · rename_i inside
      obtain ⟨text, rfl, all⟩ := forall_of_mem_rests_many_one member
      exact ⟨c :: text, List.cons_ne_nil _ _, rfl, List.forall_mem_cons.mpr ⟨inside, all⟩⟩
    · cases member

/-- A class that is to occur takes every character of the class that follows. -/
theorem head?_rests_some_one (holds : Char → Bool) {c : Char} {cs : List Char} (inside : holds c = true) :
    ((Pattern.some (one holds)).rests (c :: cs)).head? = Option.some ((c :: cs).dropWhile holds) := by
  rw [Pattern.some, rests_seq_one, if_pos inside, head?_rests_many_one, List.dropWhile_cons, if_pos inside]

theorem rests_some_one_of_head {holds : Char → Bool} {cs : List Char} (outside : ∀ c ∈ cs.head?, holds c = false) :
    (Pattern.some (one holds)).rests cs = [] := by
  cases cs with
  | nil => rfl
  | cons c cs => rw [Pattern.some, rests_seq_one, if_neg (by simp [outside c rfl])]

end TradeWire.Pattern
