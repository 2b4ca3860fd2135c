import TradeWire.Proofs.Settings.Written
import TradeWire.Settings.Toml.Selective
import TradeWire.Settings.Toml.Thorough

/-! Integers in decimal digits at the end of a line. -/

set_option autoImplicit false
set_option relaxedAutoImplicit false

namespace TradeWire.Toml

/-! ## The integer of some digits -/

private theorem hexDigit?_of_isDigit {c : Char} (digit : isDigit c = true) :
    Text.hexDigit? c = some (c.toNat - 48) := by
  unfold isDigit at digit
  simp [Text.hexDigit?, digit]

private theorem ofDigits_eq_ofDigitChars {ds : List Char} (digits : ∀ c ∈ ds, isDigit c = true) (value : Nat) :
    ds.foldl (fun value c => value * 10 + (Text.hexDigit? c).getD 0) value = Nat.ofDigitChars 10 ds value := by
  induction ds generalizing value with
  | nil => simp
  | cons c ds ih =>
    rw [List.foldl_cons, hexDigit?_of_isDigit (digits c (by simp)), ih fun d member => digits d (by simp [member]),
      Nat.ofDigitChars_cons]
    simp [Nat.mul_comm]

private theorem plainDigits_of_digits {ds : List Char} (some_digit : ds ≠ []) (digits : ∀ c ∈ ds, isDigit c = true) :
    plainDigits isDigit ds = some ds := by
  induction ds with
  | nil => exact absurd rfl some_digit
  | cons c ds ih =>
    cases ds with
    | nil => simp [plainDigits, digits c (by simp)]
    | cons d more =>
      have second : isDigit d = true := digits d (by simp)
      have others := ih (by simp) fun e member => digits e (by simp [member])
      have apart : d ≠ '_' := by
        rintro rfl
        revert second
        decide
      rw [plainDigits, others, digits c (by simp)]
      · rfl
      · simp
      · rintro tail same
        exact apart (List.cons.inj same).1

private theorem head?_toDigits {n : Nat} (positive : 0 < n) : (Nat.toDigits 10 n).head? ≠ some '0' := by
  induction n using Nat.strongRecOn with
  | ind n ih =>
    by_cases small : n < 10
    · have leads : ∀ k < 10, 0 < k → (Nat.toDigits 10 k).head? ≠ some '0' := by decide
      exact leads n small positive
    · rw [Nat.toDigits_of_base_le (by decide) (by omega), List.head?_append_of_ne_nil _ Nat.toDigits_ne_nil]
      exact ih (n / 10) (by omega) (by omega)

private theorem unsigned_toDigits (n : Nat) : unsigned (Nat.toDigits 10 n) = some (n : Int) := by
  have digits : ∀ c ∈ Nat.toDigits 10 n, isDigit c = true := fun _ member => isDigit_of_mem_toDigits member
  have plain := plainDigits_of_digits Nat.toDigits_ne_nil digits
  have leads : (Nat.toDigits 10 n).head? ≠ some '0' ∨ (Nat.toDigits 10 n).length ≤ 1 := by
    rcases Nat.eq_zero_or_pos n with rfl | positive
    · decide
    · exact .inl (head?_toDigits positive)
  have value : ofDigits 10 (Nat.toDigits 10 n) = n := by
    rw [ofDigits, ofDigits_eq_ofDigitChars digits, Nat.ofDigitChars_toDigits (by decide) (by decide)]
  simp [unsigned, decimalDigits, plain, leads, value]

private theorem integer?_of_digits {c : Char} {rest : List Char} (digit : isDigit c = true)
    (leads : c ≠ '0' ∨ rest = []) :
    integer? (c :: rest) = (unsigned (c :: rest)).filter Word.isSigned := by
  have marked {base : Char} {ds : List Char} : c :: rest ≠ '0' :: base :: ds := by
    intro same
    rcases leads with other | alone
    · exact other (List.cons.inj same).1
    · simp [alone] at same
  have leading {sign : Char} {ds : List Char} (undigit : isDigit sign = false) : c :: rest ≠ sign :: ds := by
    intro same
    rw [(List.cons.inj same).1, undigit] at digit
    cases digit
  unfold integer?
  split
  · exact absurd ‹_› marked
  · exact absurd ‹_› marked
  · exact absurd ‹_› marked
  · exact absurd ‹_› (leading (by decide))
  · exact absurd ‹_› (leading (by decide))
  · rfl

theorem integer_writeInteger {n : Int} (signed : Word.isSigned n = true) : integer? (writeInteger n) = some n := by
  have value := unsigned_toDigits n.natAbs
  unfold writeInteger
  split
  · rename_i negative
    have whole : -(n.natAbs : Int) = n := by omega
    simp only [integer?, value, Option.map_some, whole, Option.filter_some, signed, if_true]
  · rename_i natural
    have whole : (n.natAbs : Int) = n := by omega
    obtain ⟨c, rest, digits⟩ := List.exists_cons_of_ne_nil (Nat.toDigits_ne_nil (b := 10) (n := n.natAbs))
    have leads : c ≠ '0' ∨ rest = [] := by
      rcases Nat.eq_zero_or_pos n.natAbs with zero | positive
      · rw [zero] at digits
        exact .inr (List.cons.inj digits).2.symm
      · have other := head?_toDigits positive
        exact .inl (by simpa [digits] using other)
    rw [digits] at value ⊢
    rw [integer?_of_digits (isDigit_of_mem_toDigits (by rw [digits]; simp)) leads, value, whole]
    simp [signed]

/-! ## Where an integer ends -/

private theorem writeInteger_cases (n : Int) :
    ∃ ds, (∀ c ∈ ds, isDigit c = true) ∧ (writeInteger n = ds ∨ writeInteger n = '-' :: ds) := by
  refine ⟨Nat.toDigits 10 n.natAbs, fun _ member => isDigit_of_mem_toDigits member, ?_⟩
  unfold writeInteger
  split
  · exact .inr rfl
  · exact .inl rfl

private theorem mem_writeInteger {n : Int} {c : Char} (member : c ∈ writeInteger n) : c = '-' ∨ isDigit c = true := by
  obtain ⟨ds, digits, written | written⟩ := writeInteger_cases n
  · exact .inr (digits c (written ▸ member))
  · rw [written, List.mem_cons] at member
    exact member.imp_right (digits c)

private theorem takeWhile_writeInteger {p : Char → Bool} (sign : p '-' = true)
    (digit : ∀ c, isDigit c = true → p c = true)
    (ended : p '\n' = false) (n : Int) (rest : List Char) :
    (writeInteger n ++ '\n' :: rest).takeWhile p = writeInteger n ∧
      (writeInteger n ++ '\n' :: rest).dropWhile p = '\n' :: rest := by
  refine takeWhile_append_of_head ?_ (by simpa using ended)
  intro c member
  rcases mem_writeInteger member with rfl | inside
  · exact sign
  · exact digit c inside

private theorem dropWhile_writeInteger {n : Int} {rest : List Char}
    (first : (writeInteger n ++ '\n' :: rest).head?.any isDigit = true) :
    (writeInteger n ++ '\n' :: rest).dropWhile isDigit = '\n' :: rest := by
  obtain ⟨ds, digits, written | written⟩ := writeInteger_cases n
  · rw [written]
    exact (takeWhile_append_of_head digits (by simp; decide)).2
  · rw [written] at first
    cases first

theorem Thorough.readsIntegers : Thorough.dialect.ReadsIntegers := by
  intro n rest signed
  have whole := takeWhile_writeInteger (p := isValueChar) (by decide)
    (fun c digit => by simp [isValueChar, isBare, digit]) (by decide) n rest
  have number : isPlainWord (writeInteger n) = true := by
    simp [isPlainWord, integer_writeInteger signed]
  have undated : ((writeInteger n ++ '\n' :: rest).head?.any isDigit &&
      (((writeInteger n ++ '\n' :: rest).dropWhile isDigit).head? == some '-' ||
        ((writeInteger n ++ '\n' :: rest).dropWhile isDigit).head? == some ':')) = false := by
    by_cases first : (writeInteger n ++ '\n' :: rest).head?.any isDigit = true
    · simp [dropWhile_writeInteger first]
    · rw [Bool.and_eq_false_iff]
      exact .inl (Bool.eq_false_iff.mpr first)
  simp only [Thorough.dialect, thoroughWord, undated, Bool.false_eq_true, if_false, whole.1, whole.2, number, if_true]

private theorem ne_of_digits {n : Int} {rest tail : List Char} (front : List Char) {x : Char}
    (some_digit : front ≠ [])
    (digits : ∀ c ∈ front, isDigit c = true) (undigit : isDigit x = false) (other : x ≠ '\n') :
    writeInteger n ++ '\n' :: rest ≠ front ++ x :: tail := by
  intro same
  obtain ⟨c, cs, rfl⟩ := List.exists_cons_of_ne_nil some_digit
  have behind := dropWhile_writeInteger (n := n) (by rw [same]; simp [digits c (by simp)])
  rw [same, (takeWhile_append_of_head digits (by simpa using undigit)).2] at behind
  exact other (List.cons.inj behind).1

private theorem looseSpan_writeInteger (n : Int) (rest : List Char) :
    looseSpan (writeInteger n ++ '\n' :: rest) = numberSpan (writeInteger n ++ '\n' :: rest) := by
  obtain ⟨c, more, written, leads⟩ := exists_writeInteger n
  have front {other : Char} {tail : List Char} (apart : other ≠ '-') (undigit : isDigit other = false) :
      writeInteger n ++ '\n' :: rest ≠ other :: tail := by
    intro same
    rw [written, List.cons_append, List.cons.injEq] at same
    rcases leads with rfl | digit
    · exact apart same.1.symm
    · rw [same.1, undigit] at digit
      cases digit
  unfold looseSpan
  split
  · exact absurd ‹_› (front (by decide) (by decide))
  · exact absurd ‹_› (front (by decide) (by decide))
  · rename_i a b tail _ _ same
    refine if_neg fun digits => ?_
    exact ne_of_digits [a, b] (by simp) (by simpa using digits) (by decide) (by decide) same
  · rename_i a b c e tail _ _ _ same
    refine if_neg fun digits => ?_
    exact ne_of_digits [a, b, c, e] (by simp) (by simpa using digits) (by decide) (by decide) same
  · rfl

private theorem head?_writeInteger {n : Int} (other : n ≠ 0) : (writeInteger n).head? ≠ some '0' := by
  unfold writeInteger
  split
  · simp
  · exact head?_toDigits (Int.natAbs_pos.mpr other)

private theorem numberSpan_writeInteger (n : Int) (rest : List Char) :
    numberSpan (writeInteger n ++ '\n' :: rest) = some (writeInteger n) := by
  have whole := takeWhile_writeInteger (p := isLooseChar) (by decide)
    (fun c digit => by simp [isLooseChar, digit]) (by decide) n rest
  obtain ⟨c, more, written, -⟩ := exists_writeInteger n
  by_cases zero : n = 0
  · subst zero
    cases rest <;> rfl
  · have leads := head?_writeInteger zero
    have behind : (writeInteger n ++ '\n' :: rest).drop (writeInteger n).length = '\n' :: rest := List.drop_left
    unfold numberSpan
    rw [if_neg]
    · simp only [whole.1, behind, List.isEmpty_eq_false_iff.mpr (show writeInteger n ≠ [] by simp [written]),
        Bool.false_eq_true, if_false]
      rfl
    · split
      · rename_i same
        rw [written, List.cons_append] at same
        rw [written, (List.cons.inj same).1] at leads
        exact absurd rfl leads
      · simp

theorem Selective.readsIntegers : Selective.dialect.ReadsIntegers := by
  intro n rest signed
  have spanned : looseSpan (writeInteger n ++ '\n' :: rest) = some (writeInteger n) :=
    (looseSpan_writeInteger n rest).trans (numberSpan_writeInteger n rest)
  simp [Selective.dialect, looseWord, spanned]

end TradeWire.Toml
