import TradeWire.Flow.Condition
import TradeWire.Proofs.Data.Related
import TradeWire.Proofs.Number.Literals
import TradeWire.Proofs.Text.Patterns

/-! What stands in front of a text by the rules of the lexer: names, integers, commas and blanks. -/

set_option autoImplicit false
set_option relaxedAutoImplicit false

namespace TradeWire.Condition

def IsName (cs : List Char) : Prop :=
  ∃ c rest, cs = c :: rest ∧ startsName c = true ∧ ∀ d ∈ rest, continuesName d = true

/-- The integer that is written by a literal of a condition: digits, maybe behind a minus sign, or hexadecimal
digits behind their mark. -/
inductive WritesInteger : List Char → Int → Prop
  | decimal {ds : List Char} (some_digit : ds ≠ []) (digits : ∀ c ∈ ds, isDigit c = true) :
      WritesInteger ds (Literal.numberOf 10 ds)
  | negative {ds : List Char} (some_digit : ds ≠ []) (digits : ∀ c ∈ ds, isDigit c = true) :
      WritesInteger ('-' :: ds) (-(Literal.numberOf 10 ds : Int))
  | hexadecimal {x : Char} {ds : List Char} (mark : x = 'x' ∨ x = 'X') (some_digit : ds ≠ [])
      (digits : ∀ c ∈ ds, Text.isHexDigit c = true) : WritesInteger ('0' :: x :: ds) (Literal.numberOf 16 ds)

/-- Whether an integer goes on with a character behind it. -/
def continuesNumber (c : Char) : Bool := Text.isHexDigit c || c == 'x' || c == 'X'

/-- Whether a token goes on with a character behind it. -/
def Token.continues (t : Token) (c : Char) : Bool :=
  match t.kind with
  | .name => continuesName c
  | .number => continuesNumber c
  | .text | .comma | .blank => false

/-- The tokens that stand for themselves. -/
inductive Token.IsBare : Token → Prop
  | name {v : String} (name : IsName v.toList) : IsBare ⟨.name, v⟩
  | number {v : String} {n : Int} (writes : WritesInteger v.toList n) : IsBare ⟨.number, v⟩
  | comma : IsBare ⟨.comma, ","⟩

/-! ## Classes of characters -/

private theorem isHexDigit_of_isDigit {c : Char} (digit : isDigit c = true) : Text.isHexDigit c = true := by
  unfold isDigit at digit
  simp [Text.isHexDigit, Text.hexDigit?, digit]

theorem startsName_of_isDigit {c : Char} (digit : isDigit c = true) : startsName c = false := by
  simp only [isDigit, Bool.and_eq_true, decide_eq_true_eq, Char.le_def] at digit
  have most : c.toNat ≤ 57 := digit.2
  have low : ¬('a' ≤ c) ∧ ¬('A' ≤ c) ∧ c ≠ '_' := by
    refine ⟨?_, ?_, ?_⟩
    · intro letter
      have least : 97 ≤ c.toNat := letter
      omega
    · intro letter
      have least : 65 ≤ c.toNat := letter
      omega
    · rintro rfl
      exact absurd most (by decide)
  simp [startsName, low.1, low.2.1, low.2.2]

private theorem ne_of_continuesNumber {c : Char} (other : continuesNumber c = false) :
    isDigit c = false ∧ Text.isHexDigit c = false ∧ c ≠ 'x' ∧ c ≠ 'X' := by
  simp only [continuesNumber, Bool.or_eq_false_iff, beq_eq_false_iff_ne] at other
  refine ⟨?_, other.1.1, other.1.2, other.2⟩
  by_contra digit
  rw [isHexDigit_of_isDigit (Bool.not_eq_false _ ▸ digit)] at other
  exact absurd other.1.1 (by decide)

private theorem unmarked_of_isDigit {c : Char} (digit : isDigit c = true) : c ≠ 'x' ∧ c ≠ 'X' := by
  constructor
  · rintro rfl
    exact absurd digit (by decide)
  · rintro rfl
    exact absurd digit (by decide)

private theorem solid_of_class {p : Char → Bool} {c : Char} (holds : p c = true)
    (never : [' ', '\t', '\r', '\n', '"', '\''].all (!p ·) = true) :
    isSpace c = false ∧ c ≠ '"' ∧ c ≠ '\'' := by
  have apart : ∀ d ∈ [' ', '\t', '\r', '\n', '"', '\''], c ≠ d := by
    rintro d member rfl
    have outside := List.all_eq_true.mp never c member
    rw [holds] at outside
    cases outside
  simp only [List.forall_mem_cons] at apart
  obtain ⟨blank, tab, back, line, double, single, _⟩ := apart
  exact ⟨by simp [isSpace, blank, tab, back, line], double, single⟩

/-- The first character of a token that stands for itself is neither a blank nor a quote. -/
theorem Token.IsBare.head {t : Token} (bare : t.IsBare) :
    ∃ c more, t.text.toList = c :: more ∧ isSpace c = false ∧ c ≠ '"' ∧ c ≠ '\'' := by
  cases bare with
  | name name =>
    obtain ⟨c, more, chars, letter, _⟩ := name
    exact ⟨c, more, chars, solid_of_class letter (by decide)⟩
  | @number v n writes =>
    simp only
    generalize v.toList = cs at writes
    cases writes with
    | decimal some_digit digits =>
      obtain ⟨c, more, rfl⟩ := List.exists_cons_of_ne_nil some_digit
      exact ⟨c, more, rfl, solid_of_class (digits c List.mem_cons_self) (by decide)⟩
    | negative => exact ⟨_, _, rfl, by decide⟩
    | hexadecimal => exact ⟨_, _, rfl, by decide⟩
  | comma => exact ⟨',', [], rfl, by decide⟩

theorem isSpace_cases {c : Char} (blank : isSpace c = true) : c = ' ' ∨ c = '\t' ∨ c = '\r' ∨ c = '\n' := by
  simpa [isSpace, or_assoc] using blank

/-! ## Rules -/

private theorem front_eq_some {cs text rest : List Char} {kind : TokenKind}
    (found : front cs = some (kind, text, rest)) :
    ∃ p, (kind, p) ∈ rules ∧ p.first cs = some (text, rest) := by
  obtain ⟨⟨k, p⟩, member, first⟩ := List.exists_of_findSome?_eq_some found
  obtain ⟨⟨t, r⟩, matched, same⟩ := Option.map_eq_some_iff.mp first
  cases same
  exact ⟨p, member, matched⟩

private theorem rests_quoted_of_ne {quote c : Char} (other : c ≠ quote) (cs : List Char) :
    (quoted quote).rests (c :: cs) = [] := by
  rw [quoted, Pattern.rests_seq_one, if_neg (by simpa using other)]

private theorem first_text_of_ne {c : Char} (double : c ≠ '"') (single : c ≠ '\'') (cs : List Char) :
    (Pattern.either (quoted '"') (quoted '\'')).first (c :: cs) = none := by
  rw [Pattern.first_eq_none, Pattern.rests, rests_quoted_of_ne double, rests_quoted_of_ne single,
    List.append_nil]

private theorem rests_hexNumber_of_ne {c : Char} (other : c ≠ '0') (cs : List Char) :
    hexNumber.rests (c :: cs) = [] := by
  rw [hexNumber, Pattern.rests_seq_one, if_neg (by simpa using other)]

private theorem rests_hexNumber_of_head {c : Char} {cs : List Char} (unmarked : ∀ x ∈ cs.head?, x ≠ 'x' ∧ x ≠ 'X') :
    hexNumber.rests (c :: cs) = [] := by
  rw [hexNumber, Pattern.rests_seq_one]
  split
  · cases cs with
    | nil => rfl
    | cons x more => rw [Pattern.rests_seq_one, if_neg (by simpa using unmarked x rfl)]
  · rfl

private theorem rests_decimalNumber (c : Char) (cs : List Char) : decimalNumber.rests (c :: cs) =
    (if c = '-' then (Pattern.some (.one isDigit)).rests cs else []) ++
      (Pattern.some (.one isDigit)).rests (c :: cs) := by
  rw [decimalNumber, Pattern.rests, Pattern.optional, Pattern.rests, Pattern.rests_one_cons, Pattern.rests,
    List.flatMap_append]
  simp only [beq_iff_eq, List.flatMap_cons, List.flatMap_nil, List.append_nil]
  split
  · simp only [List.flatMap_cons, List.flatMap_nil, List.append_nil]
  · rfl

private theorem first_number_of_head {c : Char} (undigit : isDigit c = false) (unsigned : c ≠ '-') (cs : List Char) :
    (Pattern.either hexNumber decimalNumber).first (c :: cs) = none := by
  have nonzero : c ≠ '0' := by
    rintro rfl
    exact absurd undigit (by decide)
  have none : (Pattern.some (.one isDigit)).rests (c :: cs) = [] :=
    Pattern.rests_some_one_of_head (by simpa using undigit)
  rw [Pattern.first_eq_none, Pattern.rests, rests_hexNumber_of_ne nonzero, rests_decimalNumber, if_neg unsigned,
    none]
  rfl

private theorem head?_rests_digits {holds : Char → Bool} {ds rest : List Char} (some_digit : ds ≠ [])
    (digits : ∀ c ∈ ds, holds c = true) (apart : ∀ c ∈ rest.head?, holds c = false) :
    ((Pattern.some (.one holds)).rests (ds ++ rest)).head? = some rest := by
  obtain ⟨d, more, rfl⟩ := List.exists_cons_of_ne_nil some_digit
  rw [List.cons_append, Pattern.head?_rests_some_one holds (digits d List.mem_cons_self), ← List.cons_append,
    (takeWhile_append_of_head digits apart).2]

private theorem first_number_append {cs rest : List Char} {n : Int} (writes : WritesInteger cs n)
    (apart : ∀ c ∈ rest.head?, continuesNumber c = false) :
    (Pattern.either hexNumber decimalNumber).first (cs ++ rest) = some (cs, rest) := by
  have undigit : ∀ c ∈ rest.head?, isDigit c = false := fun c first => (ne_of_continuesNumber (apart c first)).1
  rw [Pattern.first_eq_some, Pattern.rests]
  refine ⟨?_, rfl⟩
  cases writes with
  | decimal some_digit digits =>
    have whole := head?_rests_digits some_digit digits undigit
    obtain ⟨d, ds, rfl⟩ := List.exists_cons_of_ne_nil some_digit
    have unmarked : ∀ x ∈ (ds ++ rest).head?, x ≠ 'x' ∧ x ≠ 'X' := by
      intro x first
      cases ds with
      | nil => exact (ne_of_continuesNumber (apart x first)).2.2
      | cons e more =>
        obtain rfl : e = x := Option.some.inj first
        exact unmarked_of_isDigit (digits e (by simp))
    have unsigned : d ≠ '-' := by
      rintro rfl
      exact absurd (digits '-' List.mem_cons_self) (by decide)
    rw [List.cons_append] at whole ⊢
    rw [rests_hexNumber_of_head unmarked, rests_decimalNumber, if_neg unsigned]
    exact whole
  | @negative ds some_digit digits =>
    have whole := head?_rests_digits some_digit digits undigit
    rw [List.cons_append, rests_hexNumber_of_ne (by decide), rests_decimalNumber, if_pos rfl, List.nil_append,
      List.head?_append, whole]
    rfl
  | @hexadecimal x ds mark some_digit digits =>
    have unhex : ∀ c ∈ rest.head?, Text.isHexDigit c = false :=
      fun c first => (ne_of_continuesNumber (apart c first)).2.1
    have whole := head?_rests_digits some_digit digits unhex
    rw [List.cons_append, List.cons_append, hexNumber, Pattern.rests_seq_one, if_pos (beq_self_eq_true '0'),
      Pattern.rests_seq_one, if_pos (by simpa using mark), List.head?_append, whole]
    rfl

theorem front_append {t : Token} (bare : t.IsBare) {rest : List Char}
    (apart : ∀ c ∈ rest.head?, t.continues c = false) :
    front (t.text.toList ++ rest) = some (t.kind, t.text.toList, rest) := by
  obtain ⟨c, more, chars, -, double, single⟩ := bare.head
  have untexted : (Pattern.either (quoted '"') (quoted '\'')).first (t.text.toList ++ rest) = none := by
    rw [chars, List.cons_append]
    exact first_text_of_ne double single _
  cases bare with
  | @name v name =>
    obtain ⟨d, ds, letters, letter, inside⟩ := name
    have uncounted : (Pattern.either hexNumber decimalNumber).first (v.toList ++ rest) = none := by
      rw [letters, List.cons_append]
      refine first_number_of_head ?_ ?_ _
      · by_contra digit
        rw [startsName_of_isDigit (Bool.not_eq_false _ ▸ digit)] at letter
        cases letter
      · rintro rfl
        exact absurd letter (by decide)
    have named : (Pattern.seq (.one startsName) (.many (.one continuesName))).first (v.toList ++ rest) =
        some (v.toList, rest) := by
      rw [Pattern.first_eq_some, letters, List.cons_append, Pattern.rests_seq_one, if_pos letter,
        Pattern.head?_rests_many_one, (takeWhile_append_of_head inside apart).2]
      exact ⟨rfl, rfl⟩
    simp only [front, rules, List.findSome?_cons, untexted, uncounted, named, Option.map_none, Option.map_some]
  | @number v n writes =>
    have counted := first_number_append writes apart
    simp only [front, rules, List.findSome?_cons, untexted, counted, Option.map_none, Option.map_some]
  | comma =>
    have uncounted := @first_number_of_head ',' (by decide) (by decide) rest
    have unnamed : (Pattern.seq (.one startsName) (.many (.one continuesName))).first (',' :: rest) = none :=
      Pattern.first_eq_none.mpr rfl
    have matched : (Pattern.one (· == ',')).first (',' :: rest) = some ([','], rest) :=
      Pattern.first_eq_some.mpr ⟨rfl, rfl⟩
    have text : ",".toList = [','] := rfl
    simp only [text, List.singleton_append] at untexted ⊢
    simp only [front, rules, List.findSome?_cons, untexted, uncounted, unnamed, matched, Option.map_none,
      Option.map_some]

/-- The text is exactly one token. -/
def IsToken (kind : TokenKind) (v : String) : Prop := front v.toList = some (kind, v.toList, [])

instance (kind : TokenKind) (v : String) : Decidable (IsToken kind v) :=
  inferInstanceAs (Decidable (front v.toList = some (kind, v.toList, [])))

theorem isName_of_front {cs text rest : List Char} (found : front cs = some (.name, text, rest)) :
    IsName text := by
  obtain ⟨p, member, matched⟩ := front_eq_some found
  obtain rfl : p = .seq (.one startsName) (.many (.one continuesName)) := by simpa [rules] using member
  obtain ⟨head, rfl⟩ := Pattern.first_eq_some.mp matched
  have left := List.mem_of_head? head
  generalize whole : text ++ rest = cs at left
  cases cs with
  | nil => cases left
  | cons c more =>
    rw [Pattern.rests_seq_one] at left
    split at left
    · rename_i letter
      obtain ⟨ds, rfl, inside⟩ := Pattern.forall_of_mem_rests_many_one left
      have same : text = c :: ds := List.append_cancel_right whole
      exact ⟨c, ds, same, letter, inside⟩
    · cases left

private theorem exists_of_mem_rests_hexNumber {cs rest : List Char} (left : rest ∈ hexNumber.rests cs) :
    ∃ x ds, (x = 'x' ∨ x = 'X') ∧ ds ≠ [] ∧ cs = '0' :: x :: ds ++ rest ∧ ∀ c ∈ ds, Text.isHexDigit c = true := by
  cases cs with
  | nil => cases left
  | cons c more =>
    rw [hexNumber, Pattern.rests_seq_one] at left
    split at left
    · rename_i zero
      obtain rfl : c = '0' := by simpa using zero
      cases more with
      | nil => cases left
      | cons x more =>
        rw [Pattern.rests_seq_one] at left
        split at left
        · rename_i mark
          obtain ⟨ds, some_digit, rfl, all⟩ := Pattern.forall_of_mem_rests_some_one left
          exact ⟨x, ds, by simpa using mark, some_digit, rfl, all⟩
        · cases left
    · cases left

private theorem writesInteger_of_front {cs text rest : List Char} (found : front cs = some (.number, text, rest)) :
    ∃ n, WritesInteger text n := by
  obtain ⟨p, member, matched⟩ := front_eq_some found
  obtain rfl : p = .either hexNumber decimalNumber := by simpa [rules] using member
  obtain ⟨head, rfl⟩ := Pattern.first_eq_some.mp matched
  have left := List.mem_of_head? head
  generalize whole : text ++ rest = cs at left
  rw [Pattern.rests, List.mem_append] at left
  rcases left with hex | decimal
  · obtain ⟨x, ds, mark, some_digit, rfl, all⟩ := exists_of_mem_rests_hexNumber hex
    obtain rfl : text = '0' :: x :: ds := List.append_cancel_right whole
    exact ⟨_, .hexadecimal mark some_digit all⟩
  cases cs with
  | nil => cases decimal
  | cons c more =>
    rw [rests_decimalNumber, List.mem_append] at decimal
    rcases decimal with signed | plain
    · split at signed
      · rename_i minus
        subst minus
        obtain ⟨ds, some_digit, rfl, all⟩ := Pattern.forall_of_mem_rests_some_one signed
        obtain rfl : text = '-' :: ds := List.append_cancel_right whole
        exact ⟨_, .negative some_digit all⟩
      · cases signed
    · obtain ⟨ds, some_digit, same, all⟩ := Pattern.forall_of_mem_rests_some_one plain
      rw [same] at whole
      obtain rfl : text = ds := List.append_cancel_right whole
      exact ⟨_, .decimal some_digit all⟩

theorem isToken_name_iff {v : String} : IsToken .name v ↔ IsName v.toList := by
  constructor
  · exact isName_of_front
  · intro name
    have whole := @front_append ⟨.name, v⟩ (.name name) [] (by simp)
    rwa [List.append_nil] at whole

theorem isToken_number_iff {v : String} : IsToken .number v ↔ ∃ n, WritesInteger v.toList n := by
  constructor
  · exact writesInteger_of_front
  · rintro ⟨n, writes⟩
    have whole := @front_append ⟨.number, v⟩ (.number writes) [] (by simp)
    rwa [List.append_nil] at whole

end TradeWire.Condition
