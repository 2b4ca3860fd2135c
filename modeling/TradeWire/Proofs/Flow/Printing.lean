import TradeWire.Proofs.Flow.Grammar

/-! Conditions are read as they are printed, by every parser that follows the grammar. -/

set_option autoImplicit false
set_option relaxedAutoImplicit false

namespace TradeWire.Condition

/-- A text that is one name or one integer. -/
def IsWord (v : String) : Prop := IsToken .name v ∨ IsToken .number v

inductive Token.Writes : Token → String → Prop
  | name {v : String} (name : IsToken .name v) : Writes ⟨.name, v⟩ v
  | number {v : String} (number : IsToken .number v) : Writes ⟨.number, v⟩ v

def wordToken (word : String) : Token := ⟨.name, word⟩

/-- The tokens of some values, with `or` or a comma between any two. -/
inductive Lists : List String → List Token → Prop
  | one {v : String} {t : Token} (writes : t.Writes v) : Lists [v] [t]
  | more {v : String} {t separator : Token} {vs : List String} {ts : List Token} (writes : t.Writes v)
      (separates : separator = wordToken "or" ∨ separator = ⟨.comma, ","⟩) (rest : Lists vs ts) :
      Lists (v :: vs) (t :: separator :: ts)

def Test.HasTokens (t : Test) (ts : List Token) : Prop :=
  ∃ values, Lists t.values values ∧
    ts = wordToken t.field :: wordToken "is" :: if t.negated then wordToken "not" :: values else values

/-- Tokens that are written one after the other, with blanks around them. There may be no blanks between a token
and what does not continue it. -/
inductive Spaced : List Token → List Char → Prop
  | nil {gap : List Char} (blank : ∀ c ∈ gap, isSpace c = true) : Spaced [] gap
  | cons {t : Token} {ts : List Token} {gap rest : List Char} (blank : ∀ c ∈ gap, isSpace c = true)
      (apart : ∀ c ∈ rest.head?, t.continues c = false) (more : Spaced ts rest) :
      Spaced (t :: ts) (gap ++ (t.text.toList ++ rest))

/-- A text of a test: its tokens with any blanks around them, as long as no two run into one. -/
def Test.Spells (t : Test) (text : String) : Prop := ∃ ts, t.HasTokens ts ∧ Spaced ts text.toList

/-- A test of a field against names and integers. The word `not` in front of them would negate it. -/
structure Test.IsPrintable (t : Test) : Prop where
  field : IsToken .name t.field
  words : ∀ v ∈ t.values, IsWord v
  some_value : t.values ≠ []
  clear : t.negated = false → t.values.head? ≠ some "not"

section Spelled

private theorem Token.Writes.isBare {t : Token} {v : String} (writes : t.Writes v) : t.IsBare := by
  cases writes with
  | name name => exact .name (isToken_name_iff.mp name)
  | number number =>
    obtain ⟨n, writes⟩ := isToken_number_iff.mp number
    exact .number writes

private theorem Token.Writes.isValue {t : Token} {v : String} (writes : t.Writes v) : t.isValue = true := by
  cases writes <;> rfl

private theorem Token.Writes.text {t : Token} {v : String} (writes : t.Writes v) : t.text = v := by
  cases writes <;> rfl

private theorem IsWord.exists_token {v : String} (word : IsWord v) : ∃ t : Token, t.Writes v := by
  rcases word with name | number
  · exact ⟨_, .name name⟩
  · exact ⟨_, .number number⟩

private theorem isBare_wordToken {word : String} (name : IsToken .name word) : (wordToken word).IsBare :=
  .name (isToken_name_iff.mp name)

private theorem Lists.isBare {vs : List String} {ts : List Token} (lists : Lists vs ts) : ∀ t ∈ ts, t.IsBare := by
  induction lists with
  | one writes => simpa using writes.isBare
  | more writes separates _ ih =>
    have between : ∀ separator, separator = wordToken "or" ∨ separator = ⟨.comma, ","⟩ →
        Token.IsBare separator := by
      rintro _ (rfl | rfl)
      · exact isBare_wordToken (by decide)
      · exact .comma
    simp only [List.forall_mem_cons]
    exact ⟨writes.isBare, between _ separates, ih⟩

private theorem Test.HasTokens.isBare {t : Test} (printable : t.IsPrintable) {ts : List Token}
    (tokens : t.HasTokens ts) :
    ∀ token ∈ ts, token.IsBare := by
  obtain ⟨values, lists, rfl⟩ := tokens
  simp only [List.forall_mem_cons]
  refine ⟨isBare_wordToken printable.field, isBare_wordToken (by decide), ?_⟩
  split
  · exact List.forall_mem_cons.mpr ⟨isBare_wordToken (by decide), lists.isBare⟩
  · exact lists.isBare

private theorem Lists.derives {vs : List String} {ts : List Token} (lists : Lists vs ts) : DerivesValues ts vs := by
  induction lists with
  | one writes =>
    rw [← writes.text]
    exact .one writes.isValue
  | more writes separates _ ih =>
    rw [← writes.text]
    refine .more writes.isValue ?_ ih
    rcases separates with rfl | rfl
    · exact .inl rfl
    · exact .inr rfl

private theorem Test.HasTokens.derives {t : Test} (printable : t.IsPrintable) {ts : List Token}
    (tokens : t.HasTokens ts) : Derives ts t := by
  obtain ⟨values, lists, rfl⟩ := tokens
  have listed := lists.derives
  obtain ⟨field, negated, vs⟩ := t
  cases negated with
  | true => exact @Derives.negated (wordToken field) (wordToken "is") (wordToken "not") _ _ rfl rfl rfl listed
  | false =>
    refine @Derives.plain (wordToken field) (wordToken "is") _ _ rfl rfl ?_ listed
    have clear := printable.clear rfl
    rintro first here
    cases lists with
    | one writes | more writes =>
      cases here
      rw [writes.text]
      simpa using clear

end Spelled

section Printed

private theorem Token.continues_blank (t : Token) {c : Char} (blank : isSpace c = true) : t.continues c = false := by
  unfold Token.continues
  rcases isSpace_cases blank with rfl | rfl | rfl | rfl <;> cases t.kind <;> rfl

private theorem Spaced.behind_blank {t : Token} {ts : List Token} {rest : List Char}
    (apart : ∀ c ∈ rest.head?, isSpace c = true) (more : Spaced ts rest) :
    Spaced (t :: ts) (' ' :: (t.text.toList ++ rest)) :=
  @Spaced.cons t ts [' '] rest (List.all_eq_true.mp (by decide))
    (fun c first => t.continues_blank (apart c first)) more

private theorem Spaced.in_front {t : Token} {ts : List Token} {rest : List Char}
    (apart : ∀ c ∈ rest.head?, t.continues c = false) (more : Spaced ts rest) :
    Spaced (t :: ts) (t.text.toList ++ rest) :=
  @Spaced.cons t ts [] rest (by simp) apart more

private theorem exists_lists_spaced {vs : List String} (some_value : vs ≠ []) (words : ∀ v ∈ vs, IsWord v) :
    ∃ ts, Lists vs ts ∧ Spaced ts (' ' :: (String.intercalate " or " vs).toList) := by
  induction vs with
  | nil => exact absurd rfl some_value
  | cons v rest ih =>
    rw [List.forall_mem_cons] at words
    obtain ⟨t, writes⟩ := words.1.exists_token
    cases rest with
    | nil =>
      refine ⟨[t], .one writes, ?_⟩
      have alone := @Spaced.behind_blank t [] [] (by simp) (.nil (by simp))
      simpa [writes.text, String.toList_intercalate, List.intercalate] using alone
    | cons w others =>
      obtain ⟨ts, lists, spaced⟩ := ih (List.cons_ne_nil w others) words.2
      refine ⟨t :: wordToken "or" :: ts, .more writes (.inl rfl) lists, ?_⟩
      have both := Spaced.behind_blank (t := t) (by simp [isSpace])
        (Spaced.behind_blank (t := wordToken "or") (by simp [isSpace]) spaced)
      simpa [writes.text, wordToken, String.toList_intercalate, List.intercalate, List.intersperse] using both

private theorem Test.IsPrintable.spells {t : Test} (printable : t.IsPrintable) : t.Spells t.render := by
  obtain ⟨values, lists, spaced⟩ := exists_lists_spaced printable.some_value printable.words
  refine ⟨_, ⟨values, lists, rfl⟩, ?_⟩
  -- the field has no blank in front, and each token behind it has one
  have behind : ∀ {ts : List Token} {tail : List Char}, Spaced (wordToken "is" :: ts) (' ' :: tail) →
      Spaced (wordToken t.field :: wordToken "is" :: ts) (t.field.toList ++ ' ' :: tail) := by
    intro ts tail more
    refine .in_front ?_ more
    rintro _ ⟨⟩
    exact Token.continues_blank _ (by decide)
  cases negated : t.negated with
  | true =>
    have word := Spaced.behind_blank (t := wordToken "not") (by simp [isSpace]) spaced
    have whole := behind (Spaced.behind_blank (t := wordToken "is") (by simp [isSpace]) word)
    simpa [Test.render, negated, wordToken] using whole
  | false =>
    have whole := behind (Spaced.behind_blank (t := wordToken "is") (by simp [isSpace]) spaced)
    simpa [Test.render, negated, wordToken] using whole

end Printed

section Read

private theorem Lexes.isToken {unquote : List Char → Option (List Char)} {cs : List Char} {ts : List Token}
    (lexes : Lexes unquote cs ts) {t : Token} (member : t ∈ ts) (kind : t.kind = .name) : IsToken .name t.text := by
  induction lexes with
  | nil => cases member
  | blank _ _ ih => exact ih member
  | token found _ shows _ ih =>
    rcases List.mem_cons.mp member with rfl | later
    · simp only at kind
      subst kind
      have name := isName_of_front found
      simp only [content, reduceCtorEq, if_false, Option.map_some, Option.some.injEq] at shows
      rw [isToken_name_iff, ← shows, String.toList_ofList]
      exact name
    · exact ih later

private theorem DerivesValues.head {ts : List Token} {vs : List String} (derives : DerivesValues ts vs) :
    ∃ t ∈ ts.head?, vs.head? = some t.text := by
  cases derives with
  | one | more => exact ⟨_, rfl, rfl⟩

/-- A test that was derived has a name for its field, and a value in front that does not negate it. -/
theorem Derives.isPrintable {unquote : List Char → Option (List Char)} {cs : List Char} {ts : List Token} {t : Test}
    (derives : Derives ts t) (lexes : Lexes unquote cs ts) (words : ∀ v ∈ t.values, IsWord v) : t.IsPrintable := by
  cases derives with
  | plain named _ unnegated values =>
    refine ⟨lexes.isToken List.mem_cons_self named, words, values.ne_nil.2, ?_⟩
    intro _ negating
    obtain ⟨first, here, value⟩ := values.head
    rw [value, Option.some.injEq] at negating
    exact unnegated first here negating
  | negated named _ _ values =>
    exact ⟨lexes.isToken List.mem_cons_self named, words, values.ne_nil.2, nofun⟩

end Read

end TradeWire.Condition
