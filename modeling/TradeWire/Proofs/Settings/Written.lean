import TradeWire.Proofs.Data.Related
import TradeWire.Settings.Toml.Expression
import TradeWire.Text.Hex

/-! Settings documents as one would write them, one key with its value on each line. -/

set_option autoImplicit false
set_option relaxedAutoImplicit false

namespace TradeWire.Toml

inductive Plain where
  | text (s : String)
  | integer (n : Int)
  | texts (items : List String)

/-- A character inside quotes: what would end the text or must not stand in it is escaped. -/
def writeChar (c : Char) : List Char :=
  if c = '"' ∨ c = '\\' then ['\\', c]
  else if isControl c then '\\' :: 'u' :: '0' :: '0' :: Text.Hex.byteDigits (UInt8.ofNat c.toNat)
  else [c]

def writeText (s : String) : List Char := '"' :: (s.toList.flatMap writeChar ++ ['"'])

/-- An integer in decimal digits, behind a sign if it is negative. -/
def writeInteger (n : Int) : List Char :=
  if n < 0 then '-' :: Nat.toDigits 10 n.natAbs else Nat.toDigits 10 n.natAbs

/-- The texts of a list, each with a comma behind it, and the bracket that closes the list. -/
def writeTexts (items : List String) : List Char := items.flatMap (fun s => writeText s ++ [',']) ++ [']']

namespace Plain

def written : Plain → List Char
  | text s => writeText s
  | integer n => writeInteger n
  | texts items => '[' :: writeTexts items

/-- The value that is read. -/
def value : Plain → Value
  | text s => .text s
  | integer n => .word (String.ofList (writeInteger n))
  | texts items => .list (items.map .text)

def IsSigned : Plain → Prop
  | integer n => Word.isSigned n = true
  | _ => True

end Plain

def writeLine (key : String) (v : Plain) : List Char := key.toList ++ ' ' :: '=' :: ' ' :: (v.written ++ ['\n'])

def writeDocument (lines : List (String × Plain)) : String :=
  String.ofList (lines.flatMap fun line => writeLine line.1 line.2)

/-! ## Texts -/

private theorem hexChar_byteDigits {c : Char} (control : isControl c = true) (rest : List Char) :
    Text.hexChar 4 ('0' :: '0' :: (Text.Hex.byteDigits (UInt8.ofNat c.toNat) ++ rest)) = some (c, rest) := by
  have digits : ∀ n < 128, (Text.hexValue 0 ('0' :: '0' :: Text.Hex.byteDigits (UInt8.ofNat n))).bind
      Text.codePoint? = some (Char.ofNat n) := by decide
  have small : c.toNat < 128 := by
    simp only [isControl, Bool.or_eq_true, Bool.and_eq_true, decide_eq_true_eq, beq_iff_eq] at control
    omega
  have known := digits c.toNat small
  rw [Char.ofNat_toNat] at known
  have long : ¬('0' :: '0' :: (Text.Hex.byteDigits (UInt8.ofNat c.toNat) ++ rest)).length < 4 := by
    simp [Text.Hex.byteDigits]
  unfold Text.hexChar
  rw [if_neg long]
  simp only [Text.Hex.byteDigits, List.cons_append, List.nil_append, List.take_succ_cons, List.take_zero,
    List.drop_succ_cons, List.drop_zero] at known ⊢
  rw [known, Option.map_some]

private theorem basicText_writeChar (d : Dialect) (fuel : Nat) (c : Char) (rest : List Char) :
    basicText d (fuel + 1) (writeChar c ++ rest) = consBody c (basicText d fuel rest) := by
  unfold writeChar
  split
  · rename_i marked
    rcases marked with rfl | rfl <;> simp [basicText, escape]
  · rename_i plain
    rw [not_or] at plain
    split
    · rename_i control
      simp [basicText, escape, hexChar_byteDigits control]
    · rename_i solid
      simp [basicText, plain, solid]

private theorem basicText_written (d : Dialect) (rest : List Char) {cs : List Char} {fuel : Nat}
    (enough : cs.length < fuel) :
    basicText d fuel (cs.flatMap writeChar ++ '"' :: rest) = some (cs, rest) := by
  induction cs generalizing fuel with
  | nil =>
    obtain ⟨fuel, rfl⟩ := Nat.exists_eq_succ_of_ne_zero (Nat.ne_zero_of_lt enough)
    simp [basicText]
  | cons c cs ih =>
    obtain ⟨fuel, rfl⟩ := Nat.exists_eq_succ_of_ne_zero (Nat.ne_zero_of_lt enough)
    rw [List.flatMap_cons, List.append_assoc, basicText_writeChar,
      ih (by simpa using enough)]
    rfl

private theorem exists_writeChar (c : Char) : ∃ e rest, writeChar c = e :: rest ∧ e ≠ '"' := by
  unfold writeChar
  split
  · exact ⟨_, _, rfl, by decide⟩
  · rename_i plain
    split
    · exact ⟨_, _, rfl, by decide⟩
    · exact ⟨_, _, rfl, (not_or.mp plain).1⟩

private theorem writeChar_ne_nil (c : Char) : writeChar c ≠ [] := by
  obtain ⟨e, rest, written, -⟩ := exists_writeChar c
  simp [written]

private theorem valueText_written (d : Dialect) (s : String) (rest : List Char) (apart : rest.head? ≠ some '"') :
    valueText d (writeText s ++ rest) = some (s, rest) := by
  have enough := length_le_flatMap writeChar_ne_nil s.toList
  have quoted : quotedText d (writeText s ++ rest) = some (s, rest) := by
    simp only [writeText, List.cons_append, List.append_assoc, List.nil_append, quotedText]
    rw [basicText_written d rest (by simp only [List.length_append, List.length_cons]; omega)]
    simp
  -- three quotes in front would be an empty text with a quote behind it
  have open_once : ∀ more, writeText s ++ rest ≠ '"' :: '"' :: '"' :: more := by
    intro more same
    cases letters : s.toList with
    | nil =>
      simp only [writeText, letters, List.flatMap_nil, List.nil_append, List.cons_append, List.cons.injEq,
        true_and] at same
      exact apart (by simp [same])
    | cons c cs =>
      obtain ⟨e, tail, written, other⟩ := exists_writeChar c
      simp only [writeText, letters, List.flatMap_cons, written, List.cons_append, List.cons.injEq, true_and] at same
      exact other same.1
  unfold valueText
  split
  · rename_i same
    exact absurd same (open_once _)
  · rename_i same
    simp [writeText] at same
  · exact quoted

/-! ## Lists -/

private theorem skipSpaces_of_solid {c : Char} {rest : List Char} (solid : isSpace c = false) :
    skipSpaces (c :: rest) = c :: rest := by
  simp [skipSpaces, solid]

private theorem newline?_of_solid {c : Char} (ends : c ≠ '\n' ∧ c ≠ '\r') (rest : List Char) :
    newline? (c :: rest) = none := by
  unfold newline?
  split
  · rename_i same
    exact absurd (List.cons.inj same).1 ends.1
  · rename_i same
    exact absurd (List.cons.inj same).1 ends.2
  · rfl

private theorem skipLines_of_solid {c : Char} (fuel : Nat) (rest : List Char) (solid : isSpace c = false)
    (mark : c ≠ '#')
    (ends : c ≠ '\n' ∧ c ≠ '\r') : skipLines (fuel + 1) (c :: rest) = some (c :: rest) := by
  unfold skipLines
  rw [skipSpaces_of_solid solid]
  split
  · rename_i same
    exact absurd (List.cons.inj same).1 mark
  · rw [newline?_of_solid ends]

private theorem items_of_value {d : Dialect} {fuel : Nat} {cs start rest after : List Char} {v : Value}
    (front : skipLines (cs.length + 1) cs = some start) (opened : start.head? ≠ some ']')
    (first : value d fuel start = some (v, rest)) (comma : skipLines (rest.length + 1) rest = some (',' :: after)) :
    items d (fuel + 1) cs = (items d fuel after).map fun (more, after) => (v :: more, after) := by
  rw [items, front]
  split
  · rename_i none_left
    cases none_left
  · rename_i closed
    simp [Option.some.inj closed] at opened
  · rename_i same
    cases same
    simp only [first, comma]

private theorem items_written (d : Dialect) (rest : List Char) {texts : List String} {fuel : Nat}
    (enough : texts.length < fuel) :
    items d fuel (writeTexts texts ++ rest) = some (texts.map .text, rest) := by
  obtain ⟨fuel, rfl⟩ := Nat.exists_eq_succ_of_ne_zero (Nat.ne_zero_of_lt enough)
  induction texts generalizing fuel with
  | nil =>
    simp only [writeTexts, List.flatMap_nil, List.nil_append, List.cons_append, items]
    rw [skipLines_of_solid _ _ (by decide) (by decide) (by decide)]
    rfl
  | cons s texts ih =>
    obtain ⟨less, rfl⟩ := Nat.exists_eq_succ_of_ne_zero (Nat.ne_zero_of_lt (Nat.lt_of_succ_lt_succ enough))
    have parts : writeTexts (s :: texts) ++ rest = writeText s ++ ',' :: (writeTexts texts ++ rest) := by
      simp [writeTexts]
    have first : value d (less + 1) (writeText s ++ ',' :: (writeTexts texts ++ rest)) =
        some (.text s, ',' :: (writeTexts texts ++ rest)) := by
      have read := valueText_written d s (',' :: (writeTexts texts ++ rest)) (by simp)
      simp only [writeText, List.cons_append, value] at read ⊢
      rw [read]
      rfl
    have front : skipLines ((writeText s ++ ',' :: (writeTexts texts ++ rest)).length + 1)
        (writeText s ++ ',' :: (writeTexts texts ++ rest)) =
        some (writeText s ++ ',' :: (writeTexts texts ++ rest)) :=
      skipLines_of_solid _ _ (by decide) (by decide) (by decide)
    rw [parts, items_of_value front (by simp [writeText]) first
      (skipLines_of_solid _ _ (by decide) (by decide) (by decide)), ih less (Nat.lt_of_succ_lt_succ enough)]
    rfl

/-! ## Lines -/

/-- A dialect reads integers when it takes the digits up to the end of the line for the value. -/
def Dialect.ReadsIntegers (d : Dialect) : Prop :=
  ∀ n rest, Word.isSigned n = true →
    d.word (writeInteger n ++ '\n' :: rest) = some (String.ofList (writeInteger n), '\n' :: rest)

theorem isDigit_of_mem_toDigits {n : Nat} {c : Char} (member : c ∈ Nat.toDigits 10 n) : isDigit c = true := by
  have digit : c.isDigit = true := Nat.isDigit_of_mem_toDigits (by decide) (by decide) member
  simpa [Char.isDigit, isDigit, Char.le_def] using digit

theorem exists_writeInteger (n : Int) : ∃ c rest, writeInteger n = c :: rest ∧ (c = '-' ∨ isDigit c = true) := by
  unfold writeInteger
  split
  · exact ⟨_, _, rfl, .inl rfl⟩
  · obtain ⟨c, rest, digits⟩ := List.exists_cons_of_ne_nil (Nat.toDigits_ne_nil (b := 10) (n := n.natAbs))
    exact ⟨c, rest, digits, .inr (isDigit_of_mem_toDigits (by rw [digits]; simp))⟩

private theorem value_of_word (d : Dialect) (fuel : Nat) {c : Char} (rest : List Char)
    (plain : c = '-' ∨ isDigit c = true) :
    value d (fuel + 1) (c :: rest) = (d.word (c :: rest)).map fun (w, rest) => (.word w, rest) := by
  rw [value]
  all_goals
    rintro _ same
    obtain rfl := (List.cons.inj same).1
    revert plain
    decide

private theorem value_written {d : Dialect} (reads : d.ReadsIntegers) {v : Plain} (signed : v.IsSigned) {fuel : Nat}
    {rest : List Char} (enough : v.written.length < fuel) :
    value d fuel (v.written ++ '\n' :: rest) = some (v.value, '\n' :: rest) := by
  obtain ⟨fuel, rfl⟩ := Nat.exists_eq_succ_of_ne_zero (Nat.ne_zero_of_lt enough)
  cases v with
  | text s =>
    have read := valueText_written d s ('\n' :: rest) (by simp)
    simp only [Plain.written, Plain.value, writeText, List.cons_append, value] at read ⊢
    rw [read]
    rfl
  | texts texts =>
    have more := length_le_flatMap (g := fun s => writeText s ++ [',']) (by simp) texts
    simp only [Plain.written, writeTexts, List.length_cons, List.length_append] at enough
    simp only [Plain.written, Plain.value, List.cons_append, value]
    rw [items_written d ('\n' :: rest) (by omega)]
    rfl
  | integer n =>
    obtain ⟨c, tail, written, leads⟩ := exists_writeInteger n
    have read := reads n rest signed
    simp only [Plain.written, Plain.value, written, List.cons_append] at read ⊢
    rw [value_of_word d fuel _ leads, read]
    rfl

def IsBareKey (key : String) : Prop := key.toList ≠ [] ∧ ∀ c ∈ key.toList, isBare c = true

-- a test of the key's own characters: another instance would go through all characters there are
instance (key : String) : Decidable (IsBareKey key) :=
  decidable_of_iff (key.toList ≠ [] ∧ key.toList.all isBare = true) (by rw [IsBareKey, List.all_eq_true])

private theorem ne_of_isBare {c other : Char} (bare : isBare c = true) (apart : isBare other = false) :
    c ≠ other := by
  rintro rfl
  rw [bare] at apart
  cases apart

private theorem isSpace_of_isBare {c : Char} (bare : isBare c = true) : isSpace c = false := by
  simp only [isSpace, Bool.or_eq_false_iff, beq_eq_false_iff_ne]
  exact ⟨ne_of_isBare bare (by decide), ne_of_isBare bare (by decide)⟩

private theorem keyPath_written (d : Dialect) {key : String} (bare : IsBareKey key) (fuel : Nat) (rest : List Char) :
    keyPath d (fuel + 1) (key.toList ++ ' ' :: '=' :: rest) = some ([key], '=' :: rest) := by
  obtain ⟨some_char, inside⟩ := bare
  have whole : (key.toList ++ ' ' :: '=' :: rest).takeWhile isBare = key.toList ∧
      (key.toList ++ ' ' :: '=' :: rest).dropWhile isBare = ' ' :: '=' :: rest :=
    takeWhile_append_of_head inside (by simp; decide)
  have part : keyPart d (skipSpaces (key.toList ++ ' ' :: '=' :: rest)) = some (key, ' ' :: '=' :: rest) := by
    obtain ⟨c, cs, letters⟩ := List.exists_cons_of_ne_nil some_char
    have first : isBare c = true := inside c (by simp [letters])
    have here : skipSpaces (key.toList ++ ' ' :: '=' :: rest) = key.toList ++ ' ' :: '=' :: rest := by
      simp [skipSpaces, letters, isSpace_of_isBare first]
    rw [here, keyPart]
    · rw [whole.1, whole.2]
      simp [some_char]
    all_goals
      rw [letters]
      rintro _ same
      exact ne_of_isBare first (by decide) (List.cons.inj same).1
  rw [keyPath, part]
  rfl

private theorem Plain.skipSpaces_written (v : Plain) (rest : List Char) :
    skipSpaces (' ' :: (v.written ++ rest)) = v.written ++ rest := by
  cases v with
  | text s => rfl
  | texts items => rfl
  | integer n =>
    obtain ⟨c, tail, written, leads⟩ := exists_writeInteger n
    have solid : isSpace c = false := by
      rcases leads with rfl | digit
      · decide
      · exact isSpace_of_isBare (by simp [isBare, digit])
    have space : isSpace ' ' = true := by decide
    simp [Plain.written, written, skipSpaces, solid, space]

private theorem expression_written {d : Dialect} (reads : d.ReadsIntegers) {key : String} (bare : IsBareKey key)
    {v : Plain}
    (signed : v.IsSigned) (rest : List Char) :
    expression d (writeLine key v ++ rest) = some (.entry [key] v.value, '\n' :: rest) := by
  have parts : writeLine key v ++ rest = key.toList ++ ' ' :: '=' :: ' ' :: (v.written ++ '\n' :: rest) := by
    simp [writeLine]
  have read : entry d ((writeLine key v ++ rest).length + 2) (writeLine key v ++ rest) =
      some (([key], v.value), '\n' :: rest) := by
    have enough : v.written.length < (writeLine key v ++ rest).length + 1 := by
      simp only [parts, List.length_append, List.length_cons]
      omega
    rw [entry, parts, keyPath_written d bare, ← parts]
    simp only [v.skipSpaces_written, value_written reads signed enough, Option.map_some]
  obtain ⟨c, cs, letters⟩ := List.exists_cons_of_ne_nil bare.1
  have first : isBare c = true := bare.2 c (by simp [letters])
  rw [expression]
  · rw [read]
    rfl
  all_goals
    simp only [parts, letters]
    rintro _ same
    exact ne_of_isBare first (by decide) (List.cons.inj same).1

private theorem starts_writeLine {key : String} (bare : IsBareKey key) (v : Plain) (rest : List Char) :
    ∃ c more, writeLine key v ++ rest = c :: more ∧ isBare c = true := by
  obtain ⟨c, cs, letters⟩ := List.exists_cons_of_ne_nil bare.1
  exact ⟨c, _, by rw [writeLine, letters]; rfl, bare.2 c (by simp [letters])⟩

private theorem endOfLine_of_isBare {c : Char} (bare : isBare c = true) (rest : List Char) : endOfLine
    (c :: rest) = none := by
  unfold endOfLine
  rw [skipSpaces_of_solid (isSpace_of_isBare bare)]
  split
  · rename_i same
    exact absurd (List.cons.inj same).1 (ne_of_isBare bare (by decide))
  · exact newline?_of_solid ⟨ne_of_isBare bare (by decide), ne_of_isBare bare (by decide)⟩ rest

private theorem expressions_written {d : Dialect} (reads : d.ReadsIntegers) {lines : List (String × Plain)}
    (bare : ∀ line ∈ lines, IsBareKey line.1) (signed : ∀ line ∈ lines, line.2.IsSigned) {fuel : Nat}
    (enough : lines.length ≤ fuel) :
    expressions d fuel (lines.flatMap fun line => writeLine line.1 line.2) =
      some (lines.map fun line => .entry [line.1] line.2.value) := by
  induction lines generalizing fuel with
  | nil => cases fuel <;> rfl
  | cons line lines ih =>
    obtain ⟨key, v⟩ := line
    obtain ⟨fuel, rfl⟩ := Nat.exists_eq_succ_of_ne_zero (Nat.ne_zero_of_lt enough)
    have others := ih (fun line member => bare line (List.mem_cons_of_mem _ member))
      (fun line member => signed line (List.mem_cons_of_mem _ member)) (Nat.le_of_succ_le_succ enough)
    have read := expression_written reads (bare _ List.mem_cons_self) (signed _ List.mem_cons_self)
      (lines.flatMap fun line => writeLine line.1 line.2)
    have ended : endOfLine ('\n' :: lines.flatMap fun line => writeLine line.1 line.2) =
        some (lines.flatMap fun line => writeLine line.1 line.2) := rfl
    obtain ⟨c, more, starts, first⟩ := starts_writeLine (bare _ List.mem_cons_self) v
      (lines.flatMap fun line => writeLine line.1 line.2)
    simp only [List.flatMap_cons, List.map_cons, starts] at read ⊢
    rw [expressions, endOfLine_of_isBare first, skipSpaces_of_solid (isSpace_of_isBare first), read]
    · simp only [ended, others]
      rfl
    · simp

/-- A document is read as the keys and values that were written, line by line. -/
theorem document_written {d : Dialect} (reads : d.ReadsIntegers) {lines : List (String × Plain)}
    (bare : ∀ line ∈ lines, IsBareKey line.1) (signed : ∀ line ∈ lines, line.2.IsSigned) :
    document d (writeDocument lines) = some (lines.map fun line => .entry [line.1] line.2.value) := by
  have unmarked : dropMark d (writeDocument lines).toList = lines.flatMap fun line => writeLine line.1 line.2 := by
    rw [writeDocument, String.toList_ofList]
    cases lines with
    | nil => rfl
    | cons line lines =>
      obtain ⟨c, more, starts, first⟩ := starts_writeLine (bare _ List.mem_cons_self) line.2
        (lines.flatMap fun line => writeLine line.1 line.2)
      have mark : c.toNat ≠ 0xfeff := by
        intro same
        exact ne_of_isBare first (by decide : isBare (Char.ofNat 0xfeff) = false) (by rw [← same, Char.ofNat_toNat])
      simp only [List.flatMap_cons, starts, dropMark]
      simp [mark]
  have enough := length_le_flatMap (g := fun line => writeLine line.1 line.2) (by simp [writeLine]) lines
  unfold document
  rw [unmarked]
  exact expressions_written reads bare signed (by omega)

end TradeWire.Toml
