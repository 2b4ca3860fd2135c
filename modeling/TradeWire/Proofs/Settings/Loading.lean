import TradeWire.Proofs.Settings.Agreement
import TradeWire.Proofs.Settings.Reading

/-! Documents that say the same to both readers are loaded to the same options. -/

set_option autoImplicit false
set_option relaxedAutoImplicit false

namespace TradeWire.Settings

/-- Values for keys; a key without a value is not given. -/
abbrev Assignment := String → Option Toml.Value

/-- Under each key of a server, by a comparison of names, entries hold the value that is assigned to it and
nothing else. -/
def Gives (same : String → String → Bool) (entries : Toml.Entries) (values : Assignment) : Prop :=
  ∀ key ∈ serverKeys, entriesUnder same entries key = ((values key).map Toml.Entry.value).toList

/-- Two readers take the same settings out of a document, or both refuse it. -/
structure Delivers (first second : Reader ServerFile) (document : String) (given : Option ServerFile) : Prop where
  first : first document = given
  second : second document = given

/-- Both parsers find the same values in a document, under names that are spelled as the keys are: by none of
the comparisons of names does anything else stand under a key. -/
structure Carries (document : String) (values : Assignment) : Prop where
  selective : ∃ entries,
    Toml.Selective.parse (fun key => serverKeys.any (sameInLowerCase key ·)) document = some entries ∧
      Gives sameInLowerCase entries values
  thorough : ∃ entries, Toml.Thorough.parse document = some entries ∧ Gives Text.spells entries values ∧
    Gives (· == ·) entries values

/-- The settings that values stand for, if each is of the kind that its key asks for. -/
def ServerFile.ofValues (values : Assignment) : Option ServerFile := do
  let listenAddr ← (values "listen_addr").mapM text?
  let adminAddr ← (values "admin_addr").mapM text?
  let corsOrigins ← (values "cors_origins").mapM texts?
  let schema ← (values "schema").mapM text?
  let policy ← (values "policy").mapM text?
  let rejectNthLogon ← (values "reject_nth_logon").mapM integer?
  let rejectText ← (values "reject_text").mapM text?
  let seed ← (values "seed").mapM integer?
  let readTimeout ← (values "read_timeout").mapM text?
  let writeTimeout ← (values "write_timeout").mapM text?
  let maxFrameBytes ← (values "max_frame_bytes").mapM word?
  return ⟨listenAddr, adminAddr, corsOrigins, schema, policy, rejectNthLogon, rejectText, seed, readTimeout,
    writeTimeout, maxFrameBytes⟩

def ServerFlags.unset : ServerFlags := ⟨none, none, none, none, none, none⟩

/-! ## The same settings from both readers -/

/-- Takings that differ in what they make of tables only. -/
structure Takings.ReadValues (takings : Takings) : Prop where
  text : takings.text.value = text?
  integer : takings.integer.value = integer?
  word : takings.word.value = word?
  texts : takings.texts.value = texts?

private theorem Takings.readValues_strict : strict.ReadValues := ⟨rfl, rfl, rfl, rfl⟩

private theorem Takings.readValues_lenient : lenient.ReadValues := ⟨rfl, rfl, rfl, rfl⟩

private theorem Taking.all_value {α : Type} (taking : Taking α) (given : Option Toml.Value) :
    taking.all none (given.map Toml.Entry.value).toList = given.mapM taking.value := by
  cases given with
  | none => rfl
  | some v => cases read : taking.value v <;> simp [Taking.all, Taking.entry, read]

private theorem ofEntries_of_gives {takings : Takings} (reads : takings.ReadValues) {same : String → String → Bool}
    {entries : Toml.Entries} {values : Assignment} (given : Gives same entries values) :
    ServerFile.ofEntries takings same entries = ServerFile.ofValues values := by
  have under {key : String} (known : key ∈ serverKeys) {α : Type} (taking : Taking α) :
      taking.all none (entriesUnder same entries key) = (values key).mapM taking.value := by
    rw [given key known, taking.all_value]
  unfold ServerFile.ofEntries ServerFile.ofValues
  simp (disch := decide) only [under, reads.text, reads.integer, reads.word, reads.texts]

private theorem delivers_of_carries {document : String} {values : Assignment} (carries : Carries document values) :
    Delivers ServerFile.selective ServerFile.thorough document (ServerFile.ofValues values) where
  first := by
    obtain ⟨entries, read, given⟩ := carries.selective
    rw [ServerFile.selective, read]
    exact ofEntries_of_gives Takings.readValues_lenient given
  second := by
    obtain ⟨entries, read, spelled, given⟩ := carries.thorough
    have settings := ofEntries_of_gives Takings.readValues_strict given
    have others := ofEntries_of_gives Takings.readValues_strict spelled
    simp only [ServerFile.thorough, read, settings, others]
    cases ServerFile.ofValues values with
    | none | some => rfl

section Delivered

variable {first second : Reader ServerFile} {document : String} {given : Option ServerFile}

private theorem readDocument_eq_ok {α : Type} {read : Reader α} {settings : α} :
    readDocument read (some document) = .ok settings ↔ read document = some settings := by
  rw [readDocument]
  cases read document with
  | none | some => simp

private theorem load_eq_ok {read : Reader ServerFile} {s : Server} : Server.load read (some document) = .ok s ↔
    ∃ f, read document = some f ∧ (Server.ofFile f).validate = .ok () ∧ Server.ofFile f = s := by
  simp only [Server.load, bind_eq_ok, readDocument_eq_ok, pure, Except.pure, Except.ok.injEq]
  constructor
  · rintro ⟨f, taken, _, valid, same⟩
    exact ⟨f, taken, valid, same⟩
  · rintro ⟨f, taken, valid, same⟩
    exact ⟨f, taken, _, valid, same⟩

private theorem resolve_eq_ok {read : Reader ServerFile} {p : ServerOptions} :
    resolve read (some document) .unset = .ok p ↔ ∃ f, read document = some f ∧ overlay .default f = .ok p := by
  have layered : resolve read (some document) .unset = (loadOverlay read document).bind ServerFlags.unset.apply := rfl
  have unchanged : (loadOverlay read document).bind ServerFlags.unset.apply = loadOverlay read document := by
    cases loadOverlay read document with
    | error | ok => rfl
  rw [layered, unchanged, loadOverlay, bind_eq_ok]
  simp only [readDocument_eq_ok]

private theorem both_eq_ok (delivered : Delivers first second document given) {s : Server} {o p : ServerOptions} :
    (Server.load first (some document) = .ok s ∧ s.options = .ok o ∧
      resolve second (some document) .unset = .ok p) ↔
      ∃ f, given = some f ∧ (Server.ofFile f).validate = .ok () ∧ Server.ofFile f = s ∧
        s.options = .ok o ∧ overlay .default f = .ok p := by
  rw [load_eq_ok, resolve_eq_ok, delivered.first, delivered.second]
  constructor
  · rintro ⟨⟨f, taken, valid, filled⟩, converted, g, again, laid⟩
    obtain rfl : f = g := Option.some.inj (taken.symm.trans again)
    exact ⟨f, taken, valid, filled, converted, laid⟩
  · rintro ⟨f, taken, valid, filled, converted, laid⟩
    exact ⟨⟨f, taken, valid, filled⟩, converted, f, taken, laid⟩

end Delivered

/-! ## Every assignment has a document -/

def givenRows {κ α : Type} (rows : List (κ × Option α)) : List (κ × α) :=
  rows.filterMap fun row => row.2.map (row.1, ·)

private theorem givenRows_cons {κ α : Type} (key : κ) (given : Option α) (rows : List (κ × Option α)) :
    givenRows ((key, given) :: rows) = (given.map (key, ·)).toList ++ givenRows rows := by
  cases given <;> rfl

private theorem map_fst_givenRows {κ α : Type} (rows : List (κ × Option α)) :
    ((givenRows rows).map (·.1)).Sublist (rows.map (·.1)) := by
  induction rows with
  | nil => exact .slnil
  | cons row rows ih =>
    obtain ⟨key, given⟩ := row
    rw [givenRows_cons]
    cases given with
    | none => exact ih.cons key
    | some a => exact ih.cons_cons key

private theorem lookup_givenRows {κ α : Type} [BEq κ] [LawfulBEq κ] {rows : List (κ × Option α)}
    (distinct : (rows.map (·.1)).Nodup) (key : κ) : (givenRows rows).lookup key = (rows.lookup key).join := by
  induction rows with
  | nil => rfl
  | cons row rows ih =>
    obtain ⟨own, given⟩ := row
    obtain ⟨fresh, distinct⟩ := List.nodup_cons.mp distinct
    have others := ih distinct
    rw [givenRows_cons, List.lookup_cons]
    by_cases same : key = own
    · subst same
      rw [lookup_of_not_mem fresh] at others
      cases given <;> simp [others]
    · rw [beq_eq_false_iff_ne.mpr same, ← others]
      cases given with
      | none => rfl
      | some a => exact lookup_cons_of_ne same

private theorem entriesUnder_entriesOf {same : String → String → Bool} {lines : List (String × Toml.Plain)}
    {key : String}
    (distinct : (lines.map (·.1)).Nodup) (equal : ∀ line ∈ lines, same line.1 key = (line.1 == key)) :
    entriesUnder same (Toml.entriesOf lines) key =
      (((lines.lookup key).map Toml.Plain.value).map Toml.Entry.value).toList := by
  induction lines with
  | nil => rfl
  | cons line lines ih =>
    obtain ⟨own, v⟩ := line
    obtain ⟨fresh, distinct⟩ := List.nodup_cons.mp distinct
    have others := ih distinct fun line member => equal line (List.mem_cons_of_mem _ member)
    have first : same own key = (own == key) := equal (own, v) List.mem_cons_self
    simp only [entriesUnder, Toml.entriesOf] at others ⊢
    rw [List.map_cons, List.filter_cons, first]
    by_cases here : own = key
    · subst here
      rw [lookup_of_not_mem fresh] at others
      simp [others]
    · rw [beq_eq_false_iff_ne.mpr here, lookup_cons_of_ne (Ne.symm here), ← others]
      rfl

namespace ServerFile

/-- The keys of a server with the settings that are given. -/
def rows (f : ServerFile) : List (String × Option Toml.Plain) := [
  ("listen_addr", f.listenAddr.map .text),
  ("admin_addr", f.adminAddr.map .text),
  ("cors_origins", f.corsOrigins.map .texts),
  ("schema", f.schema.map .text),
  ("policy", f.policy.map .text),
  ("reject_nth_logon", f.rejectNthLogon.map .integer),
  ("reject_text", f.rejectText.map .text),
  ("seed", f.seed.map .integer),
  ("read_timeout", f.readTimeout.map .text),
  ("write_timeout", f.writeTimeout.map .text),
  ("max_frame_bytes", f.maxFrameBytes.map fun n : Nat => .integer n)]

def values (f : ServerFile) : Assignment := fun key => ((f.rows.lookup key).join).map Toml.Plain.value

/-- A document with a line for each setting that is given. -/
def document (f : ServerFile) : String := Toml.writeDocument (givenRows f.rows)

/-- Settings that are words: integers of 64 bits, and 32 bits for the size of frames. -/
structure AreWords (f : ServerFile) : Prop where
  rejectNthLogon : ∀ n ∈ f.rejectNthLogon, Word.isSigned n = true
  seed : ∀ n ∈ f.seed, Word.isSigned n = true
  maxFrameBytes : ∀ n ∈ f.maxFrameBytes, n < 0x100000000

private theorem mapM_written {α : Type} (write : α → Toml.Plain) {take : Toml.Value → Option α} {given : Option α}
    (takes : ∀ own ∈ given, take (write own).value = some own) :
    ((given.map write).map Toml.Plain.value).mapM take = some given := by
  cases given with
  | none => rfl
  | some own => simp [takes own rfl]

private theorem texts?_plain (items : List String) : texts? (Toml.Plain.texts items).value = some items := by
  rw [Toml.Plain.value, texts?]
  induction items with
  | nil => rfl
  | cons s items ih => simp [List.mapM_cons, text?, ih]

private theorem integer?_plain {n : Int} (signed : Word.isSigned n = true) :
    integer? (Toml.Plain.integer n).value = some n := by
  simp [integer?, Toml.Plain.value, Toml.integer_writeInteger signed]

private theorem isSigned_of_small {n : Nat} (small : n < 0x100000000) : Word.isSigned (n : Int) = true := by
  have least : Word.minSigned ≤ n := by
    unfold Word.minSigned
    omega
  have most : (n : Int) ≤ Word.maxSigned := by
    unfold Word.maxSigned
    omega
  simp [Word.isSigned, least, most]

private theorem word?_plain {n : Nat} (small : n < 0x100000000) : word? (Toml.Plain.integer n).value = some n := by
  have bounded : (n : Int) < 0x100000000 := by omega
  simp [word?, integer?_plain (isSigned_of_small small), bounded]

private theorem ofValues_values {f : ServerFile} (words : f.AreWords) : ofValues f.values = some f := by
  have texts (given : Option String) : ((given.map .text).map Toml.Plain.value).mapM text? = some given :=
    mapM_written _ fun _ _ => rfl
  have corsOrigins : (f.values "cors_origins").mapM texts? = some f.corsOrigins :=
    mapM_written _ fun items _ => texts?_plain items
  have rejectNthLogon : (f.values "reject_nth_logon").mapM integer? = some f.rejectNthLogon :=
    mapM_written _ fun n given => integer?_plain (words.rejectNthLogon n given)
  have seed : (f.values "seed").mapM integer? = some f.seed :=
    mapM_written _ fun n given => integer?_plain (words.seed n given)
  have maxFrameBytes : (f.values "max_frame_bytes").mapM word? = some f.maxFrameBytes :=
    mapM_written _ fun n given => word?_plain (words.maxFrameBytes n given)
  have listenAddr : (f.values "listen_addr").mapM text? = some f.listenAddr := texts _
  have adminAddr : (f.values "admin_addr").mapM text? = some f.adminAddr := texts _
  have schema : (f.values "schema").mapM text? = some f.schema := texts _
  have policy : (f.values "policy").mapM text? = some f.policy := texts _
  have rejectText : (f.values "reject_text").mapM text? = some f.rejectText := texts _
  have readTimeout : (f.values "read_timeout").mapM text? = some f.readTimeout := texts _
  have writeTimeout : (f.values "write_timeout").mapM text? = some f.writeTimeout := texts _
  rw [ofValues, listenAddr, adminAddr, corsOrigins, schema, policy, rejectNthLogon, rejectText, seed, readTimeout,
    writeTimeout, maxFrameBytes]
  rfl

private theorem isSigned_rows {f : ServerFile} (words : f.AreWords) : ∀ row ∈ f.rows, ∀ v ∈ row.2, v.IsSigned := by
  have written {α : Type} (write : α → Toml.Plain) {given : Option α}
      (signed : ∀ own ∈ given, (write own).IsSigned) : ∀ v ∈ given.map write, v.IsSigned := by
    intro v member
    obtain ⟨own, here, rfl⟩ := Option.map_eq_some_iff.mp member
    exact signed own here
  have text (given : Option String) : ∀ v ∈ given.map Toml.Plain.text, v.IsSigned := written _ fun _ _ => trivial
  simp only [rows, List.forall_mem_cons, List.not_mem_nil, false_imp_iff, implies_true, and_true]
  exact ⟨text _, text _, written _ fun _ _ => trivial, text _, text _, written _ words.rejectNthLogon, text _,
    written _ words.seed, text _, text _, written _ fun n given => isSigned_of_small (words.maxFrameBytes n given)⟩

private theorem areWritable {f : ServerFile} (words : f.AreWords) : Toml.AreWritable (givenRows f.rows) where
  bare := by
    have all : ∀ key ∈ serverKeys, Toml.IsBareKey key := by decide +kernel
    intro line member
    exact all line.1 ((map_fst_givenRows f.rows).subset (List.mem_map_of_mem member))
  signed := by
    intro line member
    obtain ⟨row, listed, given⟩ := List.mem_filterMap.mp member
    obtain ⟨v, here, rfl⟩ := Option.map_eq_some_iff.mp given
    exact isSigned_rows words row listed v here
  distinct := by
    have all : serverKeys.Nodup := by decide +kernel
    exact all.sublist (map_fst_givenRows f.rows)

private theorem gives_values {f : ServerFile} (words : f.AreWords) {same : String → String → Bool}
    (apart : ∀ own ∈ serverKeys, ∀ key ∈ serverKeys, same own key = (own == key)) :
    Gives same (Toml.entriesOf (givenRows f.rows)) f.values := by
  intro key known
  have keys : f.rows.map (·.1) = serverKeys := rfl
  have distinct : (f.rows.map (·.1)).Nodup := by
    rw [keys]
    decide +kernel
  rw [entriesUnder_entriesOf (areWritable words).distinct, lookup_givenRows distinct]
  · rfl
  · intro line member
    exact apart line.1 ((map_fst_givenRows f.rows).subset (List.mem_map_of_mem member)) key known

private theorem carries_document {f : ServerFile} (words : f.AreWords) : Carries f.document f.values where
  selective := ⟨_, Toml.Selective.parse_written _ (areWritable words), gives_values words (by decide +kernel)⟩
  thorough :=
    ⟨_, Toml.Thorough.parse_written (areWritable words), gives_values words (by decide +kernel),
      gives_values words fun _ _ _ _ => rfl⟩

end ServerFile

/-- Two ways from a settings document to options come to the same. Whatever readers the two ways have, let them
deliver the same settings of a document: both ways lead to options exactly if the settings are common to both, and
then the options are the same once defaults stand for what is not set and the origins are without blanks. The
readers of this library deliver the same of every document that carries the same values to both of them, and every
assignment of values to the keys of a server is carried by a document. -/
theorem loads_alike :
    (∀ first second document given, Delivers first second document given →
      ((∃ s o p, Server.load first (some document) = .ok s ∧ s.options = .ok o ∧
          resolve second (some document) .unset = .ok p) ↔ ∃ f, given = some f ∧ f.IsCommon) ∧
      ∀ s o p, Server.load first (some document) = .ok s → s.options = .ok o →
        resolve second (some document) .unset = .ok p → o.settled = p.settled) ∧
    (∀ document values, Carries document values →
      Delivers ServerFile.selective ServerFile.thorough document (ServerFile.ofValues values)) ∧
    ∀ f : ServerFile, f.AreWords →
      ServerFile.ofValues f.values = some f ∧ ∃ document, Carries document f.values := by
  refine ⟨?_, fun document values => delivers_of_carries,
    fun f words => ⟨ServerFile.ofValues_values words, f.document, ServerFile.carries_document words⟩⟩
  intro first second document given delivered
  constructor
  · constructor
    · rintro ⟨s, o, p, both⟩
      obtain ⟨f, taken, valid, rfl, converted, laid⟩ := (both_eq_ok delivered).mp both
      exact ⟨f, taken, isCommon_iff.mp ⟨valid, ⟨o, converted⟩, p, laid⟩⟩
    · rintro ⟨f, taken, common⟩
      obtain ⟨valid, ⟨o, converted⟩, p, laid⟩ := isCommon_iff.mpr common
      exact ⟨_, o, p, (both_eq_ok delivered).mpr ⟨f, taken, valid, rfl, converted, laid⟩⟩
  · intro s o p loaded converted resolved
    obtain ⟨f, taken, valid, rfl, -, laid⟩ := (both_eq_ok delivered).mp ⟨loaded, converted, resolved⟩
    obtain ⟨path, named, -⟩ := (isCommon_iff.mp ⟨valid, ⟨o, converted⟩, p, laid⟩).schema
    exact settled_of_overlay (Option.isSome_iff_exists.mpr ⟨path, named⟩) converted laid

/-- Settings some of which are empty, zero or surrounded by blanks. -/
def sparse : ServerFile where
  listenAddr := some ""
  adminAddr := some " 127.0.0.1:7172"
  corsOrigins := some []
  schema := some "eti.xml "
  policy := some " Match"
  rejectNthLogon := some (-5)
  rejectText := some ""
  seed := none
  readTimeout := some " 30s"
  writeTimeout := some "-1s"
  maxFrameBytes := some 0

theorem sparse_loads_alike : sparse.AreWords ∧ sparse.IsCommon ∧ ∃ document, Carries document sparse.values ∧
    Delivers ServerFile.selective ServerFile.thorough document (some sparse) ∧
      ∃ s o p, Server.load ServerFile.selective (some document) = .ok s ∧ s.options = .ok o ∧
        resolve ServerFile.thorough (some document) .unset = .ok p ∧ o.settled = p.settled := by
  have words : sparse.AreWords := {
    rejectNthLogon := by decide +kernel
    seed := by decide +kernel
    maxFrameBytes := by decide +kernel }
  have common : sparse.IsCommon := {
    listenAddr := by decide +kernel
    schema := ⟨"eti.xml ", rfl, by decide +kernel⟩
    policy := by
      rintro _ ⟨⟩
      exact ⟨.firstMatch, by decide +kernel⟩
    readTimeout := by
      rintro _ ⟨⟩
      exact ⟨30000000000, by decide +kernel⟩
    writeTimeout := by
      rintro _ ⟨⟩
      exact ⟨-1000000000, by decide +kernel⟩
    maxFrameBytes := by decide +kernel }
  obtain ⟨alike, readers, every⟩ := loads_alike
  obtain ⟨taken, document, carries⟩ := every sparse words
  have delivered := readers document sparse.values carries
  rw [taken] at delivered
  obtain ⟨both, same⟩ := alike _ _ document _ delivered
  obtain ⟨s, o, p, loaded, converted, resolved⟩ := both.mpr ⟨sparse, rfl, common⟩
  exact ⟨words, common, document, carries, delivered, s, o, p, loaded, converted, resolved,
    same s o p loaded converted resolved⟩

end TradeWire.Settings
