import TradeWire.Proofs.Settings.Conversion

/-!
Two ways from a settings document to the options of a server. One fills in what the document leaves open, checks
the settings and converts them; the other lays what the document names over the default options. They differ in
what they take for a setting that was not given, in what they refuse, and in where the defaults come in. Where
both lead to options, the options come to the same.
-/

set_option autoImplicit false
set_option relaxedAutoImplicit false

namespace TradeWire

namespace ServerOptions

/-- Options with nothing left open: defaults stand for what is not set, and the origins have no blanks. -/
def settled (o : ServerOptions) : ServerOptions :=
  { o.withDefaults with corsOrigins := cleanOrigins o.withDefaults.corsOrigins }

/-- No default stands in for these options. -/
structure IsSet (o : ServerOptions) : Prop where
  listenAddr : o.listenAddr ≠ ""
  policy : o.policy.isSome = true
  rejectText : o.rejectText ≠ ""
  writeTimeout : 0 < o.writeTimeout
  maxFrameBytes : o.maxFrameBytes ≠ 0

/-- Options are kept where they are set, and where nothing counts as unset. -/
structure KeptBy (o filled : ServerOptions) : Prop where
  listenAddr : o.listenAddr ≠ "" → filled.listenAddr = o.listenAddr
  adminAddr : filled.adminAddr = o.adminAddr
  corsOrigins : filled.corsOrigins = o.corsOrigins
  schemaPath : filled.schemaPath = o.schemaPath
  policy : o.policy.isSome = true → filled.policy = o.policy
  rejectNthLogon : filled.rejectNthLogon = o.rejectNthLogon
  rejectText : o.rejectText ≠ "" → filled.rejectText = o.rejectText
  seed : filled.seed = o.seed
  readTimeout : filled.readTimeout = o.readTimeout
  writeTimeout : 0 < o.writeTimeout → filled.writeTimeout = o.writeTimeout
  maxFrameBytes : o.maxFrameBytes ≠ 0 → filled.maxFrameBytes = o.maxFrameBytes

/-- Filling in defaults keeps every option that is set. -/
theorem keptBy_withDefaults (o : ServerOptions) : o.KeptBy o.withDefaults where
  listenAddr := fun set => if_neg (by simpa using set)
  adminAddr := rfl
  corsOrigins := rfl
  schemaPath := rfl
  policy := fun set => if_neg (by simpa [Option.isSome_iff_ne_none] using set)
  rejectNthLogon := rfl
  rejectText := fun set => if_neg (by simpa using set)
  seed := rfl
  readTimeout := rfl
  writeTimeout := fun set => if_neg (by simpa using set)
  maxFrameBytes := fun set => if_neg (by simpa using set)

/-- Defaults are filled in once and for all. -/
theorem isSet_withDefaults (o : ServerOptions) : o.withDefaults.IsSet := by
  have keeps := o.keptBy_withDefaults
  constructor
  case listenAddr =>
    by_cases set : o.listenAddr = ""
    · simp [withDefaults, set, default, defaultListenAddr]
    · rwa [keeps.listenAddr set]
  case policy =>
    cases set : o.policy with
    | none => simp [withDefaults, set, default]
    | some policy => rw [keeps.policy (by rw [set]; rfl), set, Option.isSome_some]
  case rejectText =>
    by_cases set : o.rejectText = ""
    · simp [withDefaults, set, default]
    · rwa [keeps.rejectText set]
  case writeTimeout =>
    by_cases set : 0 < o.writeTimeout
    · rwa [keeps.writeTimeout set]
    · simp [withDefaults, Int.not_lt.mp set, default]
  case maxFrameBytes =>
    by_cases set : o.maxFrameBytes = 0
    · simp [withDefaults, set, default, Frame.defaultLimit]
    · rwa [keeps.maxFrameBytes set]

/-- An origin is kept without the blanks around it; the default ones stand in where nothing is left. -/
theorem mem_cleanOrigins {origins : List String} {origin : String} : origin ∈ cleanOrigins origins ↔
    (origin ≠ "" ∧ ∃ given ∈ origins, Text.trim given = origin) ∨
      (∀ given ∈ origins, Text.trim given = "") ∧ origin ∈ defaultOrigins := by
  have kept : origin ∈ (origins.map Text.trim).filter (· != "") ↔
      origin ≠ "" ∧ ∃ given ∈ origins, Text.trim given = origin := by
    rw [List.mem_filter, List.mem_map, bne_iff_ne]
    exact and_comm
  simp only [cleanOrigins, List.isEmpty_iff]
  by_cases none : (origins.map Text.trim).filter (· != "") = []
  · have blank : ∀ given ∈ origins, Text.trim given = "" := by
      simpa [List.filter_eq_nil_iff] using none
    rw [none, List.mem_nil_iff, false_iff] at kept
    simp only [none, if_true]
    exact ⟨fun member => .inr ⟨blank, member⟩, fun either => (either.resolve_left kept).2⟩
  · obtain ⟨first, member⟩ := List.exists_mem_of_ne_nil _ none
    have solid : ¬∀ given ∈ origins, Text.trim given = "" := by
      intro blank
      obtain ⟨among, written⟩ := List.mem_filter.mp member
      obtain ⟨given, listed, rfl⟩ := List.mem_map.mp among
      exact bne_iff_ne.mp written (blank given listed)
    simp only [none, if_false, kept]
    exact ⟨.inl, fun either => either.resolve_right fun default => solid default.1⟩

/-- Origins without blanks stay as they are, in their order. -/
theorem cleanOrigins_eq_self {origins : List String} (some_origin : origins ≠ [])
    (clean : ∀ origin ∈ origins, origin ≠ "" ∧ Text.trim origin = origin) : cleanOrigins origins = origins := by
  have trimmed : origins.map Text.trim = origins := by
    conv_rhs => rw [← List.map_id origins]
    exact List.map_congr_left fun origin member => (clean origin member).2
  have kept : origins.filter (· != "") = origins :=
    List.filter_eq_self.mpr fun origin member => bne_iff_ne.mpr (clean origin member).1
  rw [cleanOrigins, trimmed, kept]
  exact if_neg (by simpa using some_origin)

end ServerOptions

namespace Settings

open ServerOptions (default)

/-- Settings that both ways take. A blank address, a missing schema and frames without room for more than their
length are refused by the check, an empty policy and an empty time by the overlay. -/
structure ServerFile.IsCommon (f : ServerFile) : Prop where
  listenAddr : ∀ address ∈ f.listenAddr, ¬Text.IsMereBlanks address
  schema : ∃ path ∈ f.schema, Text.trim path ≠ ""
  policy : ∀ word ∈ f.policy, ∃ policy, Flow.Policy.ofWord? word = some policy
  readTimeout : ∀ text ∈ f.readTimeout, ∃ n, Duration.parse (Text.trim text) = .ok n
  writeTimeout : ∀ text ∈ f.writeTimeout, ∃ n, Duration.parse (Text.trim text) = .ok n
  maxFrameBytes : ∀ n ∈ f.maxFrameBytes, n = 0 ∨ Server.leastFrameBytes ≤ n

/-! ## Times -/

private theorem parse_empty : Duration.parse "" = .error ⟨"", .malformed⟩ := rfl

private theorem trim_empty : Text.trim "" = "" := (Text.trim_eq_empty_iff "").mpr rfl

private theorem ne_empty_of_parse {text : String} {n : Int} (read : Duration.parse (Text.trim text) = .ok n) :
    text ≠ "" := by
  rintro rfl
  rw [trim_empty, parse_empty] at read
  cases read

private theorem exists_overlayTime_iff {key : String} {unset : Int} {given : Option String} :
    (∃ n, overlayTime key unset given = .ok n) ↔
      ∀ text ∈ given, ∃ n, Duration.parse (Text.trim text) = .ok n := by
  cases given with
  | none => simp [overlayTime]
  | some text => cases read : Duration.parse (Text.trim text) <;> simp [overlayTime, read]

private theorem timeOr_of_overlayTime {key : String} {unset n : Int} {given : Option String}
    (laid : overlayTime key unset given = .ok n) : Server.timeOr unset (given.getD "") = .ok n := by
  cases given with
  | none => simpa [overlayTime, Server.timeOr] using laid
  | some text =>
    cases read : Duration.parse (Text.trim text) with
    | error fault => simp [overlayTime, read] at laid
    | ok k =>
      simp only [overlayTime, read, Except.ok.injEq] at laid
      simp [Server.timeOr, ne_empty_of_parse read, read, laid]

/-! ## What each way makes of the settings in a file -/

/-- The options that settings are converted to, once their policy and their times are read. -/
def Server.converted (s : Server) (policy : Flow.Policy) (readTimeout writeTimeout : Int) : ServerOptions where
  listenAddr := Text.trim s.listenAddr
  adminAddr := Text.trim s.adminAddr
  corsOrigins := if s.corsOrigins.isEmpty then default.corsOrigins else s.corsOrigins
  schemaPath := Text.trim s.schema
  policy := some policy
  rejectNthLogon := s.rejectNthLogon.getD default.rejectNthLogon
  rejectText := if s.rejectText == "" then default.rejectText else s.rejectText
  seed := s.seed
  readTimeout := readTimeout
  writeTimeout := writeTimeout
  maxFrameBytes := if s.maxFrameBytes == 0 then default.maxFrameBytes else s.maxFrameBytes

private theorem Server.options_eq_ok {s : Server} {o : ServerOptions} :
    s.options = .ok o ↔ ∃ policy readTimeout writeTimeout, Flow.Policy.ofWord? s.policy = some policy ∧
      timeOr default.readTimeout s.readTimeout = .ok readTimeout ∧
      timeOr default.writeTimeout s.writeTimeout = .ok writeTimeout ∧
      s.converted policy readTimeout writeTimeout = o := by
  unfold options
  cases chosen : Flow.Policy.ofWord? s.policy with
  | none => simp [throw, throwThe, MonadExceptOf.throw]
  | some policy =>
    simp only [bind_eq_ok, Option.some.injEq]
    constructor
    · rintro ⟨readTimeout, read, writeTimeout, write, done⟩
      exact ⟨policy, readTimeout, writeTimeout, rfl, read, write, by cases done; rfl⟩
    · rintro ⟨_, readTimeout, writeTimeout, rfl, read, write, rfl⟩
      exact ⟨readTimeout, read, writeTimeout, write, rfl⟩

/-- The default options with the settings of a file laid over them, once its policy and its times are read. -/
def ServerFile.laid (f : ServerFile) (policy : Flow.Policy) (readTimeout writeTimeout : Int) : ServerOptions where
  listenAddr := (f.listenAddr.map Text.trim).getD default.listenAddr
  adminAddr := (f.adminAddr.map Text.trim).getD default.adminAddr
  corsOrigins := f.corsOrigins.getD default.corsOrigins
  schemaPath := (f.schema.map Text.trim).getD default.schemaPath
  policy := some policy
  rejectNthLogon := f.rejectNthLogon.getD default.rejectNthLogon
  rejectText := f.rejectText.getD default.rejectText
  seed := f.seed.getD default.seed
  readTimeout := readTimeout
  writeTimeout := writeTimeout
  maxFrameBytes := f.maxFrameBytes.getD default.maxFrameBytes

private theorem policyOf_eq_ok {word : String} {policy : Flow.Policy} :
    policyOf word = .ok policy ↔ Flow.Policy.ofWord? word = some policy := by
  cases named : Flow.Policy.ofWord? word <;> simp [policyOf, named]

private theorem overlay_eq_ok {f : ServerFile} {p : ServerOptions} :
    overlay default f = .ok p ↔ ∃ policy readTimeout writeTimeout,
      Flow.Policy.ofWord? (f.policy.getD Flow.Policy.random.word) = some policy ∧
      overlayTime "read_timeout" default.readTimeout f.readTimeout = .ok readTimeout ∧
      overlayTime "write_timeout" default.writeTimeout f.writeTimeout = .ok writeTimeout ∧
      f.laid policy readTimeout writeTimeout = p := by
  have random : Flow.Policy.ofWord? Flow.Policy.random.word = some .random := by decide +kernel
  unfold overlay
  cases f.policy with
  | none =>
    simp only [pure_bind, bind_eq_ok, Option.getD_none, random, Option.some.injEq]
    constructor
    · rintro ⟨readTimeout, read, writeTimeout, write, done⟩
      exact ⟨_, readTimeout, writeTimeout, rfl, read, write, by cases done; rfl⟩
    · rintro ⟨_, readTimeout, writeTimeout, rfl, read, write, rfl⟩
      exact ⟨readTimeout, read, writeTimeout, write, rfl⟩
  | some word =>
    simp only [bind_eq_ok, map_eq_ok, policyOf_eq_ok, Option.getD_some]
    constructor
    · rintro ⟨_, ⟨policy, named, rfl⟩, readTimeout, read, writeTimeout, write, done⟩
      exact ⟨policy, readTimeout, writeTimeout, named, read, write, by cases done; rfl⟩
    · rintro ⟨policy, readTimeout, writeTimeout, named, read, write, rfl⟩
      exact ⟨_, ⟨policy, named, rfl⟩, readTimeout, read, writeTimeout, write, rfl⟩

private theorem ofWord?_of_laid {f : ServerFile} {policy : Flow.Policy}
    (named : Flow.Policy.ofWord? (f.policy.getD Flow.Policy.random.word) = some policy) :
    Flow.Policy.ofWord? (Server.ofFile f).policy = some policy := by
  have empty : Flow.Policy.ofWord? "" = none := by decide +kernel
  unfold Server.ofFile
  cases given : f.policy with
  | none => simpa [given] using named
  | some word =>
    have written : word ≠ "" := by
      rintro rfl
      simp [given, empty] at named
    simpa [given, written] using named

/-! ## Where the defaults come in

The conversion fills in defaults for what is absent or empty, and again where its result is not set; the overlay
leaves what is given to the second time. -/

private theorem fill_twice {α : Type} [BEq α] [LawfulBEq α] (blank value : α) (given : Option α) :
    (if (if given.getD blank == blank then value else given.getD blank) == blank then value
      else if given.getD blank == blank then value else given.getD blank) =
    if given.getD value == blank then value else given.getD value := by
  cases given with
  | none => simp
  | some own => by_cases empty : own = blank <;> simp [empty]

private theorem fill_trim {value : String} (trimmed : Text.trim value = value) (given : Option String) :
    (if Text.trim (if given.getD "" == "" then value else given.getD "") == "" then value
      else Text.trim (if given.getD "" == "" then value else given.getD "")) =
    if (given.map Text.trim).getD value == "" then value else (given.map Text.trim).getD value := by
  cases given with
  | none => simp [trimmed]
  | some own => by_cases empty : own = "" <;> simp [empty, trimmed, trim_empty]

private theorem cleanOrigins_fill (given : Option (List String)) :
    ServerOptions.cleanOrigins (if (given.getD []).isEmpty then default.corsOrigins else given.getD []) =
      ServerOptions.cleanOrigins (given.getD default.corsOrigins) := by
  have cleaned : ServerOptions.cleanOrigins default.corsOrigins = ServerOptions.cleanOrigins [] := by decide +kernel
  cases given with
  | none => rfl
  | some origins =>
    cases origins with
    | nil => exact cleaned
    | cons _ _ => rfl

private theorem settled_converted {f : ServerFile} (policy : Flow.Policy) (readTimeout writeTimeout : Int)
    (schema : f.schema.isSome = true) :
    ((Server.ofFile f).converted policy readTimeout writeTimeout).settled =
      (f.laid policy readTimeout writeTimeout).settled := by
  obtain ⟨path, named⟩ := Option.isSome_iff_exists.mp schema
  have adminAddr : Text.trim (f.adminAddr.getD "") = (f.adminAddr.map Text.trim).getD "" := by
    cases f.adminAddr with
    | none => exact trim_empty
    | some address => rfl
  simp only [ServerOptions.settled, ServerOptions.withDefaults, Server.converted, ServerFile.laid, Server.ofFile,
    named, Option.getD_some, Option.map_some, ServerOptions.mk.injEq, true_and]
  exact ⟨fill_trim (by decide +kernel) _, adminAddr, cleanOrigins_fill _, fill_twice _ _ _, rfl, fill_twice _ _ _⟩

/-! ## Both ways at once -/

private theorem Server.validate_of_isChecked {s : Server} (checked : s.IsChecked) : s.validate = .ok () := by
  obtain ⟨policy, named⟩ := checked.policy
  have frames : ¬(s.maxFrameBytes ≠ 0 ∧ s.maxFrameBytes < leastFrameBytes) := by
    have room := checked.maxFrameBytes
    omega
  unfold validate
  simp only [beq_iff_eq, bne_iff_ne, ne_eq, Bool.and_eq_true, decide_eq_true_eq, checked.listenAddr, checked.schema,
    named, Option.isNone_some, Bool.false_eq_true, checked.readTimeout, checked.writeTimeout, frames, if_false]
  rfl

private theorem exists_policy_iff {given : Option String} :
    (∃ policy, Flow.Policy.ofWord? (given.getD Flow.Policy.random.word) = some policy) ↔
      ∀ word ∈ given, ∃ policy, Flow.Policy.ofWord? word = some policy := by
  cases given with
  | none =>
    have random : Flow.Policy.ofWord? Flow.Policy.random.word = some .random := by decide +kernel
    simp [random]
  | some word => simp

private theorem checkDuration_getD {key : String} {given : Option String}
    (read : ∀ text ∈ given, ∃ n, Duration.parse (Text.trim text) = .ok n) :
    checkDuration key (given.getD "") = .ok () := by
  rw [checkDuration_eq_ok]
  cases given with
  | none => exact .inl trim_empty
  | some text => exact .inr (read text rfl)

private theorem ServerFile.IsCommon.isChecked {f : ServerFile} (common : f.IsCommon) :
    (Server.ofFile f).IsChecked where
  listenAddr := by
    have address : Text.trim ServerOptions.defaultListenAddr ≠ "" := by decide +kernel
    unfold Server.ofFile
    cases given : f.listenAddr with
    | none => simpa using address
    | some own =>
      by_cases empty : own = ""
      · simpa [empty] using address
      · have solid : Text.trim own ≠ "" := fun nothing =>
          common.listenAddr own given ⟨empty, (Text.trim_eq_empty_iff own).mp nothing⟩
        simpa [empty] using solid
  schema := by
    obtain ⟨path, given, solid⟩ := common.schema
    simpa [Server.ofFile, Option.mem_def.mp given] using solid
  policy := (exists_policy_iff.mpr common.policy).imp fun _ named => ofWord?_of_laid named
  readTimeout := checkDuration_getD common.readTimeout
  writeTimeout := checkDuration_getD common.writeTimeout
  maxFrameBytes := by
    unfold Server.ofFile
    cases given : f.maxFrameBytes with
    | none => exact .inl rfl
    | some n => exact common.maxFrameBytes n given

/-- Both ways lead to options exactly for the settings that are common to them. -/
theorem isCommon_iff {f : ServerFile} :
    ((Server.ofFile f).validate = .ok () ∧ (∃ o, (Server.ofFile f).options = .ok o) ∧
      ∃ p, overlay default f = .ok p) ↔ f.IsCommon := by
  constructor
  · rintro ⟨valid, -, p, laid⟩
    have checked := Server.isChecked_of_validate valid
    obtain ⟨policy, readTimeout, writeTimeout, named, read, write, -⟩ := overlay_eq_ok.mp laid
    refine ⟨?_, ?_, exists_policy_iff.mp ⟨_, named⟩, exists_overlayTime_iff.mp ⟨_, read⟩,
      exists_overlayTime_iff.mp ⟨_, write⟩, ?_⟩
    · rintro own given ⟨written, blank⟩
      have solid := checked.listenAddr
      simp [Server.ofFile, Option.mem_def.mp given, written, (Text.trim_eq_empty_iff own).mpr blank] at solid
    · have solid := checked.schema
      cases given : f.schema with
      | none => simp [Server.ofFile, given, trim_empty] at solid
      | some path => exact ⟨path, rfl, by simpa [Server.ofFile, given] using solid⟩
    · intro n given
      simpa [Server.ofFile, Option.mem_def.mp given] using checked.maxFrameBytes
  · intro common
    obtain ⟨policy, named⟩ := exists_policy_iff.mpr common.policy
    obtain ⟨readTimeout, read⟩ := exists_overlayTime_iff.mpr common.readTimeout
    obtain ⟨writeTimeout, write⟩ := exists_overlayTime_iff.mpr common.writeTimeout
    exact ⟨Server.validate_of_isChecked common.isChecked,
      ⟨_, Server.options_eq_ok.mpr ⟨policy, readTimeout, writeTimeout, ofWord?_of_laid named,
        timeOr_of_overlayTime read, timeOr_of_overlayTime write, rfl⟩⟩,
      ⟨_, overlay_eq_ok.mpr ⟨policy, readTimeout, writeTimeout, named, read, write, rfl⟩⟩⟩

/-- Whatever the overlay makes of the settings in a file that names a schema, the conversion makes the same of it. -/
theorem settled_of_overlay {f : ServerFile} {o p : ServerOptions} (schema : f.schema.isSome = true)
    (converted : (Server.ofFile f).options = .ok o) (laid : overlay default f = .ok p) : o.settled = p.settled := by
  obtain ⟨policy, readTimeout, writeTimeout, named, read, write, rfl⟩ := overlay_eq_ok.mp laid
  have done : (Server.ofFile f).options = .ok ((Server.ofFile f).converted policy readTimeout writeTimeout) :=
    Server.options_eq_ok.mpr ⟨policy, readTimeout, writeTimeout, ofWord?_of_laid named, timeOr_of_overlayTime read,
      timeOr_of_overlayTime write, rfl⟩
  rw [converted, Except.ok.injEq] at done
  rw [done]
  exact settled_converted policy readTimeout writeTimeout schema

end Settings

end TradeWire
