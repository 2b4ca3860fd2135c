import TradeWire.Proofs.Data.Related
import TradeWire.Settings.Load

/-! Checked settings are converted unless a length of time is blank. -/

set_option autoImplicit false
set_option relaxedAutoImplicit false

namespace TradeWire

def Text.IsMereBlanks (s : String) : Prop := s ≠ "" ∧ isBlankText s = true

instance (s : String) : Decidable (Text.IsMereBlanks s) := inferInstanceAs (Decidable (_ ∧ _))

theorem Text.trim_eq_empty_iff (s : String) : trim s = "" ↔ isBlankText s = true := by
  have ends : trim s = "" ↔ (s.toList.dropWhile isBlank).rdropWhile isBlank = [] := by
    have dropped : trim s = String.ofList ((s.toList.dropWhile isBlank).rdropWhile isBlank) := rfl
    rw [dropped, ← String.toList_inj, String.toList_ofList, String.toList_empty]
  rw [ends, List.rdropWhile_eq_nil_iff, isBlankText, List.all_eq_true]
  constructor
  · intro blank
    -- what the first blanks leave starts with no blank, so that it is empty
    cases rest : s.toList.dropWhile isBlank with
    | nil => exact List.dropWhile_eq_nil_iff.mp rest
    | cons c cs =>
      have solid := List.head?_dropWhile_not isBlank s.toList
      rw [rest] at solid blank
      simp [blank c (by simp)] at solid
  · intro blank c member
    exact blank c ((List.dropWhile_sublist isBlank).mem member)

/-- Options a server can start with: an address to listen at, a schema, a policy, and frames that have room for
more than their length. -/
structure ServerOptions.IsUsable (o : ServerOptions) : Prop where
  listenAddr : o.listenAddr ≠ ""
  schemaPath : o.schemaPath ≠ ""
  policy : o.policy.isSome = true
  maxFrameBytes : Settings.Server.leastFrameBytes ≤ o.maxFrameBytes

namespace Settings

/-- A text that passes the check for lengths of time is one, or is left out. -/
theorem checkDuration_eq_ok {key text : String} :
    checkDuration key text = .ok () ↔
      Text.trim text = "" ∨ ∃ n, Duration.parse (Text.trim text) = .ok n := by
  unfold checkDuration
  by_cases blank : Text.trim text = ""
  · simp [blank]
  · cases Duration.parse (Text.trim text) with
    | error fault => simp [blank]
    | ok n => simp [blank]

private theorem timeOr_of_checkDuration {key text : String} (unset : Int)
    (checked : checkDuration key text = .ok ()) :
    (¬Text.IsMereBlanks text ∧ ∃ n, Server.timeOr unset text = .ok n) ∨
      (Text.IsMereBlanks text ∧ Server.timeOr unset text = .error (.duration ⟨"", .malformed⟩)) := by
  have nothing : Duration.parse "" = .error ⟨"", .malformed⟩ := rfl
  unfold Server.timeOr
  by_cases empty : text = ""
  · left
    simp [empty, Text.IsMereBlanks]
  · rcases checkDuration_eq_ok.mp checked with blank | ⟨n, read⟩
    · right
      refine ⟨⟨empty, (Text.trim_eq_empty_iff text).mp blank⟩, ?_⟩
      simp only [beq_iff_eq, empty, if_false, blank, nothing]
    · left
      refine ⟨?_, n, by simp only [beq_iff_eq, empty, if_false, read]⟩
      rintro ⟨_, blanks⟩
      rw [(Text.trim_eq_empty_iff text).mpr blanks, nothing] at read
      cases read

namespace Server

/-- What the check of the settings of a server asks for. -/
structure IsChecked (s : Server) : Prop where
  listenAddr : Text.trim s.listenAddr ≠ ""
  schema : Text.trim s.schema ≠ ""
  policy : ∃ policy, Flow.Policy.ofWord? s.policy = some policy
  readTimeout : checkDuration "read_timeout" s.readTimeout = .ok ()
  writeTimeout : checkDuration "write_timeout" s.writeTimeout = .ok ()
  maxFrameBytes : s.maxFrameBytes = 0 ∨ leastFrameBytes ≤ s.maxFrameBytes

theorem isChecked_of_validate {s : Server} (valid : s.validate = .ok ()) : s.IsChecked := by
  unfold validate at valid
  simp only [throw, throwThe, MonadExceptOf.throw, pure, Except.pure, bind, Except.bind] at valid
  split at valid
  · cases valid
  rename_i listens
  split at valid
  · cases valid
  rename_i named
  split at valid
  · cases valid
  rename_i chosen
  split at valid
  · cases valid
  rename_i reads
  split at valid
  · cases valid
  rename_i writes
  split at valid
  · cases valid
  rename_i frames
  refine ⟨by simpa using listens, by simpa using named, ?_, reads, writes, ?_⟩
  · exact Option.ne_none_iff_exists'.mp (by simpa using chosen)
  · simpa [Decidable.or_iff_not_imp_left] using frames

def HasBlankTime (s : Server) : Prop := Text.IsMereBlanks s.readTimeout ∨ Text.IsMereBlanks s.writeTimeout

instance (s : Server) : Decidable s.HasBlankTime := inferInstanceAs (Decidable (_ ∨ _))

/-- What checked settings are converted to, or the one fault that is left. -/
theorem options_of_isChecked {s : Server} (checked : s.IsChecked) :
    (¬s.HasBlankTime ∧ ∃ o, s.options = .ok o ∧ o.IsUsable) ∨
      (s.HasBlankTime ∧ s.options = .error (.duration ⟨"", .malformed⟩)) := by
  obtain ⟨policy, chosen⟩ := checked.policy
  have frames : leastFrameBytes ≤
      if s.maxFrameBytes == 0 then ServerOptions.default.maxFrameBytes else s.maxFrameBytes := by
    split
    · decide
    · rename_i set
      exact checked.maxFrameBytes.resolve_left (by simpa using set)
  simp only [HasBlankTime, options, chosen]
  rcases timeOr_of_checkDuration ServerOptions.default.readTimeout checked.readTimeout with
    ⟨reads, n, read⟩ | ⟨blank, failed⟩
  · rcases timeOr_of_checkDuration ServerOptions.default.writeTimeout checked.writeTimeout with
      ⟨writes, k, write⟩ | ⟨blank, failed⟩
    · left
      rw [read, write]
      exact ⟨not_or.mpr ⟨reads, writes⟩, _, rfl, checked.listenAddr, checked.schema, rfl, frames⟩
    · right
      rw [read, failed]
      exact ⟨.inr blank, rfl⟩
  · right
    rw [failed]
    exact ⟨.inl blank, rfl⟩

private theorem validate_of_load {read : Reader ServerFile} {document : Option String} {s : Server}
    (loaded : load read document = .ok s) : s.validate = .ok () := by
  obtain ⟨f, _, loaded⟩ := bind_eq_ok.mp loaded
  obtain ⟨_, valid, same⟩ := bind_eq_ok.mp loaded
  cases same
  exact valid

/-- Checked settings convert to options unless one of their times consists of blanks, and that is the only
fault they can have; the options name an address and a schema, have a policy and let messages through. Whatever
is loaded, by any reader, is checked, so that the same holds of it. -/
theorem options_of_validate (s : Server) :
    (s.validate = .ok () →
      ((∃ o, s.options = .ok o) ↔ ¬s.HasBlankTime) ∧
      (∀ o, s.options = .ok o → o.IsUsable) ∧
      ∀ fault, s.options = .error fault → fault = .duration ⟨"", .malformed⟩) ∧
    ∀ read document, load read document = .ok s → s.validate = .ok () ∧
      ((∃ o, s.options = .ok o) ↔ ¬s.HasBlankTime) := by
  constructor
  · intro valid
    rcases options_of_isChecked (isChecked_of_validate valid) with ⟨timed, o, done, usable⟩ | ⟨blank, failed⟩
    · simp [done, timed, usable]
    · simp [failed, blank]
  · intro read document loaded
    have valid := validate_of_load loaded
    refine ⟨valid, ?_⟩
    rcases options_of_isChecked (isChecked_of_validate valid) with ⟨timed, o, done, _⟩ | ⟨blank, failed⟩
    · simp [done, timed]
    · simp [failed, blank]

/-- Settings that give one time with a blank in front, and the other one as an empty text. -/
def timedDocument : String :=
  "schema = \"eti.xml\"\nread_timeout = \" 30s\"\nwrite_timeout = \"\"\nmax_frame_bytes = 8"

def blankDocument : String := "schema = \"eti.xml\"\nread_timeout = \" \""

theorem timed_options_of_validate : ∃ s o, load ServerFile.selective (some timedDocument) = .ok s ∧ s.validate = .ok () ∧
    ¬s.HasBlankTime ∧ s.options = .ok o ∧ o.IsUsable := by
  have run : ((load ServerFile.selective (some timedDocument)).toOption.any fun s => !decide s.HasBlankTime) = true := by
    decide +kernel
  simp only [Option.any_eq_true, toOption_eq_some, Bool.not_eq_true', decide_eq_false_iff_not] at run
  obtain ⟨s, loaded, timed⟩ := run
  obtain ⟨checked, whole⟩ := options_of_validate s
  obtain ⟨valid, converts⟩ := whole _ _ loaded
  obtain ⟨o, done⟩ := converts.mpr timed
  exact ⟨s, o, loaded, valid, timed, done, (checked valid).2.1 o done⟩

/-- Settings with a time of blanks pass the check, and do not convert. -/
theorem load_accepts_blank_time : ∃ s, load ServerFile.selective (some blankDocument) = .ok s ∧ s.validate = .ok () ∧
    s.options = .error (.duration ⟨"", .malformed⟩) := by
  have run : ((load ServerFile.selective (some blankDocument)).toOption.any fun s => decide s.HasBlankTime) = true := by
    decide +kernel
  simp only [Option.any_eq_true, toOption_eq_some, decide_eq_true_eq] at run
  obtain ⟨s, loaded, blank⟩ := run
  have valid := validate_of_load loaded
  rcases options_of_isChecked (isChecked_of_validate valid) with ⟨timed, _⟩ | ⟨_, failed⟩
  · exact absurd blank timed
  · exact ⟨s, loaded, valid, failed⟩

end Server

end Settings

end TradeWire
