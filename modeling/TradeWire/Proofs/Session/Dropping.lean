import TradeWire.Proofs.Session.Alike
import TradeWire.Proofs.Session.Output

/-! A frame that a session cannot decode is told of and otherwise ignored. -/

set_option autoImplicit false
set_option relaxedAutoImplicit false

namespace TradeWire

/-- Whether the registry can read a frame as a message. -/
def Registry.decodes (g : Registry) (frame : Bytes) : Bool := (g.unpack frame 0).isOk

namespace Session

section Steps

variable {p : Protocol} (o : ServerOptions) (logon : Nat) {frame : Bytes} {s t : State}

private theorem receive_of_undecodable (dropped : p.registry.decodes frame = false) (s : State) :
    ∃ mid, s.Alike mid ∧ receive p frame s = (mid, none) := by
  unfold Registry.decodes at dropped
  unfold receive
  cases read : p.registry.unpack frame 0 with
  | error fault => exact ⟨_, .tell s _, rfl⟩
  | ok answer => simp [read, Except.isOk, Except.toBool] at dropped

private theorem receive_of_decodable (decoded : p.registry.decodes frame = true) :
    ∃ request, ∀ s : State, ∃ mid, s.Alike mid ∧ receive p frame s = (mid, some request) := by
  unfold Registry.decodes at decoded
  unfold receive
  cases read : p.registry.unpack frame 0 with
  | error fault => simp [read, Except.isOk, Except.toBool] at decoded
  | ok answer =>
    obtain ⟨request, size⟩ := answer
    refine ⟨request.trim, fun s => ?_⟩
    have told := (State.Alike.tell s (.received request.trim.name request.trim.sequence?)).trans
      (.tell _ (.content request.trim.format))
    simp only
    cases p.validate request.trim with
    | error fault => exact ⟨_, told.trans (.tell _ _), rfl⟩
    | ok => exact ⟨_, told, rfl⟩

/-- A frame that cannot be decoded changes nothing but the events. -/
theorem step_of_undecodable (dropped : p.registry.decodes frame = false) (s : State) :
    ∃ mid, s.Alike mid ∧ step p o logon frame s = (mid, .live) := by
  obtain ⟨mid, alike, received⟩ := receive_of_undecodable dropped s
  refine ⟨mid, alike, ?_⟩
  unfold step
  rw [received]

private theorem step_of_received {mid : State} {request : Record}
    (received : receive p frame s = (mid, some request)) :
    step p o logon frame s =
      if (logon : Int) = o.rejectNthLogon then reject p o mid else respond p o request mid := by
  unfold step
  rw [received]

/-- The session whose number is to be rejected rejects whatever it can decode. -/
theorem step_of_rejected (ordinal : (logon : Int) = o.rejectNthLogon)
    (decoded : p.registry.decodes frame = true) (s : State) :
    ∃ mid, s.Alike mid ∧ step p o logon frame s = reject p o mid := by
  obtain ⟨request, receives⟩ := receive_of_decodable decoded
  obtain ⟨mid, alike, received⟩ := receives s
  exact ⟨mid, alike, (step_of_received o logon received).trans (if_pos ordinal)⟩

private theorem agree_step (frame : Bytes) (alike : s.Alike t) :
    Agree (step p o logon frame s) (step p o logon frame t) := by
  cases decoded : p.registry.decodes frame with
  | false =>
    obtain ⟨mid, first, one⟩ := step_of_undecodable o logon decoded s
    obtain ⟨mid', second, other⟩ := step_of_undecodable o logon decoded t
    rw [one, other]
    exact ⟨(first.symm.trans alike).trans second, rfl⟩
  | true =>
    obtain ⟨request, receives⟩ := receive_of_decodable decoded
    obtain ⟨mid, first, one⟩ := receives s
    obtain ⟨mid', second, other⟩ := receives t
    have received := (first.symm.trans alike).trans second
    rw [step_of_received o logon one, step_of_received o logon other]
    split
    · exact agree_reject p o received
    · exact agree_respond p o request received

private theorem agree_stepAll (frames : List Bytes) (alike : s.Alike t) :
    Agree (stepAll p o logon frames s) (stepAll p o logon (frames.filter p.registry.decodes) t) := by
  induction frames generalizing s t with
  | nil => exact ⟨alike, rfl⟩
  | cons frame later ih =>
    cases decoded : p.registry.decodes frame with
    | false =>
      obtain ⟨mid, dropped, stepped⟩ := step_of_undecodable o logon decoded s
      rw [List.filter_cons_of_neg (by simp [decoded]), stepAll_cons, stepped]
      exact ih (dropped.symm.trans alike)
    | true =>
      obtain ⟨mid, mid', progress, one, other, after⟩ :=
        (agree_step (p := p) o logon frame alike).split
      rw [List.filter_cons_of_pos decoded, stepAll_cons, stepAll_cons, one, other]
      match progress with
      | .live => exact ih after
      | .over outcome => exact ⟨after, rfl⟩

private theorem stepAll_of_undecodable {frames : List Bytes}
    (dropped : ∀ frame ∈ frames, p.registry.decodes frame = false) (s : State) :
    ∃ last, s.Alike last ∧ stepAll p o logon frames s = (last, .live) := by
  induction frames generalizing s with
  | nil => exact ⟨s, .refl s, rfl⟩
  | cons frame later ih =>
    obtain ⟨mid, alike, stepped⟩ :=
      step_of_undecodable o logon (dropped frame (by simp)) s
    obtain ⟨last, still, rest⟩ := ih (fun other behind => dropped other (by simp [behind])) mid
    exact ⟨last, alike.trans still, by rw [stepAll_cons, stepped]; exact rest⟩

private theorem reject_over (s : State) : ∃ outcome, (reject p o s).2 = .over outcome := by
  unfold reject
  split
  · exact ⟨_, rfl⟩
  · split
    · exact ⟨_, rfl⟩
    · exact ⟨_, rfl⟩

private theorem stepAll_of_rejected (ordinal : (logon : Int) = o.rejectNthLogon) {before : List Bytes}
    (dropped : ∀ frame ∈ before, p.registry.decodes frame = false)
    (decoded : p.registry.decodes frame = true) (s : State) :
    ∃ mid outcome, s.Alike mid ∧ (reject p o mid).2 = .over outcome ∧
      ∀ after, stepAll p o logon (before ++ frame :: after) s = reject p o mid := by
  induction before generalizing s with
  | nil =>
    obtain ⟨mid, alike, stepped⟩ := step_of_rejected o logon ordinal decoded s
    obtain ⟨outcome, ended⟩ := reject_over (p := p) o mid
    refine ⟨mid, outcome, alike, ended, fun after => ?_⟩
    rw [List.nil_append, stepAll_cons, stepped]
    generalize reject p o mid = out at ended
    obtain ⟨last, progress⟩ := out
    obtain rfl : progress = .over outcome := ended
    rfl
  | cons first later ih =>
    obtain ⟨next, alike, stepped⟩ :=
      step_of_undecodable o logon (dropped first (by simp)) s
    obtain ⟨mid, outcome, still, ended, rejects⟩ :=
      ih (fun other behind => dropped other (by simp [behind])) next
    refine ⟨mid, outcome, alike.trans still, ended, fun after => ?_⟩
    rw [List.cons_append, stepAll_cons, stepped]
    exact rejects after

end Steps

private theorem serve_flatten (p : Protocol) {o : ServerOptions} (logon : Nat) {frames : List Bytes}
    (whole : ∀ frame ∈ frames, Frame.check o.maxFrameBytes frame = .ok ()) (s : State) :
    serve p o logon frames.flatten s =
      match stepAll p o logon frames s with
      | (last, .over outcome) => (last, outcome)
      | (last, .live) => (last, .ok ()) := by
  unfold serve
  rw [Frame.readAll_flatten whole]
  rfl

private theorem agree_serve (p : Protocol) {o : ServerOptions} (logon : Nat) {frames : List Bytes}
    (whole : ∀ frame ∈ frames, Frame.check o.maxFrameBytes frame = .ok ()) (s : State) :
    Agree (serve p o logon frames.flatten s)
      (serve p o logon (frames.filter p.registry.decodes).flatten s) := by
  have kept : ∀ frame ∈ frames.filter p.registry.decodes, Frame.check o.maxFrameBytes frame = .ok () :=
    fun frame member => whole frame (List.mem_of_mem_filter member)
  obtain ⟨last, last', progress, one, other, alike⟩ :=
    (agree_stepAll (p := p) o logon frames (State.Alike.refl s)).split
  rw [serve_flatten p logon whole, serve_flatten p logon kept, one, other]
  match progress with
  | .live | .over outcome => exact ⟨alike, rfl⟩

private theorem carriedNumber?_of_takes {r : Record} {n : UInt64}
    (takes : ∀ j raw, r.layout.takesNumber? n = some (j, raw) → nestedRaw r.slots 1 j = raw)
    {carried : UInt64} (carries : r.carriedNumber? = some carried) : carried = n := by
  obtain ⟨⟨j, size, form⟩, field, number⟩ := Option.bind_eq_some_iff.mp carries
  cases unsigned : form.isSigned with
  | true => simp [unsigned] at number
  | false =>
    obtain rfl : nestedRaw r.slots 1 j = carried := by simpa [unsigned] using number
    exact takes j n (by simp [Layout.takesNumber?, field, IntForm.pattern?, unsigned])

/-- A frame holds the message that rejects a session which begins in this state: it is read back as a
`Reject`, with the number of the state if it carries an unsigned one in a structure of a plain name. -/
def IsReject (p : Protocol) (o : ServerOptions) (s : State) (frame : Bytes) : Prop :=
  ∃ r answer, rejectRecord p.registry o.rejectText = .ok r ∧
    p.registry.lookupName? "Reject" = some r.layout ∧ (prepared r s).pack = .ok frame ∧
      p.registry.unpack frame 0 = .ok (answer, frame.length) ∧ answer.layout = r.layout ∧
        ((∀ f, r.layout.fields[1]? = some f → Record.IsPlain f.name) →
          ∀ number, answer.carriedNumber? = some number → number = s.sequence)

private theorem reject_writes {document : Bytes} {p : Protocol} (parsed : Protocol.parse document = .ok p)
    (o : ServerOptions) (s : State) :
    (reject p o s).1.written = s.written ∨
      ∃ frame, (reject p o s).1.written = s.written ++ [frame] ∧ IsReject p o s frame := by
  have sound := Protocol.isSound_of_parse parsed
  have headed := Protocol.isHeaded_of_parse parsed
  unfold reject
  cases made : rejectRecord p.registry o.rejectText with
  | error fault => exact .inl rfl
  | ok r =>
    obtain ⟨draft, found⟩ := isDraft_of_rejectRecord headed made
    have writes := send_writes sound headed draft o.maxFrameBytes s
    have numbers := fun good => send_numbers (r := r) good headed draft o.maxFrameBytes s
    simp only
    generalize send o.maxFrameBytes r s = out at writes numbers
    obtain ⟨next, outcome⟩ := out
    cases outcome with
    | error fault => exact .inl writes
    | ok ready =>
      obtain ⟨rfl, same, frame, written, isWritten⟩ := writes
      refine .inr ⟨frame, written, r, _, made, found, isWritten.packed, (isWritten.unpack sound).1, same, ?_⟩
      intro plain number carries
      have good := Protocol.isStampable_of_parse parsed draft.member plain
      rw [Record.carriedNumber?_filled (same ▸ good.sound) isWritten.ready.reached.hasShape.2] at carries
      exact carriedNumber?_of_takes (fun j raw taken => (numbers good).2 j raw (same ▸ taken)) carries

private theorem IsReject.of_alike {p : Protocol} {o : ServerOptions} {s t : State} {frame : Bytes}
    (alike : s.Alike t) (holds : IsReject p o t frame) : IsReject p o s frame := by
  have same : ∀ r, prepared r t = prepared r s := fun r => by
    simp only [prepared, alike.sequence, alike.times]
  simpa only [IsReject, same, alike.sequence] using holds

/-- A schema of one message, the reject, whose structure behind the header has the given name. -/
def rejectDocument (behind : String) : Bytes := List.flatMap Text.encodeUtf8
  ["<Model><DataTypes><DataType name='U' rootType='int' size='4' minValue='0'>",
    "<ValidValue name='Other' value='9'/></DataType>",
    "<DataType name='T' rootType='String' size='2'/></DataTypes>",
    "<Structures><Structure name='MessageHeaderComp' type='Component'>",
    "<Member name='BodyLen' type='U' cardinality='1'/>",
    "<Member name='TemplateID' type='U' cardinality='1'/></Structure>",
    "<Structure name='Part' type='Component'>",
    "<Member name='MsgSeqNum' type='U' cardinality='1'/></Structure>",
    "<Structure name='Reject' type='Message' numericID='2'>",
    "<Member name='Header' type='MessageHeaderComp' cardinality='1'/>",
    "<Member name='", behind, "' type='Part' cardinality='1'/>",
    "<Member name='SessionRejectReason' type='U' cardinality='1'/>",
    "<Member name='VarText' type='T' cardinality='1'/></Structure></Structures></Model>"]

/-- The options of a server that rejects its first session. -/
def rejecting : ServerOptions :=
  { ServerOptions.default with policy := some .firstMatch, rejectNthLogon := 0, rejectText := "no" }

def strayBytes : Bytes := [8, 0, 0, 0, 9, 0, 0, 0]

/-- A frame with the id of the reject and nothing else in it. -/
def blankBytes : Bytes := [18, 0, 0, 0, 2, 0, 0, 0, 0, 0, 0, 0, 0, 0, 0, 0, 0, 0]

def rejectBytes (number : UInt8) : Bytes :=
  [18, 0, 0, 0, 2, 0, 0, 0, number, 0, 0, 0, 9, 0, 0, 0, 110, 111]

/-- A session rejects its first request with the sequence number one, where the name of the structure that
has it is plain, and otherwise with no number. -/
private theorem exists_rejected : ∀ names ∈ [("Session", (1 : UInt8)), ("Session.Part", 0)], ∃ p answer,
    Protocol.parse (rejectDocument names.1) = .ok p ∧ p.registry.decodes blankBytes = true ∧
      p.registry.decodes strayBytes = false ∧
      (serve p rejecting 0 [strayBytes, blankBytes, blankBytes].flatten (.start [] [])).1.written =
        [rejectBytes names.2] ∧
      p.registry.unpack (rejectBytes names.2) 0 = .ok (answer, 18) ∧ answer.name = "Reject" ∧
        answer.carriedNumber? = some (UInt64.ofNat names.2.toNat) := by
  -- both schemas are read in one evaluation, which shares what they have in common
  have check : ([("Session", (1 : UInt8)), ("Session.Part", 0)].all fun (behind, number) =>
      (Protocol.parse (rejectDocument behind)).toOption.any fun p =>
        p.registry.decodes blankBytes && !p.registry.decodes strayBytes &&
        (serve p rejecting 0 [strayBytes, blankBytes, blankBytes].flatten (.start [] [])).1.written ==
          [rejectBytes number] &&
        (p.registry.unpack (rejectBytes number) 0).toOption.any fun (answer, stop) => stop == 18 &&
          answer.name == "Reject" && answer.carriedNumber? == some (UInt64.ofNat number.toNat)) = true := by
    unfold rejectDocument
    rw [Text.encodeUtf8_eq]
    decide +kernel
  intro names listed
  have one := List.all_eq_true.mp check names listed
  simp only [Option.any_eq_true, toOption_eq_some, Bool.and_eq_true, Bool.not_eq_true', beq_iff_eq,
    Prod.exists] at one
  obtain ⟨p, parsed, ⟨⟨decoded, dropped⟩, written⟩, answer, stop, read, ⟨rfl, named⟩, carried⟩ := one
  exact ⟨p, answer, parsed, decoded, dropped, written, read, named, carried⟩

/-- Frames that cannot be decoded are invisible, and a rejected session speaks once at most. Whatever a
session is sent and whichever times and choices it is given, it writes the same frames, is left with the same
sequence number and ends in the same way as without the frames it cannot decode. The session whose number is
to be rejected writes nothing until it can decode a frame; that frame ends it, so that nothing behind it has
an effect, and is answered by one reject, as it is sent, or by nothing. The reject has the sequence number one
if it carries an unsigned number, in a structure whose name is plain. -/
theorem serve_drops_undecodable {document : Bytes} {p : Protocol} (parsed : Protocol.parse document = .ok p)
    (o : ServerOptions) (logon : Nat) (times : List UInt64) (draws : List Flow.Draws) {frames : List Bytes}
    (whole : ∀ frame ∈ frames, Frame.check o.maxFrameBytes frame = .ok ()) :
    Agree (serve p o logon frames.flatten (.start times draws))
        (serve p o logon (frames.filter p.registry.decodes).flatten (.start times draws)) ∧
      ((logon : Int) = o.rejectNthLogon →
        ((∀ frame ∈ frames, p.registry.decodes frame = false) →
          (serve p o logon frames.flatten (.start times draws)).1.written = []) ∧
        ∀ before first after, frames = before ++ first :: after →
          (∀ frame ∈ before, p.registry.decodes frame = false) → p.registry.decodes first = true →
            (∃ outcome, ∀ later, (stepAll p o logon (before ++ first :: later) (.start times draws)).2 =
              .over outcome) ∧
            serve p o logon frames.flatten (.start times draws) =
              serve p o logon (before ++ [first]).flatten (.start times draws) ∧
            ((serve p o logon frames.flatten (.start times draws)).1.written = [] ∨
              ∃ frame, (serve p o logon frames.flatten (.start times draws)).1.written = [frame] ∧
                IsReject p o (.start times draws) frame)) := by
  refine ⟨agree_serve p logon whole _, fun ordinal => ⟨?_, ?_⟩⟩
  · intro dropped
    obtain ⟨last, alike, handled⟩ :=
      stepAll_of_undecodable o logon dropped (.start times draws)
    rw [serve_flatten p logon whole, handled]
    exact alike.written
  · rintro before first after rfl dropped decoded
    have front : ∀ frame ∈ before ++ [first], Frame.check o.maxFrameBytes frame = .ok () := by
      intro frame member
      refine whole frame ?_
      rcases List.mem_append.mp member with early | last
      · simp [early]
      · simp [List.mem_singleton.mp last]
    obtain ⟨mid, outcome, alike, ended, handled⟩ :=
      stepAll_of_rejected o logon ordinal dropped decoded (.start times draws)
    have stops : ∀ later, (∀ frame ∈ before ++ first :: later, Frame.check o.maxFrameBytes frame = .ok ()) →
        serve p o logon (before ++ first :: later).flatten (.start times draws) =
          ((reject p o mid).1, outcome) := by
      intro later checked
      rw [serve_flatten p logon checked, handled later]
      generalize reject p o mid = out at ended
      obtain ⟨last, progress⟩ := out
      obtain rfl : progress = .over outcome := ended
      rfl
    refine ⟨⟨outcome, fun later => by rw [handled later, ended]⟩, ?_, ?_⟩
    · rw [stops after whole, stops [] front]
    · rw [stops after whole]
      rcases reject_writes parsed o mid with nothing | ⟨frame, written, holds⟩
      · exact .inl (nothing.trans alike.written)
      · rw [alike.written] at written
        exact .inr ⟨frame, written, holds.of_alike alike⟩

/-- A stray frame is dropped, the request behind it is rejected with the number one, and the request behind
that is never looked at. -/
theorem stray_serve_drops_undecodable : ∃ p, Protocol.parse (rejectDocument "Session") = .ok p ∧
    (∀ frame ∈ [strayBytes, blankBytes, blankBytes], Frame.check rejecting.maxFrameBytes frame = .ok ()) ∧
      ((0 : Nat) : Int) = rejecting.rejectNthLogon ∧
      (serve p rejecting 0 [strayBytes, blankBytes, blankBytes].flatten (.start [] [])).1.written =
        [rejectBytes 1] ∧
      Agree (serve p rejecting 0 [strayBytes, blankBytes, blankBytes].flatten (.start [] []))
        (serve p rejecting 0 [blankBytes, blankBytes].flatten (.start [] [])) ∧
      serve p rejecting 0 [strayBytes, blankBytes, blankBytes].flatten (.start [] []) =
        serve p rejecting 0 [strayBytes, blankBytes].flatten (.start [] []) ∧
      IsReject p rejecting (.start [] []) (rejectBytes 1) := by
  obtain ⟨p, _, parsed, decoded, dropped, written, _⟩ := exists_rejected ("Session", 1) (by simp)
  have whole : ∀ frame ∈ [strayBytes, blankBytes, blankBytes],
      Frame.check rejecting.maxFrameBytes frame = .ok () := by decide
  obtain ⟨invisible, rejected⟩ := serve_drops_undecodable parsed rejecting 0 [] [] whole
  obtain ⟨_, stops⟩ := rejected rfl
  obtain ⟨_, deaf, reply⟩ := stops [strayBytes] blankBytes [blankBytes] rfl (by simpa using dropped) decoded
  refine ⟨p, parsed, whole, rfl, written, ?_, deaf, ?_⟩
  · simpa [decoded, dropped] using invisible
  · rw [written] at reply
    rcases reply with nothing | ⟨frame, same, holds⟩
    · cases nothing
    · cases same
      exact holds

/-- Where the name of the structure behind the header has a dot in it, the reject goes out without a number:
no path leads to the number it carries. -/
theorem reject_unnumbered_behind_dot : ∃ p answer,
    Protocol.parse (rejectDocument "Session.Part") = .ok p ∧ rejecting.policy = some .firstMatch ∧
      ((0 : Nat) : Int) = rejecting.rejectNthLogon ∧
      (∀ frame ∈ [strayBytes, blankBytes, blankBytes], Frame.check rejecting.maxFrameBytes frame = .ok ()) ∧
      (serve p rejecting 0 [strayBytes, blankBytes, blankBytes].flatten (.start [] [])).1.written =
        [rejectBytes 0] ∧
      p.registry.unpack (rejectBytes 0) 0 = .ok (answer, 18) ∧ answer.name = "Reject" ∧
        ¬∀ number, answer.carriedNumber? = some number → number = 1 := by
  obtain ⟨p, answer, parsed, _, _, written, read, named, carried⟩ :=
    exists_rejected ("Session.Part", 0) (by simp)
  refine ⟨p, answer, parsed, rfl, rfl, by decide, written, read, named, ?_⟩
  intro numbered
  exact absurd (numbered _ carried) (by decide)

end Session

end TradeWire
