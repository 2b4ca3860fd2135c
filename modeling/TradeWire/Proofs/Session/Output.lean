import TradeWire.Proofs.Protocol.Compiled
import TradeWire.Proofs.Session.Courses

/-! What a session writes is read back frame by frame, with consecutive sequence numbers. -/

set_option autoImplicit false
set_option relaxedAutoImplicit false

namespace TradeWire

section Parsed

variable {document : Bytes} {p : Protocol}

theorem Protocol.isHeaded_of_parse (parsed : Protocol.parse document = .ok p) : p.registry.IsHeaded := by
  obtain ⟨read, compiled, _⟩ := Protocol.parse_eq_ok parsed
  intro l member
  have sound := Protocol.isSound_of_parse parsed
  obtain ⟨_, at_⟩ := (sound.serves l member).bodyLen
  obtain ⟨message⟩ := at_
  exact Table.isHeaded_of_compile (Model.isAccepted_of_parse read) compiled (sound.mem_layouts member)
    (by simp [Layout.isMessage, message])

/-- Messages of an accepted schema can be stamped where the name behind the header is plain. -/
theorem Protocol.isStampable_of_parse (parsed : Protocol.parse document = .ok p) {l : Layout}
    (member : l ∈ p.registry.messages)
    (plain : ∀ f, l.fields[1]? = some f → Record.IsPlain f.name) : l.IsStampable := by
  obtain ⟨read, compiled, _⟩ := Protocol.parse_eq_ok parsed
  exact Table.isStampable_of_compile (Model.isAccepted_of_parse read) compiled
    ((Protocol.isSound_of_parse parsed).mem_layouts member) plain

private theorem Protocol.isSendable_of_parse (parsed : Protocol.parse document = .ok p)
    (plain : ∀ s ∈ p.model.structures, ∀ member ∈ s.members, Record.IsPlain member.name) :
    p.registry.IsSendable p.model p.table := by
  obtain ⟨read, compiled, _⟩ := Protocol.parse_eq_ok parsed
  have sound := Protocol.isSound_of_parse parsed
  refine ⟨sound, ?_⟩
  intro l member
  have listed := sound.mem_layouts member
  have allPlain := Table.isPlain_of_compile compiled plain listed
  have stampable := Protocol.isStampable_of_parse parsed member fun f second =>
    allPlain f (List.mem_of_getElem? second)
  exact ⟨stampable.sound, allPlain, stampable.lookup, Protocol.isHeaded_of_parse parsed l member⟩

end Parsed

theorem Record.carriedNumber?_filled {l : Layout} (sound : l.Sound) {slots : List Slot}
    (shape : l.Admits slots) :
    (Record.mk l (l.filledSlots slots)).carriedNumber? = (Record.mk l slots).carriedNumber? := by
  unfold Record.carriedNumber?
  cases field : l.sessionField? Record.sequenceName with
  | none => rfl
  | some at_ =>
    obtain ⟨nested, _, held⟩ := sound.sessionNumber field
    simp only [Option.bind_some, shape.nestedRaw_filledSlots nested held]

namespace Session

def numbersUnsigned (l : Layout) : Bool :=
  match l.sessionField? Record.sequenceName with
  | some (_, _, form) => !form.isSigned
  | none => false

/-- The sequence number of the message in a frame, if it has an unsigned one. -/
def unsignedNumber? (g : Registry) (frame : Bytes) : Option UInt64 :=
  match g.unpack frame 0 with
  | .error _ => none
  | .ok (r, _) => if numbersUnsigned r.layout then r.sequence? else none

section Written

variable {g : Registry} {m : Model} {t : Table} {limit : Nat} {frame : Bytes} {r : Record}

/-- A frame is read as the message that was sent, to its last byte, and announces its length. -/
theorem IsWritten.unpack (written : IsWritten g limit frame r) (sound : g.IsSound m t) :
    g.unpack frame 0 = .ok (⟨r.layout, r.layout.filledSlots r.slots⟩, frame.length) ∧
      g.bodyLen frame 0 = .ok frame.length ∧
        r.headerRaw? (·.bodyLen) = some (UInt64.ofNat frame.length) :=
  written.ready.reads sound written.packed

private theorem unsignedNumber?_of_unpack {size : Nat} (read : g.unpack frame 0 = .ok (r, size)) :
    unsignedNumber? g frame = if numbersUnsigned r.layout then r.sequence? else none := by
  -- The equation of `unsignedNumber?` is not used by name: its proof would evaluate `unpack`.
  change (match g.unpack frame 0 with
    | .error _ => none
    | .ok (r, _) => if numbersUnsigned r.layout then r.sequence? else none) = _
  rw [read]

private theorem IsWritten.unsignedNumber?_eq (written : IsWritten g limit frame r) (sound : g.IsSound m t)
    (good : r.layout.IsStampable) : unsignedNumber? g frame = r.carriedNumber? := by
  have shape := written.ready.reached.hasShape.2
  obtain ⟨read, _, _⟩ := written.unpack sound
  have decoded := (Registry.reachable_of_unpack read).2.hasShape.2
  have number := Record.sequence?_eq (r := ⟨r.layout, r.layout.filledSlots r.slots⟩) good decoded
  rw [unsignedNumber?_of_unpack read, number, ← Record.carriedNumber?_filled good.sound shape]
  cases field : r.layout.sessionField? Record.sequenceName with
  | none => simp [numbersUnsigned, Record.carriedNumber?, field]
  | some at_ =>
    obtain ⟨j, size, form⟩ := at_
    cases signed : form.isSigned with
    | true | false => simp [numbersUnsigned, Record.carriedNumber?, field, signed]

end Written

private theorem unsignedNumbers_of_numberedFrom {g : Registry} {m : Model} {t : Table} {limit : Nat}
    (good : g.IsSendable m t)
    (unsigned : ∀ l ∈ g.messages, ∀ at_, l.sessionField? Record.sequenceName = some at_ →
      at_.2.2.isSigned = false)
    {frames : List Bytes} {sent : List Record} (written : List.Forall₂ (IsWritten g limit) frames sent)
    {i : Nat} (numbered : NumberedFrom (UInt64.ofNat i) sent) :
    ∃ k, frames.filterMap (unsignedNumber? g) = (List.range' i k).map UInt64.ofNat := by
  have members : ∀ r ∈ sent, r.layout ∈ g.messages := by
    intro r listed
    obtain ⟨i, here⟩ := List.mem_iff_getElem?.mp listed
    obtain ⟨frame, _, whole⟩ := forall₂_getElem? written.flip here
    exact whole.ready.member
  have same : frames.filterMap (unsignedNumber? g) = sent.filterMap Record.carriedNumber? := by
    clear numbered members
    induction written with
    | nil => rfl
    | cons here _ ih =>
      rw [List.filterMap_cons, List.filterMap_cons, ih,
        here.unsignedNumber?_eq good.sound (good.sendable _ here.ready.member).stampable]
  exact ⟨_, same.trans (carriedNumbers_of_numberedFrom (fun r listed => unsigned _ (members r listed)) numbered)⟩

/-- A schema whose request is answered by two messages, the first of which has a signed sequence number. -/
def mixedDocument : Bytes := List.flatMap Text.encodeUtf8
  ["<Model><DataTypes><DataType name='U4' rootType='int' size='4' minValue='0'/>",
    "<DataType name='U2' rootType='int' size='2' minValue='0'/>",
    "<DataType name='S4' rootType='int' size='4' minValue='-9'/></DataTypes>",
    "<Structures><Structure name='MessageHeaderComp' type='Component'>",
    "<Member name='BodyLen' type='U4' cardinality='1'/>",
    "<Member name='TemplateID' type='U2' cardinality='1'/></Structure>",
    "<Structure name='SignedComp' type='Component'>",
    "<Member name='MsgSeqNum' type='S4' cardinality='1'/></Structure>",
    "<Structure name='PlainComp' type='Component'>",
    "<Member name='MsgSeqNum' type='U4' cardinality='1'/></Structure>",
    "<Structure name='Ask' type='Message' numericID='1'>",
    "<Member name='Header' type='MessageHeaderComp' cardinality='1'/></Structure>",
    "<Structure name='Ack' type='Message' numericID='2'>",
    "<Member name='Header' type='MessageHeaderComp' cardinality='1'/>",
    "<Member name='Session' type='SignedComp' cardinality='1'/></Structure>",
    "<Structure name='Fill' type='Message' numericID='3'>",
    "<Member name='Header' type='MessageHeaderComp' cardinality='1'/>",
    "<Member name='Session' type='PlainComp' cardinality='1'/></Structure></Structures>",
    "<MessageFlows><MessageFlow name='F'><Message name='Ask'><Message name='Ack'>",
    "<Message name='Fill'/></Message></Message></MessageFlow></MessageFlows></Model>"]

/-- The options of a server that takes the first answer whose condition holds. -/
def matching : ServerOptions := { ServerOptions.default with policy := some .firstMatch }

def askBytes : Bytes := [6, 0, 0, 0, 1, 0]

def ackBytes : Bytes := [10, 0, 0, 0, 2, 0, 1, 0, 0, 0]

def fillBytes : Bytes := [10, 0, 0, 0, 3, 0, 2, 0, 0, 0]

private theorem exists_mixed : ∃ p, Protocol.parse mixedDocument = .ok p ∧
    (∀ s ∈ p.model.structures, ∀ member ∈ s.members, Record.IsPlain member.name) ∧
      p.registry.bodyLenAt = ⟨0, 4⟩ ∧
        (run p matching 0 askBytes (.start [] [])).written = [ackBytes, fillBytes] ∧
          [ackBytes, fillBytes].filterMap (unsignedNumber? p.registry) = [2] := by
  have check : ((Protocol.parse mixedDocument).toOption.any fun p =>
      (p.model.structures.all fun s =>
        s.members.all fun member => decide (Record.IsPlain member.name)) &&
      p.registry.bodyLenAt == ⟨0, 4⟩ &&
      (run p matching 0 askBytes (.start [] [])).written == [ackBytes, fillBytes] &&
      [ackBytes, fillBytes].filterMap (unsignedNumber? p.registry) == [2]) = true := by
    rw [mixedDocument, Text.encodeUtf8_eq]
    decide +kernel
  simp only [Option.any_eq_true, toOption_eq_some, Bool.and_eq_true, List.all_eq_true, decide_eq_true_eq,
    beq_iff_eq] at check
  obtain ⟨p, parsed, ⟨⟨plain, front⟩, written⟩, numbers⟩ := check
  exact ⟨p, parsed, plain, front, written, numbers⟩

/-- A session writes whole messages with consecutive numbers. Whatever response trees it has, whatever its
peer sends and whichever times and choices it is given, its output is read back frame by frame under the
same limit, each frame as the message that was sent, filled up by zeros, whose header announces the frame;
and the messages that have an integer for it take the numbers one, two, three and so on, in the order of
the output. A message that has none, or a signed one too narrow, takes no number. -/
theorem run_writes_numbered {document : Bytes} {p : Protocol} (parsed : Protocol.parse document = .ok p)
    (plain : ∀ s ∈ p.model.structures, ∀ member ∈ s.members, Record.IsPlain member.name) (flows : Flows)
    (o : ServerOptions) (logon : Nat) (stream : Bytes) (times : List UInt64) (draws : List Flow.Draws)
    (last : State) (done : run { p with flows := flows } o logon stream (.start times draws) = last) :
    ∃ sent live, Course p.registry o (.start times draws) sent last live ∧
      Frame.readAll o.maxFrameBytes last.written.flatten = (last.written, .ended) ∧
      List.Forall₂ (fun frame r =>
        p.registry.unpack frame 0 = .ok (⟨r.layout, r.layout.filledSlots r.slots⟩, frame.length) ∧
          p.registry.bodyLen frame 0 = .ok frame.length ∧
            r.headerRaw? (·.bodyLen) = some (UInt64.ofNat frame.length)) last.written sent ∧
      NumberedFrom 1 sent ∧
      ((∀ l ∈ p.registry.messages, ∀ at_, l.sessionField? Record.sequenceName = some at_ →
          at_.2.2.isSigned = false) →
        ∃ k, last.written.filterMap (unsignedNumber? p.registry) =
          (List.range' 1 k).map UInt64.ofNat) := by
  have good := Protocol.isSendable_of_parse parsed plain
  obtain ⟨sent, live, course⟩ := exists_course { p with flows := flows } o logon stream (.start times draws)
  rw [done] at course
  obtain ⟨frames, behind, written, numbered⟩ := course.written good
  have output : last.written = frames := behind
  rw [output]
  refine ⟨sent, live, course, ?_, ?_, numbered, ?_⟩
  · refine Frame.readAll_flatten ?_
    intro frame member
    obtain ⟨i, here⟩ := List.mem_iff_getElem?.mp member
    obtain ⟨_, _, whole⟩ := forall₂_getElem? written here
    exact whole.checked
  · exact written.imp fun frame r whole => whole.unpack good.sound
  · intro unsigned
    exact unsignedNumbers_of_numberedFrom good unsigned written numbered

theorem mixed_run_writes_numbered : ∃ p, Protocol.parse mixedDocument = .ok p ∧
    (∀ s ∈ p.model.structures, ∀ member ∈ s.members, Record.IsPlain member.name) ∧
      ∃ sent live, Course p.registry matching (.start [] []) sent
          (run p matching 0 askBytes (.start [] [])) live ∧
        Frame.readAll matching.maxFrameBytes (ackBytes ++ fillBytes) = ([ackBytes, fillBytes], .ended) ∧
          NumberedFrom 1 sent := by
  obtain ⟨p, parsed, plain, _, written, _⟩ := exists_mixed
  obtain ⟨sent, live, course, frames, _, numbered, _⟩ :=
    run_writes_numbered parsed plain p.flows matching 0 askBytes [] [] _ rfl
  rw [written] at frames
  exact ⟨p, parsed, plain, sent, live, course, frames, numbered⟩

/-- A message with a signed number takes one too, so that the unsigned numbers alone need not be
consecutive: here they begin with two. -/
theorem run_skips_signed : ∃ p, Protocol.parse mixedDocument = .ok p ∧
    (∀ s ∈ p.model.structures, ∀ member ∈ s.members, Record.IsPlain member.name) ∧
      p.registry.bodyLenAt = ⟨0, 4⟩ ∧ matching.policy = some .firstMatch ∧
        ¬∃ k, (run p matching 0 askBytes (.start [] [])).written.filterMap (unsignedNumber? p.registry) =
          (List.range' 1 k).map UInt64.ofNat := by
  obtain ⟨p, parsed, plain, front, written, numbers⟩ := exists_mixed
  refine ⟨p, parsed, plain, front, rfl, ?_⟩
  rintro ⟨k, consecutive⟩
  rw [written, numbers] at consecutive
  have count := congrArg List.length consecutive
  obtain rfl : k = 1 := by simpa using count.symm
  exact absurd consecutive (by decide)

end Session

end TradeWire
