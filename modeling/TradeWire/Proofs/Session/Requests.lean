import TradeWire.Proofs.Session.Output
import TradeWire.Session.Client

/-! The messages of a client are numbered in the order in which they were to be sent. -/

set_option autoImplicit false
set_option relaxedAutoImplicit false

namespace TradeWire

/-- A message that a client may be asked to send: a message of the registry with whatever values it can come
by, whose structure behind the header has a plain name. -/
structure Registry.IsRequest (g : Registry) (r : Record) : Prop where
  member : r.layout ∈ g.messages
  reached : Record.Reachable r.layout r
  plain : ∀ f, r.layout.fields[1]? = some f → Record.IsPlain f.name

/-- The unsigned sequence number in a frame, read back as a message of the layout. -/
def Layout.frameNumber? (l : Layout) (frame : Bytes) : Option UInt64 :=
  match Record.unpack l frame 0 with
  | .ok (r, _) => r.carriedNumber?
  | .error _ => none

namespace Client

/-- What became of one message: the message as it was left, and its frame if there is one. -/
abbrev Sent : Type := Record × Except SendError Bytes

def sendAll : Client → List Record → Client × List Sent
  | c, [] => (c, [])
  | c, r :: later =>
    let (mid, sent) := c.send r
    let (last, rest) := mid.sendAll later
    (last, sent :: rest)

/-- The unsigned sequence numbers that were stamped on messages, written or not. -/
def stampedNumbers (sent : List Sent) : List UInt64 := (sent.map Prod.fst).filterMap Record.carriedNumber?

/-- The unsigned sequence numbers on the connection, read off the frames. -/
def writtenNumbers (sent : List Sent) : List UInt64 :=
  sent.filterMap fun (ready, frame) => frame.toOption.bind ready.layout.frameNumber?

section Exchanges

private theorem sequence_receiveMany (g : Registry) (count : Nat) (c : Client) :
    (c.receiveMany g count).1.sequence = c.sequence := by
  induction count generalizing c with
  | zero => rfl
  | succ count ih =>
    have received : (receive g c).1.sequence = c.sequence := by
      unfold receive
      split
      · rfl
      · split
        · rfl
        · rfl
    exact (ih (receive g c).1).trans received

private theorem sendAll_of_sequence {c other : Client} (same : other.sequence = c.sequence) (requests : List Record) :
    (other.sendAll requests).2 = (c.sendAll requests).2 := by
  induction requests generalizing c other with
  | nil => rfl
  | cons r later ih =>
    have first : (other.send r).2 = (c.send r).2 := by simp only [send, same]
    have next : (other.send r).1.sequence = (c.send r).1.sequence := by simp only [send, same]
    simp only [sendAll, first, ih next]

/-- The requests of an exchange are sent in turn, whatever the server answers. -/
theorem exchange_sends (p : Protocol) (o : ServerOptions) (requests : List (Record × Nat)) (c : Client)
    (s : Session.Served) :
    (Session.exchange p o requests c s).map (·.request) =
      (c.sendAll (requests.map Prod.fst)).2.map Prod.fst := by
  induction requests generalizing c s with
  | nil => rfl
  | cons asked later ih =>
    obtain ⟨r, expected⟩ := asked
    simp only [Session.exchange, List.map_cons, sendAll]
    rw [ih]
    refine congrArg _ (congrArg _ (sendAll_of_sequence ?_ _))
    exact sequence_receiveMany p.registry expected _

end Exchanges

section Numbers

variable {document : Bytes} {p : Protocol} {r : Record}

private theorem send_eq (c : Client) (r : Record) :
    c.send r = ({ c with sequence := (Session.stamped r c.sequence).2 },
      (Session.stamped r c.sequence).1.settled,
      (Session.stamped r c.sequence).1.settled.frame Frame.defaultLimit) := by
  unfold send Session.stamped
  cases r.stampSequence? c.sequence with
  | none | some next => rfl

/-- A message leaves the client with the number it takes, whether or not it can be written, and the client
goes on with the next one. -/
theorem send_numbers (parsed : Protocol.parse document = .ok p) (asked : p.registry.IsRequest r)
    (c : Client) :
    (c.send r).1.sequence = Session.after r.layout c.sequence ∧ (c.send r).2.1.layout = r.layout ∧
      Record.Reachable r.layout (c.send r).2.1 ∧ ∀ j raw, r.layout.takesNumber? c.sequence = some (j, raw) →
        nestedRaw (c.send r).2.1.slots 1 j = raw := by
  have good := Protocol.isStampable_of_parse parsed asked.member asked.plain
  have headed := Protocol.isHeaded_of_parse parsed r.layout asked.member
  have shape := asked.reached.hasShape.2
  obtain ⟨sequence, number⟩ := Session.stamped_spec good shape c.sequence
  have stamps := Session.keepsNumbers_stamped shape c.sequence
  have reached := stamps.reachable _ asked.reached
  have settles := Record.keepsNumbers_settled reached.hasShape.2 fun _ => stamps.layout ▸ headed
  rw [send_eq]
  refine ⟨sequence, settles.layout.trans stamps.layout, settles.reachable _ reached, ?_⟩
  intro j raw taken
  obtain ⟨at_, carried⟩ := number j raw taken
  rw [settles.numbers 1 j _ (stamps.layout ▸ at_) (by decide), carried]

/-- A frame is read back with the number its message was stamped with. -/
theorem frameNumber?_of_send (parsed : Protocol.parse document = .ok p) (asked : p.registry.IsRequest r)
    (c : Client) {frame : Bytes} (written : (c.send r).2.2 = .ok frame) :
    (c.send r).2.1.layout.frameNumber? frame = (c.send r).2.1.carriedNumber? := by
  obtain ⟨_, same, reached, _⟩ := send_numbers parsed asked c
  obtain ⟨_, shape⟩ := reached.hasShape
  have serves := (Protocol.isSound_of_parse parsed).serves r.layout asked.member
  have framed : (c.send r).2.2 = (c.send r).2.1.frame Frame.defaultLimit := by rw [send_eq]
  generalize (c.send r).2.1 = ready at same shape framed ⊢
  have sound : ready.layout.Sound := same ▸ serves.sound
  have anchored : ready.layout.Anchored := same ▸ serves.anchored
  obtain ⟨packed, _⟩ := Record.pack_of_frame sound anchored shape (framed.symm.trans written)
  obtain ⟨encoded, _⟩ := ready.encode_of_pack sound anchored shape packed
  have read := sound.unpack_encode_alone shape encoded
    (ready.isAddressable_of_pack sound anchored shape packed)
  unfold Layout.frameNumber?
  rw [read]
  exact Record.carriedNumber?_filled sound shape

/-- A client `c` was asked for messages and became `last`. -/
structure Numbers (c last : Client) (requests : List Record) (sent : List Sent) : Prop where
  layouts : (sent.map Prod.fst).map (·.layout) = requests.map (·.layout)
  /-- The messages that take a number have consecutive ones, in order, written or not. -/
  numbered : Session.NumberedFrom c.sequence (sent.map Prod.fst)
  /-- The number goes on behind each message that takes one, written or not. -/
  sequence : last.sequence = requests.foldl (fun n r => Session.after r.layout n) c.sequence
  /-- What is written has the number it was stamped with. -/
  frames : ∀ one ∈ sent, ∀ frame, one.2 = .ok frame →
    one.1.layout.frameNumber? frame = one.1.carriedNumber?

private theorem numbers_sendAll (parsed : Protocol.parse document = .ok p) {requests : List Record}
    (asked : ∀ r ∈ requests, p.registry.IsRequest r) (c : Client) :
    Numbers c (c.sendAll requests).1 requests (c.sendAll requests).2 := by
  induction requests generalizing c with
  | nil => exact ⟨rfl, trivial, rfl, by simp [sendAll]⟩
  | cons r later ih =>
    have first := asked r (by simp)
    obtain ⟨sequence, same, _, number⟩ := send_numbers parsed first c
    have rest := ih (fun other behind => asked other (by simp [behind])) (c.send r).1
    refine ⟨?_, ?_, ?_, ?_⟩
    · simp only [sendAll, List.map_cons, same, rest.layouts]
    · simp only [sendAll, List.map_cons]
      refine ⟨fun j raw taken => number j raw (same ▸ taken), ?_⟩
      rw [same, ← sequence]
      exact rest.numbered
    · simp only [sendAll, List.foldl_cons, ← sequence]
      exact rest.sequence
    · simp only [sendAll, List.mem_cons]
      rintro one (rfl | behind) bytes written
      · exact frameNumber?_of_send parsed first c written
      · exact rest.frames one behind bytes written

private theorem writtenNumbers_eq {sent : List Sent}
    (frames : ∀ one ∈ sent, ∀ frame, one.2 = .ok frame →
      one.1.layout.frameNumber? frame = one.1.carriedNumber?) :
    writtenNumbers sent = stampedNumbers (sent.filter (·.2.isOk)) := by
  induction sent with
  | nil => rfl
  | cons one rest ih =>
    have others := ih fun other behind => frames other (by simp [behind])
    obtain ⟨ready, outcome⟩ := one
    cases outcome with
    | error fault =>
      rw [List.filter_cons_of_neg (by simp [Except.isOk, Except.toBool]), ← others]
      rfl
    | ok frame =>
      have read := frames (ready, .ok frame) (by simp) frame rfl
      rw [List.filter_cons_of_pos (by simp [Except.isOk, Except.toBool])]
      simp only [writtenNumbers, stampedNumbers] at others ⊢
      rw [List.map_cons, List.filterMap_cons, List.filterMap_cons, others]
      simp only [Except.toOption, Option.bind_some, read]

private theorem stampedNumbers_filter {sent : List Sent}
    (whole : ∀ one ∈ sent, one.1.carriedNumber?.isSome = true → one.2.isOk = true) :
    stampedNumbers (sent.filter (·.2.isOk)) = stampedNumbers sent := by
  induction sent with
  | nil => rfl
  | cons one rest ih =>
    have others := ih fun other behind => whole other (by simp [behind])
    unfold stampedNumbers at others ⊢
    cases outcome : one.2.isOk with
    | true =>
      rw [List.filter_cons_of_pos (by simpa using outcome), List.map_cons, List.map_cons, List.filterMap_cons,
        List.filterMap_cons, others]
    | false =>
      have unnumbered : one.1.carriedNumber? = none := by
        cases carried : one.1.carriedNumber? with
        | none => rfl
        | some n => simp [whole one (by simp) (by simp [carried])] at outcome
      rw [List.filter_cons_of_neg (by simp [outcome]), others, List.map_cons,
        List.filterMap_cons_none unnumbered]

private theorem isSome_carriedNumber? (r : Record) :
    r.carriedNumber?.isSome = Session.numbersUnsigned r.layout := by
  unfold Record.carriedNumber? Session.numbersUnsigned
  cases r.layout.sessionField? Record.sequenceName with
  | none => rfl
  | some at_ => cases signed : at_.2.2.isSigned with
    | true | false => simp [signed]

private theorem Numbers.countP_eq {c last : Client} {requests : List Record} {sent : List Sent}
    (numbers : Numbers c last requests sent) :
    (sent.map Prod.fst).countP (fun r => r.carriedNumber?.isSome) =
      requests.countP fun r => Session.numbersUnsigned r.layout := by
  have unsigned : ∀ records : List Record, (records.countP fun r => Session.numbersUnsigned r.layout) =
      (records.map (·.layout)).countP Session.numbersUnsigned := fun records => by
    rw [List.countP_map]
    rfl
  simp only [isSome_carriedNumber?, unsigned, numbers.layouts]

/-- A client numbers what it is asked to send. Whatever messages it is given, those that take a number are
stamped with consecutive ones from one on, in the order in which they were to be sent and whether or not they
can be written, and each frame is read back with the number of its message. Where no number is signed, the
numbers are one, two, three and so on; those on the connection are among them in the same order, and they are
all of them as long as every message that has a number is written. -/
theorem sendAll_numbers (parsed : Protocol.parse document = .ok p) {requests : List Record}
    (asked : ∀ r ∈ requests, p.registry.IsRequest r) {last : Client} {sent : List Sent}
    (done : start.sendAll requests = (last, sent)) :
    Numbers start last requests sent ∧ writtenNumbers sent = stampedNumbers (sent.filter (·.2.isOk)) ∧
      ((∀ r ∈ requests, ∀ at_, r.layout.sessionField? Record.sequenceName = some at_ →
          at_.2.2.isSigned = false) →
        stampedNumbers sent =
            (List.range' 1 (requests.countP fun r => Session.numbersUnsigned r.layout)).map UInt64.ofNat ∧
          (writtenNumbers sent).Sublist (stampedNumbers sent) ∧
            ((∀ one ∈ sent, one.1.carriedNumber?.isSome = true → one.2.isOk = true) →
              writtenNumbers sent = stampedNumbers sent)) := by
  have numbers : Numbers start last requests sent := by
    simpa only [done] using numbers_sendAll parsed asked start
  have written := writtenNumbers_eq numbers.frames
  refine ⟨numbers, written, fun unsigned => ⟨?_, ?_, ?_⟩⟩
  · have plain : ∀ r ∈ sent.map Prod.fst, ∀ at_,
        r.layout.sessionField? Record.sequenceName = some at_ → at_.2.2.isSigned = false := by
      intro r listed at_ field
      have among : r.layout ∈ requests.map (·.layout) := by
        rw [← numbers.layouts]
        exact List.mem_map_of_mem listed
      obtain ⟨request, known, same⟩ := List.mem_map.mp among
      exact unsigned request known at_ (same ▸ field)
    rw [← numbers.countP_eq]
    exact Session.carriedNumbers_of_numberedFrom plain numbers.numbered
  · rw [written]
    exact (List.filter_sublist.map _).filterMap _
  · intro whole
    rw [written, stampedNumbers_filter whole]

end Numbers

/-- A schema of three messages: one with a number and a value, one whose number is signed, and one whose
number is in a structure with a dot in its name. -/
def requestDocument : Bytes := List.flatMap Text.encodeUtf8
  ["<Model><DataTypes><DataType name='U' rootType='int' size='4' minValue='0'/>",
    "<DataType name='S' rootType='int' size='4' minValue='-9'/></DataTypes>",
    "<Structures><Structure name='MessageHeaderComp' type='Component'>",
    "<Member name='BodyLen' type='U' cardinality='1'/>",
    "<Member name='TemplateID' type='U' cardinality='1'/></Structure>",
    "<Structure name='Part' type='Component'><Member name='MsgSeqNum' type='U' cardinality='1'/></Structure>",
    "<Structure name='Signed' type='Component'>",
    "<Member name='MsgSeqNum' type='S' cardinality='1'/></Structure>",
    "<Structure name='Order' type='Message' numericID='1'>",
    "<Member name='H' type='MessageHeaderComp' cardinality='1'/>",
    "<Member name='Session' type='Part' cardinality='1'/>",
    "<Member name='Value' type='U' cardinality='1'/></Structure>",
    "<Structure name='Probe' type='Message' numericID='2'>",
    "<Member name='H' type='MessageHeaderComp' cardinality='1'/>",
    "<Member name='Session' type='Signed' cardinality='1'/></Structure>",
    "<Structure name='Mark' type='Message' numericID='3'>",
    "<Member name='H' type='MessageHeaderComp' cardinality='1'/>",
    "<Member name='Session.Part' type='Part' cardinality='1'/></Structure></Structures></Model>"]

/-- An order whose value is too wide for its field cannot be sent. The order behind it goes out with the
number two, and so does an order behind a probe; a mark goes out with no number. -/
private theorem exists_requests : ∃ p order probe mark wide, Protocol.parse requestDocument = .ok p ∧
    p.registry.lookupName? "Order" = some order ∧ p.registry.lookupName? "Probe" = some probe ∧
      p.registry.lookupName? "Mark" = some mark ∧
      (Record.new order).setUint "Value" 0x100000000 = .ok wide ∧
      (∀ f, order.fields[1]? = some f → Record.IsPlain f.name) ∧
      Session.numbersUnsigned order = true ∧ (start.send wide).2.2.isOk = false ∧
      writtenNumbers (start.sendAll [wide, .new order]).2 = [2] ∧
      writtenNumbers (start.sendAll [.new probe, .new order]).2 = [2] ∧
      writtenNumbers (start.sendAll [.new mark]).2 = [0] := by
  have check : ((Protocol.parse requestDocument).toOption.any fun p =>
      (p.registry.lookupName? "Order").any fun order => (p.registry.lookupName? "Probe").any fun probe =>
        (p.registry.lookupName? "Mark").any fun mark =>
          ((Record.new order).setUint "Value" 0x100000000).toOption.any fun wide =>
            ((order.fields[1]?).all fun f => decide (Record.IsPlain f.name)) &&
            Session.numbersUnsigned order && !(start.send wide).2.2.isOk &&
            writtenNumbers (start.sendAll [wide, .new order]).2 == [2] &&
            writtenNumbers (start.sendAll [.new probe, .new order]).2 == [2] &&
            writtenNumbers (start.sendAll [.new mark]).2 == [0]) = true := by
    rw [requestDocument, Text.encodeUtf8_eq]
    decide +kernel
  simp only [Option.any_eq_true, Option.all_eq_true, toOption_eq_some, Bool.and_eq_true, Bool.not_eq_true',
    decide_eq_true_eq, beq_iff_eq] at check
  obtain ⟨p, parsed, order, listed, probe, also, mark, too, wide, set,
    ⟨⟨⟨⟨plain, unsigned⟩, failed⟩, gap⟩, signed⟩, dotted⟩ := check
  exact ⟨p, order, probe, mark, wide, parsed, listed, also, too, set, plain, unsigned, failed, gap, signed,
    dotted⟩

theorem wide_sendAll_numbers : ∃ p order wide, Protocol.parse requestDocument = .ok p ∧
    (Record.new order).setUint "Value" 0x100000000 = .ok wide ∧
      (∀ r ∈ [wide, .new order], p.registry.IsRequest r) ∧ (start.send wide).2.2.isOk = false ∧
        stampedNumbers (start.sendAll [wide, .new order]).2 = [1, 2] := by
  obtain ⟨p, order, _, _, wide, parsed, listed, _, _, set, plain, unsigned, failed, _⟩ := exists_requests
  have member := List.mem_of_find?_eq_some listed
  have changed : Record.Reachable order wide := .change .new (.setUint set)
  have same : wide.layout = order := changed.hasShape.1
  have asked : ∀ r ∈ [wide, .new order], r.layout = order ∧ p.registry.IsRequest r := by
    simp only [List.mem_cons, List.not_mem_nil, or_false]
    rintro r (rfl | rfl)
    · exact ⟨same, same.symm ▸ member, same.symm ▸ changed, same.symm ▸ plain⟩
    · exact ⟨rfl, member, .new, plain⟩
  have all_unsigned : ∀ r ∈ [wide, .new order], ∀ at_,
      r.layout.sessionField? Record.sequenceName = some at_ → at_.2.2.isSigned = false := by
    intro r given at_ field
    rw [(asked r given).1] at field
    simpa [Session.numbersUnsigned, field] using unsigned
  obtain ⟨_, _, consecutive⟩ := sendAll_numbers parsed (fun r given => (asked r given).2) rfl
  have stamped := (consecutive all_unsigned).1
  refine ⟨p, order, wide, parsed, set, fun r given => (asked r given).2, failed, stamped.trans ?_⟩
  have two : [wide, Record.new order].countP (fun r => Session.numbersUnsigned r.layout) = 2 := by
    simp [same, Record.new, unsigned]
  rw [two]
  decide

private theorem not_consecutive {numbers : List UInt64} {first : UInt64} (starts : numbers.head? = some first)
    (other : first ≠ 1) : ¬∃ k, numbers = (List.range' 1 k).map UInt64.ofNat := by
  rintro ⟨k, rfl⟩
  cases k with
  | zero => cases starts
  | succ k =>
    rw [List.range'_succ, List.map_cons, List.head?_cons, Option.some.injEq] at starts
    exact other starts.symm

/-- The numbers on a connection have gaps. A message that cannot be sent uses up a number, a message with a
signed number does so too, and where the structure with the number has a dot in its name, nothing is
stamped. -/
theorem written_not_consecutive : ∃ p order probe mark wide, Protocol.parse requestDocument = .ok p ∧
    p.registry.lookupName? "Order" = some order ∧ p.registry.lookupName? "Probe" = some probe ∧
      p.registry.lookupName? "Mark" = some mark ∧
      (Record.new order).setUint "Value" 0x100000000 = .ok wide ∧ (start.send wide).2.2.isOk = false ∧
      (¬∃ k, writtenNumbers (start.sendAll [wide, .new order]).2 = (List.range' 1 k).map UInt64.ofNat) ∧
      (¬∃ k, writtenNumbers (start.sendAll [.new probe, .new order]).2 =
        (List.range' 1 k).map UInt64.ofNat) ∧
      ¬∃ k, writtenNumbers (start.sendAll [.new mark]).2 = (List.range' 1 k).map UInt64.ofNat := by
  obtain ⟨p, order, probe, mark, wide, parsed, listed, also, too, set, _, _, failed, gap, signed, dotted⟩ :=
    exists_requests
  refine ⟨p, order, probe, mark, wide, parsed, listed, also, too, set, failed, ?_, ?_, ?_⟩
  · exact not_consecutive (show _ = some 2 by rw [gap]; rfl) (by decide)
  · exact not_consecutive (show _ = some 2 by rw [signed]; rfl) (by decide)
  · exact not_consecutive (show _ = some 0 by rw [dotted]; rfl) (by decide)

end Client

end TradeWire
