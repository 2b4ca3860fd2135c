import TradeWire.Proofs.Protocol.Frames
import TradeWire.Proofs.Session.Drafts

/-! Sending a draft stamps it, settles it and writes its frame. -/

set_option autoImplicit false
set_option relaxedAutoImplicit false

namespace TradeWire

/-- Where a message takes a sequence number, and the pattern it takes it in. -/
def Layout.takesNumber? (l : Layout) (n : UInt64) : Option (Nat × UInt64) :=
  (l.sessionField? Record.sequenceName).bind fun (j, size, form) => (form.pattern? size n).map (j, ·)

namespace Session

def after (l : Layout) (n : UInt64) : UInt64 :=
  match l.takesNumber? n with
  | some _ => n + 1
  | none => n

/-- The messages that take a sequence number have consecutive ones, in order. -/
def NumberedFrom : UInt64 → List Record → Prop
  | _, [] => True
  | n, r :: later =>
    (∀ j raw, r.layout.takesNumber? n = some (j, raw) → nestedRaw r.slots 1 j = raw) ∧
      NumberedFrom (after r.layout n) later

/-- Where none of the numbers is signed, consecutive numbers count the messages that have one. -/
theorem carriedNumbers_of_numberedFrom {sent : List Record}
    (unsigned : ∀ r ∈ sent, ∀ at_, r.layout.sessionField? Record.sequenceName = some at_ →
      at_.2.2.isSigned = false) {i : Nat} (numbered : NumberedFrom (UInt64.ofNat i) sent) :
    sent.filterMap Record.carriedNumber? =
      (List.range' i (sent.countP fun r => r.carriedNumber?.isSome)).map UInt64.ofNat := by
  induction sent generalizing i with
  | nil => rfl
  | cons r rest ih =>
    obtain ⟨number, later⟩ := numbered
    have behind_unsigned := fun other behind => unsigned other (List.mem_cons_of_mem r behind)
    cases field : r.layout.sessionField? Record.sequenceName with
    | none =>
      have none_carried : r.carriedNumber? = none := by simp [Record.carriedNumber?, field]
      have still : after r.layout (UInt64.ofNat i) = UInt64.ofNat i := by
        simp [after, Layout.takesNumber?, field]
      rw [still] at later
      rw [List.filterMap_cons_none none_carried, List.countP_cons_of_neg (by simp [none_carried]),
        ih behind_unsigned later]
    | some at_ =>
      obtain ⟨j, size, form⟩ := at_
      have plain : form.isSigned = false := unsigned r (by simp) _ field
      have taken : r.layout.takesNumber? (UInt64.ofNat i) = some (j, UInt64.ofNat i) := by
        simp [Layout.takesNumber?, field, IntForm.pattern?, plain]
      have carried : r.carriedNumber? = some (UInt64.ofNat i) := by
        simp [Record.carriedNumber?, field, plain, number j _ taken]
      have next : after r.layout (UInt64.ofNat i) = UInt64.ofNat (i + 1) := by
        simp [after, taken, UInt64.ofNat_add]
      rw [next] at later
      rw [List.filterMap_cons_some carried, List.countP_cons_of_pos (by simp [carried]), List.range'_succ,
        List.map_cons, ih behind_unsigned later]

/-- A message has been written as a frame. -/
structure IsWritten (g : Registry) (limit : Nat) (frame : Bytes) (r : Record) : Prop where
  ready : g.IsReady r
  packed : r.pack = .ok frame
  checked : Frame.check limit frame = .ok ()

/-- A message with the sequence number it takes, and the number after it. -/
def stamped (r : Record) (n : UInt64) : Record × UInt64 :=
  match r.stampSequence? n with
  | some next => (next, n + 1)
  | none => (r, n)

section Send

variable {g : Registry} {m : Model} {t : Table} {r : Record}

theorem keepsNumbers_stamped (shape : r.HasShape) (n : UInt64) :
    Record.KeepsNumbers [Record.sequenceName] r (stamped r n).1 := by
  unfold stamped
  split
  · rename_i next done
    exact Record.keepsNumbers_stampSequence? shape done
  · exact .refl _ r

/-- A message takes the sequence number if it has a field for it, and the number is used up. -/
theorem stamped_spec (good : r.layout.IsStampable) (shape : r.HasShape) (n : UInt64) :
    (stamped r n).2 = after r.layout n ∧ ∀ j raw, r.layout.takesNumber? n = some (j, raw) →
      r.layout.NumberAt 1 j Record.sequenceName ∧ nestedRaw (stamped r n).1.slots 1 j = raw := by
  have stamp := Record.stampSequence?_spec good shape n
  unfold stamped after
  cases done : r.stampSequence? n with
  | none =>
    rw [done] at stamp
    have none_taken : r.layout.takesNumber? n = none := by
      cases field : r.layout.sessionField? Record.sequenceName with
      | none => simp [Layout.takesNumber?, field]
      | some at_ => simp [Layout.takesNumber?, field, stamp at_.1 at_.2.1 at_.2.2 field]
    simp [none_taken]
  | some next =>
    rw [done] at stamp
    obtain ⟨j, size, form, raw, field, pattern, carried, keeps⟩ := stamp
    have taken : r.layout.takesNumber? n = some (j, raw) := by
      simp [Layout.takesNumber?, field, pattern]
    rw [taken]
    refine ⟨rfl, ?_⟩
    intro i other same
    cases same
    exact ⟨good.sound.sessionNumber field, carried⟩

private theorem ready_of_draft (headed : g.IsHeaded) (draft : g.IsDraft r) (n time : UInt64) :
    g.IsReady ((stamped r n).1.stampTime time).settled ∧
      Record.KeepsNumbers [Record.sendingTimeName, "BodyLen"] (stamped r n).1
        ((stamped r n).1.stampTime time).settled := by
  have numbered := draft.keep headed (keepsNumbers_stamped draft.shape n) (by decide) (by decide)
  have timing := Record.keepsNumbers_stampTime numbered.shape time
  have timed := numbered.keep headed timing (by decide) (by decide)
  exact ⟨timed.settle headed,
    timing.trans (Record.keepsNumbers_settled timed.shape fun _ => headed _ timed.member)⟩

def prepared (r : Record) (s : State) : Record :=
  ((stamped r s.sequence).1.stampTime (s.times.headD 0)).settled

/-- The state of a session after a message was stamped. -/
def stampedState (r : Record) (s : State) : State :=
  { s with sequence := (stamped r s.sequence).2, times := s.times.tail }

theorem send_eq (limit : Nat) (r : Record) (s : State) :
    send limit r s =
      match (prepared r s).frame limit with
      | .error fault => (stampedState r s, .error fault)
      | .ok frame =>
        ({ stampedState r s with written := s.written ++ [frame] }.tell
          (.sent (prepared r s).name (prepared r s).encodedSize), .ok (prepared r s)) := by
  unfold send prepared stampedState stamped
  cases r.stampSequence? s.sequence with
  | none | some next => rfl

theorem send_writes (sound : g.IsSound m t) (headed : g.IsHeaded) (draft : g.IsDraft r) (limit : Nat)
    (s : State) :
    match send limit r s with
    | (next, .error _) => next.written = s.written
    | (next, .ok ready) => ready = prepared r s ∧ ready.layout = r.layout ∧
        ∃ frame, next.written = s.written ++ [frame] ∧ IsWritten g limit frame ready := by
  obtain ⟨ready, keeps⟩ := ready_of_draft headed draft s.sequence (s.times.headD 0)
  rw [send_eq]
  cases framed : (prepared r s).frame limit with
  | error fault => rfl
  | ok frame =>
    have serves := sound.serves _ ready.member
    obtain ⟨packed, checked⟩ := Record.pack_of_frame serves.sound serves.anchored
      ready.reached.hasShape.2 framed
    exact ⟨rfl, keeps.layout.trans (keepsNumbers_stamped draft.shape s.sequence).layout, frame, rfl, ready,
      packed, checked⟩

/-- Sending a draft uses up the sequence number it takes, and a message that is sent has it. -/
theorem send_numbers (good : r.layout.IsStampable) (headed : g.IsHeaded) (draft : g.IsDraft r) (limit : Nat)
    (s : State) :
    match send limit r s with
    | (next, .error _) => next.sequence = after r.layout s.sequence
    | (next, .ok ready) => next.sequence = after r.layout s.sequence ∧
        ∀ j raw, r.layout.takesNumber? s.sequence = some (j, raw) → nestedRaw ready.slots 1 j = raw := by
  obtain ⟨sequence, number⟩ := stamped_spec good draft.shape s.sequence
  obtain ⟨_, keeps⟩ := ready_of_draft headed draft s.sequence (s.times.headD 0)
  rw [send_eq]
  cases framed : (prepared r s).frame limit with
  | error fault => exact sequence
  | ok frame =>
    refine ⟨sequence, ?_⟩
    intro j raw taken
    obtain ⟨at_, carried⟩ := number j raw taken
    rw [prepared, keeps.numbers 1 j _ ((keepsNumbers_stamped draft.shape s.sequence).layout ▸ at_)
      (by decide), carried]

end Send

/-- What a session may send: a fresh message that takes over fields of another one, or the reject. -/
inductive IsAnswer (g : Registry) (o : ServerOptions) : Record → Prop
  | response {l : Layout} (listed : l ∈ g.messages) (previous : Record) :
      IsAnswer g o ((Record.new l).echo previous)
  | reject {r : Record} (made : rejectRecord g o.rejectText = .ok r) : IsAnswer g o r

structure State.Rests (s next : State) : Prop where
  sequence : next.sequence = s.sequence
  written : next.written = s.written

/-- A course of a session: the messages it sends, as they are sent, one after the other. A message that
cannot be sent is the last thing a session does; until then the session is live. -/
inductive Course (g : Registry) (o : ServerOptions) : State → List Record → State → Bool → Prop
  | rest {s next : State} (rests : s.Rests next) : Course g o s [] next true
  | sent {s before mid next : State} {r ready : Record} {later : List Record} {live : Bool}
      (rests : s.Rests before) (answer : IsAnswer g o r)
      (done : send o.maxFrameBytes r before = (mid, .ok ready))
      (onward : Course g o mid later next live) : Course g o s (ready :: later) next live
  | failed {s before mid next : State} {r : Record} {fault : SendError} (rests : s.Rests before)
      (answer : IsAnswer g o r) (done : send o.maxFrameBytes r before = (mid, .error fault))
      (ends : mid.Rests next) : Course g o s [] next false

theorem State.Rests.refl (s : State) : s.Rests s := ⟨rfl, rfl⟩

theorem State.Rests.trans {s mid next : State} (first : s.Rests mid) (second : mid.Rests next) :
    s.Rests next :=
  ⟨second.sequence.trans first.sequence, second.written.trans first.written⟩

theorem State.Rests.tell (s : State) (e : Event) : s.Rests (s.tell e) := ⟨rfl, rfl⟩

namespace Course

variable {g : Registry} {o : ServerOptions} {s before mid next : State} {sent more : List Record}
  {live : Bool}

theorem after_rest (rests : s.Rests before) (course : Course g o before sent next live) :
    Course g o s sent next live := by
  cases course with
  | rest onward => exact .rest (rests.trans onward)
  | sent again answer done onward => exact .sent (rests.trans again) answer done onward
  | failed again answer done ends => exact .failed (rests.trans again) answer done ends

theorem before_rest (course : Course g o s sent mid live) (rests : mid.Rests next) :
    Course g o s sent next live := by
  induction course with
  | rest first => exact .rest (first.trans rests)
  | sent first answer done _ ih => exact .sent first answer done (ih rests)
  | failed first answer done ends => exact .failed first answer done (ends.trans rests)

theorem append (course : Course g o s sent mid true) (onward : Course g o mid more next live) :
    Course g o s (sent ++ more) next live := by
  generalize stillLive : true = alive at course
  induction course with
  | rest first => exact onward.after_rest first
  | sent first answer done _ ih => exact .sent first answer done (ih onward stillLive)
  | failed => cases stillLive

end Course

theorem isDraft_of_rejectRecord {g : Registry} {text : String} {r : Record} (headed : g.IsHeaded)
    (made : rejectRecord g text = .ok r) : g.IsDraft r ∧ g.lookupName? "Reject" = some r.layout := by
  unfold rejectRecord at made
  split at made
  · cases made
  · rename_i l found
    have fresh := Registry.IsDraft.new headed (List.mem_of_find?_eq_some found)
    split at made
    · cases made
    · rename_i reason set
      have explaining := Record.leavesStructures_setEnum (by decide) set
      have explained := fresh.keepStructures headed explaining
      split at made
      · cases made
      · rename_i answer text
        cases made
        have telling := Record.leavesStructures_setBytes (by decide) text
        refine ⟨explained.keepStructures headed telling, ?_⟩
        rw [found, telling.layout, explaining.layout]
        rfl

private theorem IsAnswer.isDraft {g : Registry} {m : Model} {t : Table} {o : ServerOptions} {r : Record}
    (good : g.IsSendable m t) (answer : IsAnswer g o r) : g.IsDraft r := by
  cases answer with
  | @response l listed previous =>
    have fresh := Registry.IsDraft.new good.headed listed
    exact fresh.keepStructures good.headed
      (Record.leavesStructures_echo (r := Record.new l) (good.sendable l listed).plain previous)
  | reject made => exact (isDraft_of_rejectRecord good.headed made).1

/-- What a session writes along a course: one frame for each message it sends, in order, and consecutive
numbers on those that take one. -/
theorem Course.written {g : Registry} {m : Model} {t : Table} {o : ServerOptions} {s next : State}
    {sent : List Record} {live : Bool} (good : g.IsSendable m t) (course : Course g o s sent next live) :
    ∃ frames, next.written = s.written ++ frames ∧
      List.Forall₂ (IsWritten g o.maxFrameBytes) frames sent ∧ NumberedFrom s.sequence sent := by
  -- along a course the number in the state is always the one the next message would take
  induction course with
  | rest rests => exact ⟨[], by simp [rests.written], .nil, trivial⟩
  | @failed s before mid next r fault rests answer done ends =>
    have writes := send_writes good.sound good.headed (answer.isDraft good) o.maxFrameBytes before
    rw [done] at writes
    exact ⟨[], by simp [ends.written, writes, rests.written], .nil, trivial⟩
  | @sent s before mid next r ready later live rests answer done onward ih =>
    have draft := answer.isDraft good
    have writes := send_writes good.sound good.headed draft o.maxFrameBytes before
    have numbers := send_numbers (good.sendable _ draft.member).stampable good.headed draft o.maxFrameBytes
      before
    rw [done] at writes numbers
    obtain ⟨_, same, frame, written, whole⟩ := writes
    obtain ⟨sequence, number⟩ := numbers
    obtain ⟨frames, behind, each, numbered⟩ := ih
    refine ⟨frame :: frames, ?_, .cons whole each, ?_⟩
    · rw [behind, written, rests.written, List.append_assoc]
      rfl
    · rw [sequence, rests.sequence, ← same] at numbered
      rw [rests.sequence, ← same] at number
      exact ⟨number, numbered⟩

end Session

end TradeWire
