import TradeWire.Proofs.Session.Sending

/-! A session does nothing but send answers one after the other. -/

set_option autoImplicit false
set_option relaxedAutoImplicit false

namespace TradeWire.Session

section Courses

variable {g : Registry} {o : ServerOptions}

/-- A computation of a session that fails, if at all, when its course is over. -/
def Takes {ε α : Type} (g : Registry) (o : ServerOptions) (s : State) (out : State × Except ε α) : Prop :=
  ∃ sent live, Course g o s sent out.1 live ∧ ∀ a, out.2 = .ok a → live = true

private theorem takes_emit (response : Flow.Response) (previous : Record) (s : State) :
    Takes g o s (emit g o.maxFrameBytes response previous s) := by
  unfold emit
  cases found : g.newRecord response.templateId with
  | error fault => exact ⟨[], true, .rest (.refl s), fun _ _ => rfl⟩
  | ok fresh =>
    obtain ⟨l, known, rfl⟩ := map_eq_ok.mp found
    have answer : IsAnswer g o ((Record.new l).echo previous) :=
      .response (Registry.lookup_eq_ok known).1 previous
    simp only
    cases done : send o.maxFrameBytes ((Record.new l).echo previous) s with
    | mk next outcome =>
      cases outcome with
      | error fault => exact ⟨[], false, .failed (.refl s) answer done (.refl next), by simp⟩
      | ok ready =>
        exact ⟨[ready], true, .sent (.refl s) answer done (.rest (.refl next)), fun _ _ => rfl⟩

mutual

/-- Answering along a response tree takes a course: one node after the other. -/
private theorem takes_node (policy : Flow.Policy) : ∀ (n : Flow.Node) (previous : Record) (draws : Flow.Draws)
    (s : State), Takes g o s (n.run policy (emit g o.maxFrameBytes) previous draws s)
  | .field _ _ children, previous, draws, s => by
    simp only [Flow.Node.run]
    exact takes_siblings policy children _ previous _ s
  | .response message _ children, previous, draws, s => by
    have first := takes_emit (g := g) (o := o) message previous s
    simp only [Flow.Node.run]
    cases emitted : emit g o.maxFrameBytes message previous s with
    | mk mid outcome =>
      rw [emitted] at first
      obtain ⟨sent, live, course, alive⟩ := first
      cases outcome with
      | error fault => exact ⟨sent, live, course, by simp⟩
      | ok answer =>
        obtain rfl := alive answer rfl
        obtain ⟨more, still, onward, ok⟩ := takes_siblings policy children
          (policy.selection children.length draws).1 (answer.getD previous)
          (policy.selection children.length draws).2 mid
        exact ⟨sent ++ more, still, course.append onward, ok⟩

private theorem takes_siblings (policy : Flow.Policy) : ∀ (nodes : List Flow.Node) (selection : Flow.Selection)
    (previous : Record) (draws : Flow.Draws) (s : State),
    Takes g o s (Flow.runSiblings policy (emit g o.maxFrameBytes) nodes selection previous draws s)
  | [], _, _, _, s => ⟨[], true, .rest (.refl s), fun _ _ => rfl⟩
  | n :: rest, selection, previous, draws, s => by
    simp only [Flow.runSiblings]
    cases taken : selection.takes n previous with
    | error fault => exact ⟨[], true, .rest (.refl s), fun _ _ => rfl⟩
    | ok choice =>
      cases choice with
      | none => exact takes_node policy n previous draws s
      | some selection => exact takes_siblings policy rest selection previous draws s

end

/-- A step of a session. -/
def Steps (g : Registry) (o : ServerOptions) (s : State) (out : State × Progress) : Prop :=
  ∃ sent live, Course g o s sent out.1 live ∧ (out.2 = .live → live = true)

private theorem rests_receive (p : Protocol) (bytes : Bytes) (s : State) : s.Rests (receive p bytes s).1 := by
  unfold receive
  split
  · exact .tell s _
  · simp only
    split
    · exact ((State.Rests.tell s _).trans (.tell _ _)).trans (.tell _ _)
    · exact (State.Rests.tell s _).trans (.tell _ _)

variable {p : Protocol}

private theorem steps_reject (s : State) : Steps p.registry o s (reject p o s) := by
  unfold reject
  cases made : rejectRecord p.registry o.rejectText with
  | error fault => exact ⟨[], true, .rest (.refl s), fun _ => rfl⟩
  | ok r =>
    simp only
    cases done : send o.maxFrameBytes r s with
    | mk next outcome =>
      cases outcome with
      | error fault => exact ⟨[], false, .failed (.refl s) (.reject made) done (.refl next), by simp⟩
      | ok ready =>
        exact ⟨[ready], true, .sent (.refl s) (.reject made) done (.rest (.tell next _)), fun _ => rfl⟩

private theorem steps_respond (request : Record) (s : State) :
    Steps p.registry o s (respond p o request s) := by
  unfold respond
  cases p.flows.responsesTo? request.layout.templateId with
  | none => exact ⟨[], true, .rest (.tell s _), fun _ => rfl⟩
  | some nodes =>
    have drawn : s.Rests { s with draws := s.draws.tail } := ⟨rfl, rfl⟩
    have run := takes_siblings (g := p.registry) (o := o) (o.policy.getD .random) nodes
      ((o.policy.getD .random).selection nodes.length (s.draws.headD [])).1 request
      ((o.policy.getD .random).selection nodes.length (s.draws.headD [])).2
      { s with draws := s.draws.tail }
    simp only [Flow.run]
    generalize Flow.runSiblings _ _ nodes _ request _ _ = out at run
    obtain ⟨next, outcome⟩ := out
    obtain ⟨sent, live, course, alive⟩ := run
    refine ⟨sent, live, ?_⟩
    match outcome with
    | .ok () => exact ⟨course.after_rest drawn, fun _ => alive () rfl⟩
    | .error (.condition fault) | .error (.emit fault) => exact ⟨course.after_rest drawn, by simp⟩

private theorem steps_step (logon : Nat) (bytes : Bytes) (s : State) :
    Steps p.registry o s (step p o logon bytes s) := by
  have received := rests_receive p bytes s
  unfold step
  generalize receive p bytes s = out at received
  obtain ⟨mid, answer⟩ := out
  cases answer with
  | none => exact ⟨[], true, .rest received, fun _ => rfl⟩
  | some request =>
    simp only
    split
    · obtain ⟨sent, live, course, alive⟩ := steps_reject (o := o) (p := p) mid
      exact ⟨sent, live, course.after_rest received, alive⟩
    · obtain ⟨sent, live, course, alive⟩ := steps_respond (o := o) (p := p) request mid
      exact ⟨sent, live, course.after_rest received, alive⟩

private theorem steps_stepAll (logon : Nat) (frames : List Bytes) (s : State) :
    Steps p.registry o s (stepAll p o logon frames s) := by
  induction frames generalizing s with
  | nil => exact ⟨[], true, .rest (.refl s), fun _ => rfl⟩
  | cons bytes rest ih =>
    obtain ⟨sent, live, course, alive⟩ := steps_step (o := o) (p := p) logon bytes s
    rw [stepAll_cons]
    generalize step p o logon bytes s = out at course alive
    obtain ⟨mid, progress⟩ := out
    match progress with
    | .over outcome => exact ⟨sent, live, course, by simp⟩
    | .live =>
      obtain rfl := alive rfl
      obtain ⟨more, still, onward, last⟩ := ih mid
      exact ⟨sent ++ more, still, course.append onward, last⟩

private theorem exists_course_serve (logon : Nat) (stream : Bytes) (s : State) :
    ∃ sent live, Course p.registry o s sent (serve p o logon stream s).1 live := by
  obtain ⟨sent, live, course, _⟩ := steps_stepAll (o := o) (p := p) logon
    (Frame.readAll o.maxFrameBytes stream).1 s
  refine ⟨sent, live, ?_⟩
  simp only [serve]
  generalize stepAll p o logon _ s = out at course
  obtain ⟨last, progress⟩ := out
  match progress with
  | .over outcome => exact course
  | .live => exact course

theorem exists_course (p : Protocol) (o : ServerOptions) (logon : Nat) (stream : Bytes) (s : State) :
    ∃ sent live, Course p.registry o s sent (run p o logon stream s) live := by
  obtain ⟨sent, live, course⟩ := exists_course_serve (o := o) (p := p) logon stream (s.tell (.opened 1))
  have opened := course.after_rest (State.Rests.tell s (.opened 1))
  refine ⟨sent, live, ?_⟩
  simp only [run]
  generalize serve p o logon stream _ = out at opened
  obtain ⟨last, outcome⟩ := out
  match outcome with
  | .ok () => exact opened.before_rest (.tell last _)
  | .error fault => exact opened.before_rest ((State.Rests.tell last _).trans (.tell _ _))

end Courses

end TradeWire.Session
