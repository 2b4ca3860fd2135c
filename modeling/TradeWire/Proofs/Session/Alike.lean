import TradeWire.Proofs.Session.Sending

/-! Sessions that differ in their events alone go on alike. -/

set_option autoImplicit false
set_option relaxedAutoImplicit false

namespace TradeWire

namespace Flow

section Runs

variable {σ ε : Type}

/-- Two computations that answer alike and leave related states behind. -/
def Agree {α : Type} (related : σ → σ → Prop) (out other : σ × α) : Prop :=
  related out.1 other.1 ∧ out.2 = other.2

theorem Agree.split {α : Type} {related : σ → σ → Prop} {out other : σ × α}
    (agree : Agree related out other) :
    ∃ s t answer, out = (s, answer) ∧ other = (t, answer) ∧ related s t :=
  ⟨out.1, other.1, out.2, rfl, by rw [agree.2], agree.1⟩

def Emitter.Respects (emit : Emitter σ ε) (related : σ → σ → Prop) : Prop :=
  ∀ response previous s t, related s t → Agree related (emit response previous s) (emit response previous t)

variable {emit : Emitter σ ε} {related : σ → σ → Prop}

mutual

private theorem agree_node (respects : emit.Respects related) (policy : Policy) : ∀ (n : Node) (previous : Record)
    (draws : Draws) (s t : σ), related s t →
      Agree related (n.run policy emit previous draws s) (n.run policy emit previous draws t)
  | .field _ _ children, previous, draws, s, t, alike => by
    simp only [Node.run]
    exact agree_siblings respects policy children _ previous _ s t alike
  | .response message _ children, previous, draws, s, t, alike => by
    obtain ⟨mid, mid', outcome, first, second, after⟩ := (respects message previous s t alike).split
    simp only [Node.run, first, second]
    cases outcome with
    | error fault => exact ⟨after, rfl⟩
    | ok answer => exact agree_siblings respects policy children _ _ _ mid mid' after

private theorem agree_siblings (respects : emit.Respects related) (policy : Policy) : ∀ (nodes : List Node)
    (selection : Selection) (previous : Record) (draws : Draws) (s t : σ), related s t →
      Agree related (runSiblings policy emit nodes selection previous draws s)
        (runSiblings policy emit nodes selection previous draws t)
  | [], _, _, _, _, _, alike => ⟨alike, rfl⟩
  | n :: rest, selection, previous, draws, s, t, alike => by
    simp only [runSiblings]
    cases selection.takes n previous with
    | error fault => exact ⟨alike, rfl⟩
    | ok choice =>
      cases choice with
      | none => exact agree_node respects policy n previous draws s t alike
      | some selection => exact agree_siblings respects policy rest selection previous draws s t alike

end

/-- A run along a response tree cannot tell states apart that its emitter cannot tell apart. -/
theorem agree_run (respects : emit.Respects related) (policy : Policy) (nodes : List Node)
    (request : Record) (draws : Draws) {s t : σ} (alike : related s t) :
    Agree related (run policy emit nodes request draws s) (run policy emit nodes request draws t) :=
  agree_siblings respects policy nodes _ request _ s t alike

end Runs

end Flow

namespace Session

/-- Two states of a session that differ in their events at most. -/
structure State.Alike (s t : State) : Prop where
  sequence : t.sequence = s.sequence
  written : t.written = s.written
  times : t.times = s.times
  draws : t.draws = s.draws

/-- Two computations of a session that cannot be told apart but by their events. -/
abbrev Agree {α : Type} (out other : State × α) : Prop := Flow.Agree State.Alike out other

namespace State.Alike

variable {s t u : State}

theorem refl (s : State) : s.Alike s := ⟨rfl, rfl, rfl, rfl⟩

theorem symm (alike : s.Alike t) : t.Alike s :=
  ⟨alike.sequence.symm, alike.written.symm, alike.times.symm, alike.draws.symm⟩

theorem trans (first : s.Alike t) (second : t.Alike u) : s.Alike u :=
  ⟨second.sequence.trans first.sequence, second.written.trans first.written,
    second.times.trans first.times, second.draws.trans first.draws⟩

theorem tell (s : State) (e : Event) : s.Alike (s.tell e) := ⟨rfl, rfl, rfl, rfl⟩

private theorem tells (alike : s.Alike t) (e e' : Event) : (s.tell e).Alike (t.tell e') :=
  ((tell s e).symm.trans alike).trans (tell t e')

end State.Alike

section Agreement

variable {s t : State}

private theorem agree_send (limit : Nat) (r : Record) (alike : s.Alike t) :
    Agree (send limit r s) (send limit r t) := by
  have same : prepared r t = prepared r s := by
    simp only [prepared, alike.sequence, alike.times]
  have stamp : (stampedState r s).Alike (stampedState r t) :=
    ⟨by simp [stampedState, alike.sequence], alike.written, by simp [stampedState, alike.times], alike.draws⟩
  rw [send_eq, send_eq, same]
  cases (prepared r s).frame limit with
  | error fault => exact ⟨stamp, rfl⟩
  | ok frame =>
    refine ⟨State.Alike.tells ?_ _ _, rfl⟩
    exact ⟨stamp.sequence, by simp [alike.written], stamp.times, stamp.draws⟩

private theorem respects_emit (g : Registry) (limit : Nat) : (emit g limit).Respects State.Alike := by
  intro response previous s t alike
  unfold emit
  cases g.newRecord response.templateId with
  | error fault => exact ⟨alike, rfl⟩
  | ok fresh =>
    obtain ⟨mid, mid', outcome, first, second, after⟩ := (agree_send limit (fresh.echo previous) alike).split
    simp only [first, second]
    cases outcome with
    | error fault | ok sent => exact ⟨after, rfl⟩

theorem agree_reject (p : Protocol) (o : ServerOptions) (alike : s.Alike t) :
    Agree (reject p o s) (reject p o t) := by
  unfold reject
  cases rejectRecord p.registry o.rejectText with
  | error fault => exact ⟨alike, rfl⟩
  | ok r =>
    obtain ⟨mid, mid', outcome, first, second, after⟩ := (agree_send o.maxFrameBytes r alike).split
    simp only [first, second]
    cases outcome with
    | error fault => exact ⟨after, rfl⟩
    | ok sent => exact ⟨after.tells _ _, rfl⟩

theorem agree_respond (p : Protocol) (o : ServerOptions) (request : Record) (alike : s.Alike t) :
    Agree (respond p o request s) (respond p o request t) := by
  unfold respond
  cases p.flows.responsesTo? request.layout.templateId with
  | none => exact ⟨alike.tells _ _, rfl⟩
  | some nodes =>
    have drawn : State.Alike { s with draws := s.draws.tail } { t with draws := t.draws.tail } :=
      ⟨alike.sequence, alike.written, alike.times, by simp [alike.draws]⟩
    obtain ⟨mid, mid', outcome, first, second, after⟩ :=
      (Flow.agree_run (respects_emit p.registry o.maxFrameBytes) (o.policy.getD .random) nodes request
        (s.draws.headD []) drawn).split
    rw [alike.draws] at second
    simp only [alike.draws, first, second]
    match outcome with
    | .ok () => exact ⟨after, rfl⟩
    | .error (.condition fault) | .error (.emit fault) => exact ⟨after, rfl⟩

end Agreement

end Session

end TradeWire
