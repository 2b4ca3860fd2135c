import TradeWire.Flow.Pick

/-! A run along a response tree as a chain of choices; nothing behind the chosen nodes matters. -/

set_option autoImplicit false
set_option relaxedAutoImplicit false

namespace TradeWire

namespace Condition

variable {c : Condition} {tested : Record}

private theorem holds_eq_ok {answer : Bool} :
    c.holds tested = .ok answer ↔ ∃ t, c.test = some t ∧ t.holds tested = .ok answer := by
  unfold holds
  cases c.test with
  | none => simp
  | some t => cases held : t.holds tested <;> simp [held]

private theorem holds_eq_field {fault : FieldError} :
    c.holds tested = .error (.field fault) ↔ ∃ t, c.test = some t ∧ t.holds tested = .error fault := by
  unfold holds
  cases c.test with
  | none => simp
  | some t => cases held : t.holds tested <;> simp [held]

end Condition

namespace Flow

section Eligibility

/-- A node may be chosen: it has no condition, one that cannot be evaluated, or one that holds. -/
inductive Node.Admits (n : Node) (tested : Record) : Prop where
  | free (unconditional : n.condition? = none)
  | unread {c : Condition} (has : n.condition? = some c) (unread : c.test = none)
  | met {c : Condition} (has : n.condition? = some c) (holds : c.holds tested = .ok true)

/-- A node has a condition that does not hold. -/
def Node.Refuses (n : Node) (tested : Record) : Prop :=
  ∃ c, n.condition? = some c ∧ c.holds tested = .ok false

/-- A node has a condition on a field that cannot be read. -/
def Node.Faults (n : Node) (tested : Record) (fault : FieldError) : Prop :=
  ∃ c, n.condition? = some c ∧ c.holds tested = .error (.field fault)

variable {n : Node} {tested : Record}

private theorem Node.admits_iff : n.Admits tested ↔ n.isEligible tested = .ok true := by
  constructor
  · rintro (unconditional | ⟨has, unread⟩ | ⟨has, holds⟩)
    · simp [isEligible, unconditional]
    · simp [isEligible, has, unread]
    · obtain ⟨t, test, holds⟩ := Condition.holds_eq_ok.mp holds
      simp [isEligible, has, test, holds]
  · intro eligible
    cases has : n.condition? with
    | none => exact .free has
    | some c =>
      cases test : c.test with
      | none => exact .unread has test
      | some t =>
        have holds : t.holds tested = .ok true := by simpa [isEligible, has, test] using eligible
        exact .met has (Condition.holds_eq_ok.mpr ⟨t, test, holds⟩)

private theorem Node.refuses_iff : n.Refuses tested ↔ n.isEligible tested = .ok false := by
  unfold Refuses isEligible
  cases n.condition? with
  | none => simp
  | some c => cases test : c.test <;> simp [Condition.holds_eq_ok, test]

private theorem Node.faults_iff {fault : FieldError} :
    n.Faults tested fault ↔ n.isEligible tested = .error fault := by
  unfold Faults isEligible
  cases n.condition? with
  | none => simp
  | some c => cases test : c.test <;> simp [Condition.holds_eq_field, test]

private theorem Node.Faults.not_refuses {fault : FieldError} (faults : n.Faults tested fault) :
    ¬ n.Refuses tested := by
  simp [Node.refuses_iff, Node.faults_iff.mp faults]

private theorem refuses_or_exists_first (level : List Node) (tested : Record) :
    (∀ n ∈ level, n.Refuses tested) ∨ ∃ passed n after, level = passed ++ n :: after ∧
      (∀ m ∈ passed, m.Refuses tested) ∧ (n.Admits tested ∨ ∃ fault, n.Faults tested fault) := by
  induction level with
  | nil => exact .inl (by simp)
  | cons n rest ih =>
    match eligible : n.isEligible tested with
    | .error fault => exact .inr ⟨[], n, rest, rfl, by simp, .inr ⟨fault, Node.faults_iff.mpr eligible⟩⟩
    | .ok true => exact .inr ⟨[], n, rest, rfl, by simp, .inl (Node.admits_iff.mpr eligible)⟩
    | .ok false =>
      have refuses := Node.refuses_iff.mpr eligible
      rcases ih with all | ⟨passed, m, after, rfl, before, first⟩
      · exact .inl (List.forall_mem_cons.mpr ⟨refuses, all⟩)
      · exact .inr ⟨n :: passed, m, after, rfl, List.forall_mem_cons.mpr ⟨refuses, before⟩, first⟩

end Eligibility

section Levels

variable {σ ε : Type} {emit : Emitter σ ε} {passed after : List Node} {n : Node} {tested : Record}
  {draws : Draws} {s : σ}

private theorem runSiblings_append (refused : ∀ m ∈ passed, m.Refuses tested) (rest : List Node) :
    runSiblings .firstMatch emit (passed ++ rest) .firstEligible tested draws s =
      runSiblings .firstMatch emit rest .firstEligible tested draws s := by
  induction passed with
  | nil => rfl
  | cons m more ih =>
    obtain ⟨refuses, refused⟩ := List.forall_mem_cons.mp refused
    rw [List.cons_append, runSiblings, Selection.takes, Node.refuses_iff.mp refuses]
    exact ih refused

private theorem run_of_refused {level : List Node} (refused : ∀ m ∈ level, m.Refuses tested) :
    run .firstMatch emit level tested draws s = (s, .ok ()) := by
  simp only [run, Policy.selection]
  rw [← level.append_nil, runSiblings_append refused, runSiblings]

private theorem run_of_faults {fault : FieldError} (refused : ∀ m ∈ passed, m.Refuses tested)
    (faults : n.Faults tested fault) :
    run .firstMatch emit (passed ++ n :: after) tested draws s = (s, .error (.condition fault)) := by
  simp only [run, Policy.selection]
  rw [runSiblings_append refused, runSiblings, Selection.takes, Node.faults_iff.mp faults]
  rfl

private theorem run_of_admits (refused : ∀ m ∈ passed, m.Refuses tested) (admits : n.Admits tested) :
    run .firstMatch emit (passed ++ n :: after) tested draws s = n.run .firstMatch emit tested draws s := by
  simp only [run, Policy.selection]
  rw [runSiblings_append refused, runSiblings, Selection.takes, Node.admits_iff.mp admits]
  rfl

end Levels

section Chains

variable {σ ε : Type}

/-- A call of an emitter and its answer. -/
structure Call (ε : Type) where
  message : Response
  previous : Record
  answer : Except ε (Option Record)

/-- An emitter is called this often and in this order: the calls, with their answers, lead from one state of it
to another. -/
inductive Emits (emit : Emitter σ ε) : σ → List (Call ε) → σ → Prop where
  | nil {s : σ} : Emits emit s [] s
  | cons {s mid last : σ} {call : Call ε} {calls : List (Call ε)}
      (here : emit call.message call.previous s = (mid, call.answer)) (onward : Emits emit mid calls last) :
      Emits emit s (call :: calls) last

/-- A choice on a level: the siblings passed over and the node behind them, whose message is emitted. -/
inductive Choice (ε : Type) where
  | field (passed : List Node) (name condition : String) (children : List Node)
  | response (passed : List Node) (condition : String) (children : List Node) (call : Call ε)

namespace Choice

def passed : Choice ε → List Node
  | field passed _ _ _ => passed
  | response passed _ _ _ => passed

def node : Choice ε → Node
  | field _ name condition children => .field name condition children
  | response _ condition children call => .response call.message condition children

def call? : Choice ε → Option (Call ε)
  | field .. => none
  | response _ _ _ call => some call

def record? (c : Choice ε) : Option Record := c.call?.bind fun call => call.answer.toOption.join

def fault? (c : Choice ε) : Option ε :=
  c.call?.bind fun call => match call.answer with
    | .ok _ => none
    | .error fault => some fault

/-- A choice on a level is the first eligible sibling. -/
structure IsFirst (c : Choice ε) (level : List Node) (tested : Record) : Prop where
  stands : ∃ after, level = c.passed ++ c.node :: after
  refused : ∀ m ∈ c.passed, m.Refuses tested
  admits : c.node.Admits tested

end Choice

def calls (trail : List (Choice ε)) : List (Call ε) := trail.filterMap Choice.call?

/-- The record that conditions are tested with after some choices: the last one given, or else the request. -/
def latest (request : Record) (trail : List (Choice ε)) : Record :=
  (trail.filterMap Choice.record?).getLast?.getD request

/-- The level that some choices lead to: what is below the last of them. -/
def levelBelow (nodes : List Node) (trail : List (Choice ε)) : List Node :=
  (trail.getLast?.map (·.node.children)).getD nodes

/-- A run makes some choices. Each is the first eligible sibling below the choice before it, and an emitted
message goes with the latest record. The emitter is called for these messages and for nothing else. The run ends
well when every call did and no sibling of the last level is eligible; an error is that of the last call or of
the first condition of the last level that has no answer. -/
structure Follows (emit : Emitter σ ε) (nodes : List Node) (request : Record) (s : σ)
    (trail : List (Choice ε)) (out : σ × Except (RunError ε) Unit) : Prop where
  first : ∀ i (h : i < trail.length),
    trail[i].IsFirst (levelBelow nodes (trail.take i)) (latest request (trail.take i))
  previous : ∀ i (h : i < trail.length), ∀ call, trail[i].call? = some call →
    call.previous = latest request (trail.take i)
  emits : Emits emit s (calls trail) out.1
  unfailing : ∀ i (h : i + 1 < trail.length), trail[i].fault? = none
  ends : out.2 = .ok () ↔ (∀ c ∈ trail, c.fault? = none) ∧
    ∀ n ∈ levelBelow nodes trail, n.Refuses (latest request trail)
  faults : ∀ fault, out.2 = .error (.condition fault) ↔ (∀ c ∈ trail, c.fault? = none) ∧
    ∃ passed n after, levelBelow nodes trail = passed ++ n :: after ∧
      (∀ m ∈ passed, m.Refuses (latest request trail)) ∧ n.Faults (latest request trail) fault
  fails : ∀ fault, out.2 = .error (.emit fault) ↔ ∃ c, trail.getLast? = some c ∧ c.fault? = some fault

def Node.withChildren (n : Node) (children : List Node) : Node :=
  match n with
  | .field name condition _ => .field name condition children
  | .response message condition _ => .response message condition children

/-- Two trees that differ at most in what stands behind some choices, level by level. -/
def DifferBehind : List (Choice ε) → List Node → List Node → Prop
  | [], nodes, altered => altered = nodes
  | c :: trail, nodes, altered => ∃ after behind children,
      nodes = c.passed ++ c.node :: after ∧ altered = c.passed ++ c.node.withChildren children :: behind ∧
        DifferBehind trail c.node.children children

@[simp]
theorem latest_nil (request : Record) : latest request ([] : List (Choice ε)) = request := rfl

@[simp]
theorem levelBelow_nil (nodes : List Node) : levelBelow nodes ([] : List (Choice ε)) = nodes := rfl

@[simp]
theorem latest_cons (request : Record) (c : Choice ε) (trail : List (Choice ε)) :
    latest request (c :: trail) = latest (c.record?.getD request) trail := by
  unfold latest
  cases given : c.record? with
  | none => simp [given]
  | some r => simp [given, List.getLast?_cons]

@[simp]
theorem levelBelow_cons (nodes : List Node) (c : Choice ε) (trail : List (Choice ε)) :
    levelBelow nodes (c :: trail) = levelBelow c.node.children trail := by
  cases last : trail.getLast? <;> simp [levelBelow, List.getLast?_cons, last]

variable {emit : Emitter σ ε}

/-- Runs by their choices: one constructor for each way to leave a level. -/
inductive Walk (emit : Emitter σ ε) :
    List Node → Record → σ → List (Choice ε) → σ × Except (RunError ε) Unit → Prop where
  | ended {level : List Node} {tested : Record} {s : σ} (refused : ∀ m ∈ level, m.Refuses tested) :
      Walk emit level tested s [] (s, .ok ())
  | broken {passed after : List Node} {n : Node} {tested : Record} {fault : FieldError} {s : σ}
      (refused : ∀ m ∈ passed, m.Refuses tested) (faults : n.Faults tested fault) :
      Walk emit (passed ++ n :: after) tested s [] (s, .error (.condition fault))
  | field {c : Choice ε} {after : List Node} {tested : Record} {s : σ} {trail : List (Choice ε)}
      {out : σ × Except (RunError ε) Unit} (first : c.IsFirst (c.passed ++ c.node :: after) tested)
      (silent : c.call? = none) (below : Walk emit c.node.children tested s trail out) :
      Walk emit (c.passed ++ c.node :: after) tested s (c :: trail) out
  | failed {c : Choice ε} {after : List Node} {tested : Record} {message : Response} {fault : ε} {s mid : σ}
      (first : c.IsFirst (c.passed ++ c.node :: after) tested)
      (call : c.call? = some ⟨message, tested, .error fault⟩)
      (emitted : emit message tested s = (mid, .error fault)) :
      Walk emit (c.passed ++ c.node :: after) tested s [c] (mid, .error (.emit fault))
  | answered {c : Choice ε} {after : List Node} {tested : Record} {message : Response}
      {given : Option Record} {s mid : σ} {trail : List (Choice ε)} {out : σ × Except (RunError ε) Unit}
      (first : c.IsFirst (c.passed ++ c.node :: after) tested)
      (call : c.call? = some ⟨message, tested, .ok given⟩)
      (emitted : emit message tested s = (mid, .ok given))
      (below : Walk emit c.node.children (given.getD tested) mid trail out) :
      Walk emit (c.passed ++ c.node :: after) tested s (c :: trail) out

private theorem Node.Admits.withChildren {n : Node} {tested : Record} (admits : n.Admits tested)
    (children : List Node) : (n.withChildren children).Admits tested := by
  have same : (n.withChildren children).condition? = n.condition? := by cases n <;> rfl
  rcases admits with unconditional | ⟨has, unread⟩ | ⟨has, holds⟩
  · exact .free (same.trans unconditional)
  · exact .unread (same.trans has) unread
  · exact .met (same.trans has) holds

section Steps

variable {c : Choice ε} {children : List Node} {tested : Record} {draws : Draws} {s mid : σ}
  {message : Response}

private theorem Choice.run_of_silent (silent : c.call? = none) :
    (c.node.withChildren children).run .firstMatch emit tested draws s =
      run .firstMatch emit children tested draws s := by
  cases c with
  | field passed name condition below => simp only [node, Node.withChildren, Node.run, run]
  | response passed condition below call => cases silent

private theorem Choice.run_of_answer {given : Option Record} (call : c.call? = some ⟨message, tested, .ok given⟩)
    (emitted : emit message tested s = (mid, .ok given)) :
    (c.node.withChildren children).run .firstMatch emit tested draws s =
      run .firstMatch emit children (given.getD tested) draws mid := by
  cases c with
  | field passed name condition below => cases call
  | response passed condition below made =>
    cases call
    simp only [node, Node.withChildren, Node.run, run, emitted]

private theorem Choice.run_of_failure {fault : ε} (call : c.call? = some ⟨message, tested, .error fault⟩)
    (emitted : emit message tested s = (mid, .error fault)) :
    (c.node.withChildren children).run .firstMatch emit tested draws s = (mid, .error (.emit fault)) := by
  cases c with
  | field passed name condition below => cases call
  | response passed condition below made =>
    cases call
    simp only [node, Node.withChildren, Node.run, emitted]

end Steps

variable {nodes altered : List Node} {request : Record} {s : σ} {trail : List (Choice ε)}
  {out : σ × Except (RunError ε) Unit}

private theorem Walk.run_eq (walk : Walk emit nodes request s trail out) (differ : DifferBehind trail nodes altered)
    (draws : Draws) : run .firstMatch emit altered request draws s = out := by
  induction walk generalizing altered with
  | ended refused =>
    obtain rfl := differ
    exact run_of_refused refused
  | broken refused faults =>
    obtain rfl := differ
    exact run_of_faults refused faults
  | field first silent below ih =>
    obtain ⟨_, behind, children, _, rfl, differ⟩ := differ
    rw [run_of_admits first.refused (first.admits.withChildren children), Choice.run_of_silent silent]
    exact ih differ
  | failed first call emitted =>
    obtain ⟨_, behind, children, _, rfl, _⟩ := differ
    rw [run_of_admits first.refused (first.admits.withChildren children)]
    exact Choice.run_of_failure call emitted
  | answered first call emitted below ih =>
    obtain ⟨_, behind, children, _, rfl, differ⟩ := differ
    rw [run_of_admits first.refused (first.admits.withChildren children), Choice.run_of_answer call emitted]
    exact ih differ

private theorem Node.withChildren_children (n : Node) : n.withChildren n.children = n := by
  cases n <;> rfl

private theorem Walk.differBehind_self (walk : Walk emit nodes request s trail out) :
    DifferBehind trail nodes nodes := by
  induction walk with
  | ended | broken => rfl
  | @field c after _ _ _ _ _ _ _ ih | @answered c after _ _ _ _ _ _ _ _ _ _ _ ih =>
    exact ⟨after, after, c.node.children, rfl, by rw [c.node.withChildren_children], ih⟩
  | @failed c after =>
    exact ⟨after, after, c.node.children, rfl, by rw [c.node.withChildren_children], rfl⟩

private theorem Node.sizeOf_children_lt (n : Node) (passed after : List Node) :
    sizeOf n.children < sizeOf (passed ++ n :: after) := by
  have inside : sizeOf n < sizeOf (passed ++ n :: after) := List.sizeOf_lt_of_mem (by simp)
  have below : sizeOf n.children < sizeOf n := by
    cases n <;> simp only [children, field.sizeOf_spec, response.sizeOf_spec] <;> omega
  omega

private theorem exists_walk (emit : Emitter σ ε) (nodes : List Node) (request : Record) (s : σ) :
    ∃ trail out, Walk emit nodes request s trail out := by
  rcases refuses_or_exists_first nodes request with
    refused | ⟨passed, n, after, rfl, refused, admits | ⟨fault, faults⟩⟩
  · exact ⟨[], _, .ended refused⟩
  · cases n with
    | field name condition children =>
      have first : (Choice.field passed name condition children : Choice ε).IsFirst _ request :=
        ⟨⟨after, rfl⟩, refused, admits⟩
      have smaller := Node.sizeOf_children_lt (.field name condition children) passed after
      obtain ⟨trail, out, below⟩ := exists_walk emit children request s
      exact ⟨_, out, .field first rfl below⟩
    | response message condition children =>
      have first (answer : Except ε (Option Record)) :
          Choice.IsFirst (.response passed condition children ⟨message, request, answer⟩) _ request :=
        ⟨⟨after, rfl⟩, refused, admits⟩
      cases emitted : emit message request s with
      | mk mid answer =>
        cases answer with
        | error fault => exact ⟨_, _, .failed (first (.error fault)) rfl emitted⟩
        | ok given =>
          have smaller := Node.sizeOf_children_lt (.response message condition children) passed after
          obtain ⟨trail, out, below⟩ := exists_walk emit children (given.getD request) mid
          exact ⟨_, out, .answered (first (.ok given)) rfl emitted below⟩
  · exact ⟨[], _, .broken refused faults⟩
termination_by sizeOf nodes

private theorem Choice.quiet_of_silent {c : Choice ε} (silent : c.call? = none) :
    c.record? = none ∧ c.fault? = none := by
  simp [record?, fault?, silent]

private theorem Choice.record?_of_answer {c : Choice ε} {message : Response} {tested : Record} {given : Option Record}
    (call : c.call? = some ⟨message, tested, .ok given⟩) : c.record? = given ∧ c.fault? = none := by
  simp [record?, fault?, call, Except.toOption]

private theorem Choice.fault?_of_failure {c : Choice ε} {message : Response} {tested : Record} {fault : ε}
    (call : c.call? = some ⟨message, tested, .error fault⟩) : c.fault? = some fault := by
  simp [fault?, call]

private theorem Follows.of_refused (refused : ∀ m ∈ nodes, m.Refuses request) :
    Follows emit nodes request s [] (s, .ok ()) where
  first := by simp
  previous := by simp
  emits := .nil
  unfailing := by simp
  ends := by simpa using refused
  faults fault := by
    constructor
    · simp
    · rintro ⟨-, passed, n, after, level, -, faults⟩
      rw [levelBelow_nil] at level
      exact absurd (refused n (by simp [level])) faults.not_refuses
  fails := by simp

private theorem Follows.of_faults {passed after : List Node} {n : Node} {fault : FieldError}
    (refused : ∀ m ∈ passed, m.Refuses request) (faults : n.Faults request fault) :
    Follows emit (passed ++ n :: after) request s [] (s, .error (.condition fault)) where
  first := by simp
  previous := by simp
  emits := .nil
  unfailing := by simp
  ends := by
    constructor
    · simp
    · rintro ⟨-, all⟩
      exact absurd (all n (by simp)) faults.not_refuses
  faults other := by
    constructor
    · rintro ⟨⟩
      exact ⟨by simp, passed, n, after, rfl, refused, faults⟩
    · rintro ⟨-, before, m, behind, level, others, found⟩
      -- both nodes end the run over their level, which has one result
      rw [levelBelow_nil] at level
      rw [latest_nil] at others found
      have here : run .firstMatch emit (passed ++ n :: after) request [] s = (s, .error (.condition fault)) :=
        run_of_faults refused faults
      rw [level, run_of_faults others found] at here
      exact (congrArg Prod.snd here).symm
  fails := by simp

private theorem Follows.of_failure {c : Choice ε} {message : Response} {fault : ε} {mid : σ}
    (first : c.IsFirst nodes request) (call : c.call? = some ⟨message, request, .error fault⟩)
    (emitted : emit message request s = (mid, .error fault)) :
    Follows emit nodes request s [c] (mid, .error (.emit fault)) where
  first i h := by
    obtain rfl : i = 0 := by simpa using h
    exact first
  previous i h := by
    obtain rfl : i = 0 := by simpa using h
    simp [call]
  emits := by
    have made : calls [c] = [⟨message, request, .error fault⟩] := by simp [calls, call]
    rw [made]
    exact .cons emitted .nil
  unfailing := by simp
  ends := by simp [Choice.fault?_of_failure call]
  faults := by simp [Choice.fault?_of_failure call]
  fails := by simp [Choice.fault?_of_failure call]

private theorem Follows.cons {c : Choice ε} {mid : σ}
    (below : Follows emit c.node.children (c.record?.getD request) mid trail out)
    (first : c.IsFirst nodes request) (previous : ∀ call, c.call? = some call → call.previous = request)
    (unfailing : c.fault? = none) (emits : Emits emit s (calls (c :: trail)) out.1) :
    Follows emit nodes request s (c :: trail) out where
  first i h := by
    cases i with
    | zero => exact first
    | succ i => simpa using below.first i (by simpa using h)
  previous i h := by
    cases i with
    | zero => exact previous
    | succ i => simpa using below.previous i (by simpa using h)
  emits := emits
  unfailing i h := by
    cases i with
    | zero => exact unfailing
    | succ i => exact below.unfailing i (by simpa using h)
  ends := by simpa [unfailing] using below.ends
  faults := by simpa [unfailing] using below.faults
  fails fault := by
    rw [below.fails fault]
    cases last : trail.getLast? <;> simp [List.getLast?_cons, last, unfailing]

private theorem Walk.follows (walk : Walk emit nodes request s trail out) :
    Follows emit nodes request s trail out := by
  induction walk with
  | ended refused => exact .of_refused refused
  | broken refused faults => exact .of_faults refused faults
  | @field c after tested s trail out first silent below ih =>
    obtain ⟨nothing, unfailing⟩ := Choice.quiet_of_silent silent
    have calls_eq : calls (c :: trail) = calls trail := by simp [calls, silent]
    refine .cons (by rwa [nothing]) first (by simp [silent]) unfailing ?_
    rw [calls_eq]
    exact ih.emits
  | failed first call emitted => exact .of_failure first call emitted
  | @answered c after tested message given s mid trail out first call emitted below ih =>
    obtain ⟨gave, unfailing⟩ := Choice.record?_of_answer call
    have calls_eq : calls (c :: trail) = ⟨message, tested, .ok given⟩ :: calls trail := by simp [calls, call]
    refine .cons (by rwa [gave]) first (by simp [call]) unfailing ?_
    rw [calls_eq]
    exact .cons emitted ih.emits

/-- A run of the first eligible siblings follows one chain of choices, which nothing behind them changes. -/
theorem exists_follows_run (emit : Emitter σ ε) (nodes : List Node) (request : Record) (draws : Draws) (s : σ) :
    ∃ trail : List (Choice ε),
      Follows emit nodes request s trail (run .firstMatch emit nodes request draws s) ∧
      ∀ altered, DifferBehind trail nodes altered → ∀ others,
        run .firstMatch emit altered request others s = run .firstMatch emit nodes request draws s := by
  obtain ⟨trail, out, walk⟩ := exists_walk emit nodes request s
  rw [walk.run_eq walk.differBehind_self draws]
  exact ⟨trail, walk.follows, fun altered differ others => walk.run_eq differ others⟩

end Chains

end Flow

end TradeWire
