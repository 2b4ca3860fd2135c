import TradeWire.Proofs.Layout.Extent

/-! The runs of a partition: blocks hold elementary members only and never stand next to each other. -/

set_option autoImplicit false
set_option relaxedAutoImplicit false

namespace TradeWire

theorem Field.width_of_elementary {f : Field} (elementary : f.isElementary = true) :
    f.width = (f.extent : Int) := by
  match f with
  | .primitive _ _ _ (.int _) | .primitive _ _ _ .pad | .primitive _ _ _ (.bytes _) => rfl
  | .primitive _ _ _ (.varBytes _) | .nested .. => simp [isElementary] at elementary

theorem Field.not_dynamic_of_elementary {f : Field} (elementary : f.isElementary = true) :
    f.isDynamic = false := by
  match f with
  | .primitive _ _ _ (.int _) | .primitive _ _ _ .pad | .primitive _ _ _ (.bytes _) => rfl
  | .primitive _ _ _ (.varBytes _) | .nested .. => simp [isElementary] at elementary

namespace Run

variable {α : Type}

theorem head_mem_members (run : Run α) : run.head ∈ run.members := by
  cases run with
  | block first rest => exact List.mem_cons_self
  | single member => exact List.mem_cons_self

/-- The run is a block of elementary members or a single other member. -/
def IsCut (elementary : α → Bool) : Run α → Prop
  | block first rest => ∀ a ∈ first :: rest, elementary a = true
  | single member => elementary member = false

theorem isCut_of_mem_partition (elementary : α → Bool) (l : List α) :
    ∀ run ∈ partition elementary l, run.IsCut elementary := by
  induction l with
  | nil => simp [partition]
  | cons a rest ih =>
    intro run member
    by_cases simple : elementary a = true
    · simp only [partition, simple, if_true] at member
      cases runs : partition elementary rest with
      | nil =>
        simp only [runs, List.mem_cons, List.not_mem_nil, or_false] at member
        subst member
        simpa [IsCut] using simple
      | cons next others =>
        rw [runs] at ih
        cases next with
        | block b more =>
          simp only [runs, List.mem_cons] at member
          rcases member with rfl | later
          · have tail := ih (block b more) (by simp)
            intro c inside
            rcases List.mem_cons.mp inside with rfl | below
            · exact simple
            · exact tail c below
          · exact ih run (by simp [later])
        | single b =>
          simp only [runs, List.mem_cons] at member
          rcases member with rfl | later
          · simpa [IsCut] using simple
          · exact ih run (by simpa using later)
    · simp only [partition, simple, if_false, List.mem_cons, Bool.false_eq_true] at member
      rcases member with rfl | later
      · simpa [IsCut] using simple
      · exact ih run later

theorem partition_no_adjacent_blocks (elementary : α → Bool) (l : List α) :
    ∀ (k : Nat) (a b : Run α), (partition elementary l)[k]? = some a →
      (partition elementary l)[k + 1]? = some b →
        ¬(elementary a.head = true ∧ elementary b.head = true) := by
  induction l with
  | nil => simp [partition]
  | cons x rest ih =>
    intro k a b here next
    by_cases simple : elementary x = true
    · simp only [partition, simple, if_true] at here next
      cases runs : partition elementary rest with
      | nil => simp [runs] at next
      | cons run others =>
        rw [runs] at ih
        have cut := isCut_of_mem_partition elementary rest run (by simp [runs])
        cases run with
        | block c more =>
          simp only [runs] at here next
          cases k with
          | zero =>
            -- the block that took in `x` has the neighbour it had before
            have first : elementary c = true := cut c (by simp)
            have apart := ih 0 (block c more) b (by simp) (by simpa using next)
            intro both
            exact apart ⟨first, both.2⟩
          | succ k => exact ih (k + 1) a b (by simpa using here) (by simpa using next)
        | single c =>
          simp only [runs] at here next
          cases k with
          | zero =>
            have other : elementary c = false := cut
            have same : b = single c := by simpa using next.symm
            subst same
            simp [head, other]
          | succ k => exact ih k a b (by simpa using here) (by simpa using next)
    · simp only [partition, simple, if_false, Bool.false_eq_true] at here next
      cases k with
      | zero =>
        have same : a = single x := by simpa using here.symm
        subst same
        simp [head, simple]
      | succ k => exact ih k a b (by simpa using here) (by simpa using next)

private theorem partition_cons (elementary : α → Bool) (a : α) (rest : List α) :
    ∃ run runs, partition elementary (a :: rest) = run :: runs ∧ run.head = a := by
  by_cases simple : elementary a = true
  · simp only [partition, simple, if_true]
    split
    · exact ⟨_, _, rfl, rfl⟩
    · exact ⟨_, _, rfl, rfl⟩
  · exact ⟨single a, partition elementary rest, by simp [partition, simple], rfl⟩

/-- The runs begin with one that is there whatever the counters say. -/
def StartStatic (field : α → Field) (runs : List (Run α)) : Prop :=
  ∃ run rest, runs = run :: rest ∧ run.isDynamic field = false

theorem startStatic_partition (elementary : α → Bool) {field : α → Field} {a : α}
    (leads : (field a).isDynamic = false) (rest : List α) :
    StartStatic field (partition elementary (a :: rest)) := by
  obtain ⟨run, runs, same, head⟩ := partition_cons elementary a rest
  refine ⟨run, runs, same, ?_⟩
  rw [isDynamic, head]
  exact leads

theorem StartStatic.not_dynamic {field : α → Field} {run : Run α} {rest : List (Run α)}
    (start : StartStatic field (run :: rest)) : run.isDynamic field = false := by
  obtain ⟨_, _, same, static⟩ := start
  cases same
  exact static

/-- The bytes that the members of a run take apart from dynamic ones. -/
def extent (field : α → Field) (run : Run α) : Nat := (run.members.map fun a => (field a).extent).sum

private theorem foldl_width (field : α → Field) (members : List α)
    (sound : ∀ a ∈ members, (field a).Sound) (sum : Int) :
    members.foldl (fun sum a => Word.add sum (field a).width) (Word.wrap sum) =
      Word.wrap (sum + ((members.map fun a => (field a).extent).sum : Nat)) := by
  induction members generalizing sum with
  | nil => simp
  | cons a rest ih =>
    have here : Word.add (Word.wrap sum) (field a).width = Word.wrap (sum + (field a).extent) := by
      rw [Word.add, Word.wrap_wrap_add, ← Word.wrap_add_wrap, (sound a (by simp)).wrap_width,
        Word.wrap_add_wrap]
    rw [List.foldl_cons, here, ih fun b later => sound b (by simp [later])]
    simp only [List.map_cons, List.sum_cons, Int.natCast_add, Int.add_assoc]

theorem width_eq {field : α → Field} {run : Run α} (sound : ∀ a ∈ run.members, (field a).Sound)
    (constant : run.isDynamic field = false) : run.width field = Word.wrap (run.extent field) := by
  cases run with
  | block first rest =>
    have total := foldl_width field (first :: rest) sound 0
    simpa [width, totalWidth, extent, members] using total
  | single member =>
    have here := (sound member (by simp [members])).wrap_width
    have plain : (single member).width field = Word.add 0 (field member).width := by
      simp only [isDynamic, head] at constant
      simp only [width]
      split
      · rename_i shape
        simp [shape, Field.isDynamic] at constant
      · rfl
    rw [plain]
    simpa [Word.add, extent, members] using here

/-- The start of the next run, where it is known, is the position behind this one as a machine word. -/
theorem add_next_start_wrapped {field : α → Field} {run : Run α}
    (sound : ∀ a ∈ run.members, (field a).Sound) {base pos stop : Int} {start : Option Int}
    (known : ∀ offset, start = some offset → Word.add base offset = pos)
    (behind : ∀ offset, start = some offset → run.isDynamic field = false →
      stop = Word.wrap (pos + run.extent field)) :
    ∀ offset, (if run.isDynamic field = true then none
      else start.map (Word.add · (run.width field))) = some offset → Word.add base offset = stop := by
  intro offset placed
  split at placed
  · cases placed
  · rename_i static
    have constant : run.isDynamic field = false := by simpa using static
    obtain ⟨before, here, rfl⟩ := Option.map_eq_some_iff.mp placed
    rw [Word.add_add, known before here, width_eq sound constant, Word.add, Word.wrap_add_wrap,
      behind before here constant]

/-- The start of the next run, where it is known, is the position behind this one. -/
theorem add_next_start {field : α → Field} {run : Run α} (sound : ∀ a ∈ run.members, (field a).Sound)
    {base pos stop : Int} {start : Option Int}
    (known : ∀ offset, start = some offset → Word.add base offset = pos)
    (behind : run.isDynamic field = false → stop = pos + run.extent field)
    (low : Word.minSigned ≤ stop) (high : stop ≤ Word.maxSigned) :
    ∀ offset, (if run.isDynamic field = true then none
      else start.map (Word.add · (run.width field))) = some offset → Word.add base offset = stop := by
  refine add_next_start_wrapped sound known ?_
  intro _ _ constant
  rw [← behind constant]
  exact (Word.wrap_eq_self low high).symm

end Run

theorem Run.IsCut.not_dynamic {α : Type} {field : α → Field} {run : Run α}
    (cut : run.IsCut fun a => (field a).isElementary) (constant : run.isDynamic field = false) {a : α}
    (member : a ∈ run.members) : (field a).isDynamic = false := by
  cases run with
  | block first rest => exact Field.not_dynamic_of_elementary (cut a member)
  | single only =>
    have same : a = only := by simpa [Run.members] using member
    exact same ▸ constant

theorem Run.IsCut.capacity_eq_extent {α : Type} {field : α → Field} {run : Run α}
    (cut : run.IsCut fun a => (field a).isElementary) (constant : run.isDynamic field = false) :
    (run.members.map fun a => (field a).capacity).sum = run.extent field := by
  rw [Run.extent]
  congr 1
  refine List.map_congr_left ?_
  intro a member
  exact Field.capacity_of_not_dynamic (cut.not_dynamic constant member)

theorem Run.IsCut.block_not_dynamic {α : Type} {field : α → Field} {first : α} {rest : List α}
    (cut : (Run.block first rest).IsCut fun a => (field a).isElementary) :
    (Run.block first rest).isDynamic field = false :=
  Field.not_dynamic_of_elementary (cut first (by simp))

theorem Run.map_fst_offsets {α : Type} (field : α → Field) (offset : Int) (members : List α) :
    (Run.offsets field offset members).map Prod.fst = members := by
  induction members generalizing offset with
  | nil => rfl
  | cons a rest ih => simp [Run.offsets, ih]

theorem run_of_mem_place {α : Type} {field : α → Field} {runs : List (Run α)} {start : Option Int}
    {placed : PlacedRun α} (member : placed ∈ Run.place field start runs) : placed.run ∈ runs := by
  induction runs generalizing start with
  | nil => simp [Run.place] at member
  | cons run rest ih =>
    simp only [Run.place, List.mem_cons] at member
    rcases member with rfl | later
    · simp
    · exact List.mem_cons_of_mem _ (ih later)

private theorem flatMap_members_place {α : Type} (field : α → Field) (runs : List (Run α))
    (start : Option Int) :
    (Run.place field start runs).flatMap (fun p => p.run.members) = runs.flatMap Run.members := by
  induction runs generalizing start with
  | nil => rfl
  | cons run rest ih => simp [Run.place, ih]

theorem flatMap_members_placedRuns {α : Type} (field : α → Field) (members : List α) :
    (placedRuns field members).flatMap (fun p => p.run.members) = members := by
  rw [placedRuns, flatMap_members_place, Run.flatMap_members_partition]

end TradeWire
