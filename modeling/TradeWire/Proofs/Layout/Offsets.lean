import TradeWire.Proofs.Layout.Runs

/-! Offsets of fields add up to the extents of the fields before them. -/

set_option autoImplicit false
set_option relaxedAutoImplicit false

namespace TradeWire

/-- Where members start, as long as no member before is dynamic; `sum` is where the first one starts. -/
def memberStarts {α : Type} (field : α → Field) : Option Nat → List α → List (Option Nat)
  | _, [] => []
  | sum, a :: rest =>
    sum :: memberStarts field (if (field a).isDynamic then none else sum.map (· + (field a).extent)) rest

section

variable {α : Type} {field : α → Field}

/-- Where the member behind several ones starts. -/
def startBehind (field : α → Field) : Option Nat → List α → Option Nat
  | sum, [] => sum
  | sum, a :: rest =>
    startBehind field (if (field a).isDynamic then none else sum.map (· + (field a).extent)) rest

private theorem memberStarts_append (sum : Option Nat) (before after : List α) :
    memberStarts field sum (before ++ after) =
      memberStarts field sum before ++ memberStarts field (startBehind field sum before) after := by
  induction before generalizing sum with
  | nil => rfl
  | cons a rest ih => simp [memberStarts, startBehind, ih]

private theorem startBehind_of_not_dynamic {members : List α}
    (constant : ∀ a ∈ members, (field a).isDynamic = false) (sum : Option Nat) :
    startBehind field sum members = sum.map (· + (members.map fun a => (field a).extent).sum) := by
  induction members generalizing sum with
  | nil => simp [startBehind]
  | cons a rest ih =>
    have here := constant a (by simp)
    rw [startBehind, ih fun b later => constant b (by simp [later])]
    cases sum with
    | none => simp [here]
    | some n => simp [here, Nat.add_assoc]

private theorem getElem?_memberStarts (sum : Option Nat) (members : List α) (i : Nat) :
    (memberStarts field sum members)[i]? =
      if i < members.length then some (startBehind field sum (members.take i)) else none := by
  induction members generalizing sum i with
  | nil => simp [memberStarts]
  | cons a rest ih =>
    cases i with
    | zero => simp [memberStarts, startBehind]
    | succ i => simp [memberStarts, startBehind, ih]

private theorem startBehind_none (members : List α) : startBehind field none members = none := by
  induction members with
  | nil => rfl
  | cons a rest ih => simpa [startBehind] using ih

theorem startBehind_eq_some {members : List α} {sum n : Nat}
    (known : startBehind field (some sum) members = some n) :
    (∀ a ∈ members, (field a).isDynamic = false) ∧
      n = sum + (members.map fun a => (field a).extent).sum := by
  induction members generalizing sum with
  | nil =>
    simp only [startBehind, Option.some.injEq] at known
    simp [known]
  | cons a rest ih =>
    simp only [startBehind] at known
    by_cases dynamic : (field a).isDynamic = true
    · simp only [dynamic, if_true, startBehind_none] at known
      cases known
    · simp only [dynamic, if_false, Option.map_some, Bool.false_eq_true] at known
      obtain ⟨others, total⟩ := ih known
      refine ⟨?_, by simp [total, Nat.add_assoc]⟩
      intro b member
      rcases List.mem_cons.mp member with rfl | later
      · simpa using dynamic
      · exact others b later

/-- A start as a machine word. -/
def wrappedStart (start : Option Nat) : Option Int := start.map fun (n : Nat) => Word.wrap n

private theorem wrappedStart_add (start : Option Nat) (n : Nat) :
    (wrappedStart start).map (Word.add · (Word.wrap n)) = wrappedStart (start.map (· + n)) := by
  cases start with
  | none => simp only [wrappedStart, Option.map_none]
  | some m => simp only [wrappedStart, Option.map_some, Word.add_wrap_wrap]

private theorem map_offsets {members : List α} (constant : ∀ a ∈ members, (field a).isDynamic = false)
    (sound : ∀ a ∈ members, (field a).Sound) (start : Option Nat) (distance : Nat) :
    ((Run.offsets field (Word.wrap distance) members).map fun pair =>
        (wrappedStart start).map (Word.add · pair.2)) =
      (memberStarts field (start.map (· + distance)) members).map wrappedStart := by
  induction members generalizing distance with
  | nil => rfl
  | cons a rest ih =>
    have here := constant a (by simp)
    have next : Word.add (Word.wrap distance) (field a).width =
        Word.wrap ((distance + (field a).extent : Nat) : Int) := by
      rw [Word.add, Word.wrap_wrap_add, ← Word.wrap_add_wrap, (sound a (by simp)).wrap_width,
        Word.wrap_add_wrap, Int.natCast_add]
    have others := ih (fun b later => constant b (by simp [later]))
      (fun b later => sound b (by simp [later])) (distance + (field a).extent)
    have behind : (start.map (· + distance)).map (· + (field a).extent) =
        start.map (· + (distance + (field a).extent)) := by
      cases start with
      | none => rfl
      | some n => simp [Nat.add_assoc]
    rw [Run.offsets, List.map_cons, next, others, wrappedStart_add, memberStarts, List.map_cons, here]
    simp only [Bool.false_eq_true, if_false, behind]

private theorem Run.IsCut.map_starts {run : Run α} (cut : run.IsCut fun a => (field a).isElementary)
    (sound : ∀ a ∈ run.members, (field a).Sound) (start : Option Nat) :
    ((Run.offsets field 0 run.members).map fun pair => (wrappedStart start).map (Word.add · pair.2)) =
      (memberStarts field start run.members).map wrappedStart := by
  cases run with
  | block first rest =>
    have whole := map_offsets (fun a member => Field.not_dynamic_of_elementary (cut a member)) sound start 0
    simpa [Run.members] using whole
  | single member =>
    cases start with
    | none => rfl
    | some n => simp [Run.members, Run.offsets, memberStarts, wrappedStart, Word.add]

theorem Run.IsCut.next_start {run : Run α} (cut : run.IsCut fun a => (field a).isElementary)
    (sound : ∀ a ∈ run.members, (field a).Sound) (start : Option Nat) :
    (if run.isDynamic field = true then none
      else (wrappedStart start).map (Word.add · (run.width field))) =
        wrappedStart (startBehind field start run.members) := by
  by_cases dynamic : run.isDynamic field = true
  · have only : ∃ member, run = .single member := by
      cases run with
      | block first rest =>
        have constant := Field.not_dynamic_of_elementary (cut first (by simp))
        simp [Run.isDynamic, Run.head, constant] at dynamic
      | single member => exact ⟨member, rfl⟩
    obtain ⟨member, rfl⟩ := only
    simp only [Run.isDynamic, Run.head] at dynamic
    simp [Run.isDynamic, Run.head, dynamic, Run.members, startBehind, wrappedStart]
  · have constant : run.isDynamic field = false := by simpa using dynamic
    rw [if_neg dynamic, startBehind_of_not_dynamic fun a member => cut.not_dynamic constant member,
      Run.width_eq sound constant]
    exact wrappedStart_add start (run.extent field)

private theorem starts_place {runs : List (Run α)}
    (cut : ∀ run ∈ runs, run.IsCut fun a => (field a).isElementary)
    (sound : ∀ run ∈ runs, ∀ a ∈ run.members, (field a).Sound) (start : Option Nat) :
    ((Run.place field (wrappedStart start) runs).flatMap fun placed =>
        (Run.offsets field 0 placed.run.members).map fun pair =>
          placed.start.map (Word.add · pair.2)) =
      (memberStarts field start (runs.flatMap Run.members)).map wrappedStart := by
  induction runs generalizing start with
  | nil => rfl
  | cons run rest ih =>
    have cutHere := cut run (by simp)
    have soundHere := sound run (by simp)
    have others := ih (fun other later => cut other (by simp [later]))
      (fun other later => sound other (by simp [later])) (startBehind field start run.members)
    simp only [Run.place, List.flatMap_cons, memberStarts_append, List.map_append]
    rw [cutHere.map_starts soundHere, cutHere.next_start soundHere, others]

end

private theorem flatMap_zipIdx {α β : Type} (g : α → List β) (l : List α) (k : Nat) :
    (l.zipIdx k).flatMap (fun pair => g pair.1) = l.flatMap g := by
  induction l generalizing k with
  | nil => rfl
  | cons a rest ih => simp [List.zipIdx_cons, ih]

private theorem memberStarts_map {α : Type} (field : α → Field) (sum : Option Nat) (members : List α) :
    memberStarts id sum (members.map field) = memberStarts field sum members := by
  induction members generalizing sum with
  | nil => rfl
  | cons a rest ih => simp [memberStarts, ih]

namespace Layout.Sound

variable {l : Layout}

private theorem map_start_placements (sound : l.Sound) :
    l.placements.map (·.start) = (memberStarts id (some 0) l.fields).map wrappedStart := by
  have members := Run.flatMap_members_partition (fun member : Field × Nat => member.1.isElementary)
    l.fields.zipIdx
  have whole := starts_place
    (Run.isCut_of_mem_partition (fun member : Field × Nat => member.1.isElementary) l.fields.zipIdx)
    (by
      intro run member part inside
      have listed : part ∈ l.fields.zipIdx := members ▸ List.mem_flatMap.mpr ⟨run, member, inside⟩
      exact sound.field (List.fst_mem_of_mem_zipIdx listed)) (some 0)
  rw [members, ← memberStarts_map, List.zipIdx_map_fst] at whole
  rw [← whole, ← flatMap_zipIdx _ _ 0]
  simp only [Layout.placements, List.map_flatMap, List.map_map]
  rfl

private theorem fieldOffset?_eq (sound : l.Sound) (i : Nat) :
    l.fieldOffset? i =
      if i < l.fields.length then wrappedStart (startBehind id (some 0) (l.fields.take i)) else none := by
  have starts := congrArg (fun list => list[i]?) sound.map_start_placements
  simp only [List.getElem?_map, getElem?_memberStarts] at starts
  simp only [Layout.fieldOffset?]
  cases here : l.placements[i]? with
  | none =>
    split
    · rename_i inside
      simp [here, inside] at starts
    · rfl
  | some placement =>
    split
    · rename_i inside
      simpa [here, inside] using starts
    · rename_i outside
      simp [here, outside] at starts

theorem fieldOffset?_isSome_iff (sound : l.Sound) (i : Nat) :
    (l.fieldOffset? i).isSome = true ↔
      i < l.fields.length ∧ ∀ f ∈ l.fields.take i, f.isDynamic = false := by
  rw [sound.fieldOffset?_eq i]
  by_cases inside : i < l.fields.length
  · simp only [inside, if_true, true_and]
    constructor
    · intro known
      obtain ⟨offset, here⟩ := Option.isSome_iff_exists.mp known
      obtain ⟨n, exact_start, _⟩ := Option.map_eq_some_iff.mp here
      exact (startBehind_eq_some exact_start).1
    · intro constant
      rw [startBehind_of_not_dynamic (show ∀ f ∈ l.fields.take i, (id f).isDynamic = false from constant)]
      rfl
  · simp [inside]

/-- The offset of a field is the sum of the extents before it, as a machine word. -/
theorem fieldOffset?_eq_some (sound : l.Sound) {i : Nat} {offset : Int}
    (known : l.fieldOffset? i = some offset) :
    offset = Word.wrap (((l.fields.take i).map Field.extent).sum : Nat) := by
  rw [sound.fieldOffset?_eq i] at known
  split at known
  · obtain ⟨n, exact_start, rfl⟩ := Option.map_eq_some_iff.mp known
    have total := (startBehind_eq_some exact_start).2
    simp [total]
  · cases known

end Layout.Sound

end TradeWire
