import TradeWire.Proofs.Layout.Offsets
import TradeWire.Proofs.Wire.Succession

/-! Fields in front of which nothing is dynamic are read at their offsets. -/

set_option autoImplicit false
set_option relaxedAutoImplicit false

namespace TradeWire

/-- The slot of an integer or of a nested structure is what the buffer holds at a position; nothing is
said of other fields. -/
def Field.IsFoundAt (f : Field) (buf : Bytes) (pos : Int) (s : Slot) : Prop :=
  match f with
  | .primitive _ _ size (.int form) =>
    ∃ data, Buffer.slice? buf pos size = some data ∧ s = intSlot size form data
  | .nested _ .once element => ∃ slots stop, element.read buf pos = .ok (slots, stop) ∧ s = .struct slots
  | _ => True

private theorem Field.isFoundAt_of_readElementary {owner : String} {buf : Bytes} {pos : Int} {f : Field} {s : Slot}
    (elementary : f.isElementary = true) (read : readElementary owner buf pos f = .ok s) :
    f.IsFoundAt buf pos s := by
  match f with
  | .primitive name _ size (.int form) =>
    simp only [readElementary] at read
    cases found : readAt owner name buf pos size with
    | error fault => simp [found, Except.map] at read
    | ok data =>
      simp only [found, Except.map, Except.ok.injEq] at read
      refine ⟨data, ?_, read.symm⟩
      rw [← toOption_readAt, found]
      rfl
  | .primitive _ _ _ .pad | .primitive _ _ _ (.bytes _) => trivial
  | .primitive _ _ _ (.varBytes _) | .nested .. => simp [Field.isElementary] at elementary

private theorem isFoundAt_of_readBlock {owner : String} {buf : Bytes} {start offset : Int} {parts : List ReadPart}
    {slots : List Slot} (elementary : ∀ part ∈ parts, part.field.isElementary = true)
    (read : readBlock owner buf start (Run.offsets ReadPart.field offset parts) = .ok slots) {i : Nat}
    {part : ReadPart} {s : Slot} (here : parts[i]? = some part) (held : slots[i]? = some s) :
    part.field.IsFoundAt buf
      (Word.wrap (start + offset + (((parts.take i).map fun part => part.field.extent).sum : Nat))) s := by
  induction parts generalizing offset slots i with
  | nil => simp at here
  | cons head rest ih =>
    simp only [Run.offsets, readBlock] at read
    split at read
    · cases read
    · rename_i slot first
      split at read
      · cases read
      · rename_i more tail
        cases read
        have simple := elementary head (by simp)
        cases i with
        | zero =>
          simp only [List.getElem?_cons_zero, Option.some.injEq] at here held
          subst here held
          simpa [Word.add] using Field.isFoundAt_of_readElementary simple first
        | succ i =>
          have found := ih (fun other later => elementary other (by simp [later])) tail
            (by simpa using here) (by simpa using held)
          have place : Word.wrap (start + Word.add offset head.field.width +
              (((rest.take i).map fun part => part.field.extent).sum : Nat)) =
              Word.wrap (start + offset +
                ((((head :: rest).take (i + 1)).map fun part => part.field.extent).sum : Nat)) := by
            rw [Field.width_of_elementary simple, Word.add, Int.add_right_comm, Word.wrap_add_wrap,
              List.take_succ_cons, List.map_cons, List.sum_cons, Int.natCast_add]
            congr 1
            omega
          rw [← place]
          exact found

private theorem Run.getElem?_members_single {α : Type} {member x : α} {i : Nat}
    (here : (Run.single member).members[i]? = some x) : i = 0 ∧ member = x := by
  obtain ⟨inside, same⟩ := List.getElem?_eq_some_iff.mp here
  obtain rfl : i = 0 := by
    simp only [Run.members, List.length_singleton] at inside
    omega
  exact ⟨rfl, same⟩

private theorem isFoundAt_of_readRun {owner : String} {earlier : List Slot} {run : Run ReadPart}
    (cut : run.IsCut fun part => part.field.isElementary) (steady : ∀ part ∈ run.members, part.IsSteady)
    {buf : Bytes} {pos stop : Int} {slots : List Slot} (low : Word.minSigned ≤ pos)
    (high : pos ≤ Word.maxSigned)
    (read : readRun owner earlier ⟨run, run.width ReadPart.field, none⟩ buf pos = .ok (slots, stop))
    {i : Nat} {part : ReadPart} {s : Slot} (here : run.members[i]? = some part)
    (held : slots[i]? = some s) :
    part.field.IsFoundAt buf
      (Word.wrap (pos + (((run.members.take i).map fun part => part.field.extent).sum : Nat))) s := by
  cases readsRun_of_ok cut (fun part member => (steady part member).read) read with
  | block _ members =>
    have member := isFoundAt_of_readBlock cut members here held
    rw [Int.add_zero] at member
    exact member
  | once inner =>
    obtain ⟨rfl, rfl⟩ := Run.getElem?_members_single here
    simp only [List.take_zero, List.map_nil, List.sum_nil, Int.natCast_zero, Int.add_zero,
      Word.wrap_eq_self low high]
    exact ⟨_, stop, inner, by simpa using held.symm⟩
  | varBytes | array | group =>
    obtain ⟨rfl, rfl⟩ := Run.getElem?_members_single here
    trivial

private theorem exists_append_of_readBehind {owner : String} {runs : List (Run ReadPart)} {buf : Bytes}
    {pos stop : Int} {earlier all : List Slot}
    (read : readBehind owner earlier runs buf pos = .ok (all, stop)) : ∃ more, all = earlier ++ more := by
  induction runs generalizing earlier pos with
  | nil =>
    simp only [readBehind, Except.ok.injEq, Prod.mk.injEq] at read
    exact ⟨[], by simp [read.1]⟩
  | cons run rest ih =>
    obtain ⟨slots, mid, _, tail⟩ := Reader.andThen_eq_ok.mp read
    obtain ⟨more, same⟩ := ih tail
    exact ⟨slots ++ more, by simp [same]⟩

private theorem isFoundAt_of_readBehind {owner : String} {runs : List (Run ReadPart)}
    (cut : ∀ run ∈ runs, run.IsCut fun part => part.field.isElementary)
    (steady : ∀ run ∈ runs, ∀ part ∈ run.members, part.IsSteady) {buf : Bytes} {pos stop : Int}
    {earlier all : List Slot} (low : Word.minSigned ≤ pos) (high : pos ≤ Word.maxSigned)
    (read : readBehind owner earlier runs buf pos = .ok (all, stop)) {i : Nat} {part : ReadPart} {s : Slot}
    (here : (runs.flatMap Run.members)[i]? = some part)
    (constant : ∀ other ∈ (runs.flatMap Run.members).take i, other.field.isDynamic = false)
    (held : all[earlier.length + i]? = some s) :
    part.field.IsFoundAt buf (Word.wrap (pos +
      ((((runs.flatMap Run.members).take i).map fun part => part.field.extent).sum : Nat))) s := by
  induction runs generalizing earlier pos i with
  | nil => simp at here
  | cons run rest ih =>
    obtain ⟨slots, mid, first, tail⟩ := Reader.andThen_eq_ok.mp read
    have cutHere := cut run (by simp)
    have steadyHere := steady run (by simp)
    have lengths : run.members.length = slots.length := by
      have kinds := Field.admits_holdsOfReads.forall₂_of_readRun cutHere
        (fun part member => Field.admits_holdsOfReads.reads (steadyHere part member).read) first
      simpa using kinds.length_eq
    rw [List.flatMap_cons] at here constant ⊢
    by_cases inside : i < run.members.length
    · obtain ⟨more, rfl⟩ := exists_append_of_readBehind tail
      rw [List.getElem?_append_left inside] at here
      rw [List.append_assoc, List.getElem?_append_right (by omega), Nat.add_sub_cancel_left,
        List.getElem?_append_left (by omega)] at held
      rw [List.take_append_of_le_length (by omega)]
      exact isFoundAt_of_readRun cutHere steadyHere low high first here held
    · -- all of the run is in front of the member, so the run ends where its extent says
      have split : (run.members ++ rest.flatMap Run.members).take i =
          run.members ++ (rest.flatMap Run.members).take (i - run.members.length) := by
        rw [List.take_append, List.take_of_length_le (by omega)]
      rw [split] at constant ⊢
      have static : run.isDynamic ReadPart.field = false :=
        constant run.head (List.mem_append_left _ run.head_mem_members)
      have behind := readRun_advances owner earlier cutHere steadyHere static none buf pos slots mid low
        high first
      rw [List.getElem?_append_right (by omega)] at here
      have found := ih (fun other later => cut other (by simp [later]))
        (fun other later => steady other (by simp [later])) (behind ▸ Word.minSigned_le_wrap _)
        (behind ▸ Word.wrap_le_maxSigned _) tail here
        (fun other later => constant other (List.mem_append_right _ later))
        (by
          rw [List.length_append, ← lengths, Nat.add_assoc, Nat.add_sub_cancel' (by omega)]
          exact held)
      rw [behind, Word.wrap_wrap_add] at found
      rw [List.map_append, List.sum_append_nat, Int.natCast_add, ← Int.add_assoc]
      exact found

/-- What a layout reads at the offset of a field is the slot of that field. -/
theorem Layout.Sound.isFoundAt_of_read {l : Layout} (sound : l.Sound) {buf : Bytes} {pos stop : Int}
    {slots : List Slot} (low : Word.minSigned ≤ pos) (high : pos ≤ Word.maxSigned)
    (read : l.read buf pos = .ok (slots, stop)) {i : Nat} {offset : Int} {f : Field} {s : Slot}
    (known : l.fieldOffset? i = some offset) (here : l.fields[i]? = some f) (held : slots[i]? = some s) :
    f.IsFoundAt buf (Word.add pos offset) s := by
  rw [sound.read_eq_readBehind buf low high] at read
  have constant := ((sound.fieldOffset?_isSome_iff i).mp (by simp [known])).2
  have members := flatMap_members_readingRuns l.fields
  have found := isFoundAt_of_readBehind (isCut_of_mem_readingRuns l.fields)
    (forall_mem_readingRuns fun f member => ⟨sound.field member, rfl, fun element nested =>
      ((sound.field member).element element nested).read_advances
        ((sound.field member).static element nested)⟩)
    low high read (show ((readingRuns l.fields).flatMap Run.members)[i]? = some ⟨f, f.readNested⟩ by
      rw [members, List.getElem?_map, here]
      rfl)
    (by
      intro other member
      rw [members, ← List.map_take] at member
      obtain ⟨g, before, rfl⟩ := List.mem_map.mp member
      exact constant g before)
    (by simpa using held)
  rw [members, ← List.map_take, List.map_map] at found
  rw [sound.fieldOffset?_eq_some known, Word.add, Word.wrap_add_wrap]
  exact found

end TradeWire
