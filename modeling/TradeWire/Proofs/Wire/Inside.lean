import TradeWire.Proofs.Wire.Succession

/-! Nothing outside the buffer is looked at as long as positions stay machine numbers. -/

set_option autoImplicit false
set_option relaxedAutoImplicit false

namespace TradeWire

/-- While positions are machine numbers for `most` more bytes, the reader never looks outside the buffer. It goes
forward between `least` and `most` bytes, and those are in the buffer. -/
structure Reader.StaysInside {α : Type} (read : Reader α) (least most : Nat) : Prop where
  failed : ∀ (buf : Bytes) (pos : Int) (fault : DecodeError), Word.minSigned ≤ pos →
    pos + most ≤ Word.maxSigned → read buf pos = .error fault → fault.cause ≠ .outside
  ended : ∀ (buf : Bytes) (pos : Int) (a : α) (stop : Int), Word.minSigned ≤ pos →
    pos + most ≤ Word.maxSigned → read buf pos = .ok (a, stop) →
      pos + least ≤ stop ∧ stop ≤ pos + most ∧ (pos < stop → 0 ≤ pos ∧ stop ≤ buf.length)

namespace Reader.StaysInside

variable {α β : Type} {read : Reader α} {least most : Nat}

private theorem mono (stays : read.StaysInside least most) {fewer more : Nat} (low : fewer ≤ least)
    (high : most ≤ more) :
    read.StaysInside fewer more := by
  constructor
  · intro buf pos fault begins room failed
    exact stays.failed buf pos fault begins (by omega) failed
  · intro buf pos a stop begins room done
    obtain ⟨forward, upTo, inside⟩ := stays.ended buf pos a stop begins (by omega) done
    exact ⟨by omega, by omega, inside⟩

private theorem mapped (stays : read.StaysInside least most) (g : α → β) :
    (read.mapped g).StaysInside least most := by
  constructor
  · intro buf pos fault begins room failed
    exact stays.failed buf pos fault begins room (map_eq_error.mp failed)
  · intro buf pos b stop begins room done
    obtain ⟨a, here, _⟩ := Reader.mapped_eq_ok.mp done
    exact stays.ended buf pos a stop begins room here

private theorem andThen (stays : read.StaysInside least most) {next : α → Reader β} {fewer more : Nat}
    (onward : ∀ a, (next a).StaysInside fewer more) :
    (read.andThen next).StaysInside (least + fewer) (most + more) := by
  constructor
  · intro buf pos fault begins room failed
    rw [Int.natCast_add] at room
    rcases Reader.andThen_eq_error.mp failed with here | ⟨a, mid, here, there⟩
    · exact stays.failed buf pos fault begins (by omega) here
    · obtain ⟨forward, upTo, _⟩ := stays.ended buf pos a mid begins (by omega) here
      exact (onward a).failed buf mid fault (by omega) (by omega) there
  · intro buf pos b stop begins room done
    rw [Int.natCast_add] at room ⊢
    obtain ⟨a, mid, here, there⟩ := Reader.andThen_eq_ok.mp done
    obtain ⟨forward, upTo, inside⟩ := stays.ended buf pos a mid begins (by omega) here
    obtain ⟨onwards, atMost, within⟩ := (onward a).ended buf mid b stop (by omega) (by omega) there
    refine ⟨by omega, by omega, ?_⟩
    -- what was gone over is that of one reader, of the other or of both
    intro moved
    by_cases first : pos < mid
    · have before := inside first
      by_cases second : mid < stop
      · exact ⟨before.1, (within second).2⟩
      · exact ⟨before.1, by omega⟩
    · have behind := within (by omega)
      exact ⟨by omega, behind.2⟩

end Reader.StaysInside

private theorem readInTurn_staysInside {α : Type} {read : Reader α} {size : Nat} (each : read.StaysInside size size)
    (count : Nat) : (readInTurn read count).StaysInside (count * size) (count * size) := by
  induction count with
  | zero =>
    rw [Nat.zero_mul]
    constructor
    · intro buf pos fault _ _ failed
      cases failed
    · intro buf pos items stop _ _ done
      cases done
      exact ⟨by omega, by omega, fun moved => absurd moved (Int.lt_irrefl _)⟩
  | succ count ih =>
    rw [readInTurn_succ, Nat.succ_mul, Nat.add_comm]
    exact each.andThen fun item => ih.mapped fun items => item :: items

/-- A part whose field is sound, and whose elements are read inside the buffer. -/
structure ReadPart.IsConfined (part : ReadPart) : Prop where
  field : part.field.Sound
  read : part.read = part.field.readNested
  below : ∀ element, part.field.element? = some element →
    element.read.StaysInside element.extent element.extent

section Runs

variable {owner : String} {earlier : List Slot} {start : Option Int}

private theorem readRun_block_staysInside {first : ReadPart} {rest : List ReadPart}
    (cut : (Run.block first rest).IsCut fun part => part.field.isElementary)
    (fields : ∀ part ∈ first :: rest, part.field.Sound) :
    (readRun owner earlier ⟨.block first rest, (Run.block first rest).width ReadPart.field, start⟩).StaysInside
      ((Run.block first rest).extent ReadPart.field) ((Run.block first rest).extent ReadPart.field) := by
  have width := Run.width_eq fields cut.block_not_dynamic
  have present : ∀ {buf : Bytes} {pos : Int}, Word.minSigned ≤ pos →
      pos + (Run.block first rest).extent ReadPart.field ≤ Word.maxSigned →
        Buffer.isShort buf.length pos ((Run.block first rest).width ReadPart.field) = false →
          (Run.block first rest).width ReadPart.field = (Run.block first rest).extent ReadPart.field ∧
            0 ≤ pos ∧ pos + (Run.block first rest).extent ReadPart.field ≤ buf.length := by
    intro buf pos begins room found
    have nonnegative : 0 ≤ pos := by
      simp only [Buffer.isShort, Bool.or_eq_false_iff, decide_eq_false_iff_not] at found
      omega
    have whole : (Run.block first rest).width ReadPart.field = (Run.block first rest).extent ReadPart.field := by
      rw [width, Word.wrap_natCast (by omega)]
    rw [whole, Buffer.isShort_eq_not_isInside buf.length begins room] at found
    simp only [Buffer.isInside, Bool.not_eq_false', Bool.and_eq_true, decide_eq_true_eq] at found
    exact ⟨whole, nonnegative, found.2⟩
  constructor
  · intro buf pos fault begins room failed
    simp only [readRun] at failed
    split at failed
    · cases failed
      simp [truncatedAt]
    · rename_i found
      obtain ⟨_, nonnegative, within⟩ := present begins room (Bool.eq_false_of_not_eq_true found)
      obtain ⟨slots, read, _⟩ := readBlock_eq owner 0 cut [] nonnegative
        (by rw [Int.natCast_zero, Int.add_zero]; exact room) (by rw [Int.natCast_zero, Int.add_zero]; exact within)
      rw [Int.natCast_zero] at read
      rw [read] at failed
      cases failed
  · intro buf pos slots stop begins room done
    simp only [readRun] at done
    split at done
    · cases done
    · rename_i found
      obtain ⟨whole, nonnegative, within⟩ := present begins room (Bool.eq_false_of_not_eq_true found)
      obtain ⟨_, _, same⟩ := map_eq_ok.mp done
      cases same
      have least : Word.minSigned ≤ 0 := by decide
      rw [whole, Word.add_eq (by omega) room]
      exact ⟨Int.le_refl _, Int.le_refl _, fun _ => ⟨nonnegative, within⟩⟩

private theorem readRun_varBytes_staysInside {name type : String} {size counter : Nat} {reader : Nat → Reader Slot}
    {width : Int} :
    (readRun owner earlier
      ⟨.single ⟨.primitive name type size (.varBytes counter), reader⟩, width, start⟩).StaysInside 0 size := by
  have present : ∀ {buf : Bytes} {pos : Int} {count : Nat}, Word.minSigned ≤ pos → count ≤ size →
      pos + size ≤ Word.maxSigned → Buffer.isShort buf.length pos count = false →
        0 ≤ pos ∧ pos + count ≤ buf.length := by
    intro buf pos count begins bounded room found
    rw [Buffer.isShort_eq_not_isInside buf.length begins (by omega)] at found
    simp only [Buffer.isInside, Bool.not_eq_false', Bool.and_eq_true, decide_eq_true_eq] at found
    exact ⟨found.1.1, found.2⟩
  constructor
  · intro buf pos fault begins room failed
    rw [readRun_varBytes] at failed
    split at failed
    · cases failed
      simp
    · rename_i bounded
      split at failed
      · cases failed
        simp [truncatedAt]
      · rename_i found
        obtain ⟨nonnegative, within⟩ :=
          present begins (Nat.not_lt.mp bounded) room (Bool.eq_false_of_not_eq_true found)
        have sliced := Buffer.slice?_eq_some.mpr ⟨nonnegative, Int.natCast_nonneg _, within, rfl⟩
        rw [readAt, sliced] at failed
        cases failed
  · intro buf pos slots stop begins room done
    obtain ⟨bounded, data, sliced, _, rfl⟩ := readRun_varBytes_inv done
    obtain ⟨nonnegative, _, within, _⟩ := Buffer.slice?_eq_some.mp sliced
    have least : Word.minSigned ≤ 0 := by decide
    rw [Word.add_eq (by omega) (by omega)]
    exact ⟨by omega, by omega, fun _ => ⟨nonnegative, within⟩⟩

private theorem readRun_staysInside {run : Run ReadPart} (cut : run.IsCut fun part => part.field.isElementary)
    (parts : ∀ part ∈ run.members, part.IsConfined) :
    (readRun owner earlier ⟨run, run.width ReadPart.field, start⟩).StaysInside (run.extent ReadPart.field)
      (run.members.map fun part => part.field.capacity).sum := by
  cases run with
  | block first rest =>
    rw [cut.capacity_eq_extent cut.block_not_dynamic]
    exact readRun_block_staysInside cut fun part member => (parts part member).field
  | single part =>
    have confined := parts part (List.mem_singleton_self _)
    obtain ⟨f, reader⟩ := part
    obtain ⟨_, known, below⟩ := confined
    simp only at known below
    subst known
    simp only [Run.extent, Run.members, List.map_cons, List.map_nil, List.sum_cons, List.sum_nil, Nat.add_zero]
    cases f with
    | primitive name type size kind =>
      cases kind with
      | varBytes counter => exact readRun_varBytes_staysInside
      | int | pad | bytes => simp [Run.IsCut, Field.isElementary] at cut
    | nested name repetition element =>
      have one := below element rfl
      cases repetition with
      | once =>
        rw [readRun_nested_once]
        exact one.mapped _
      | array count =>
        rw [readRun_nested_array]
        exact (readInTurn_staysInside one count).mapped _
      | group counter least most =>
        rw [Field.capacity_nested, Field.extent, Repetition.most]
        by_cases bounded : (rawAt earlier counter).toNat ≤ most
        · rw [readRun_nested_group bounded]
          exact ((readInTurn_staysInside one _).mapped _).mono (Nat.zero_le _) (Nat.mul_le_mul_right _ bounded)
        · constructor
          · intro buf pos fault _ _ failed
            rw [readRun_group, if_pos (by omega)] at failed
            cases failed
            simp
          · intro buf pos slots stop _ _ done
            exact absurd (bounded_of_readRun_group done) bounded

private theorem readBehind_staysInside {runs : List (Run ReadPart)}
    (cut : ∀ run ∈ runs, run.IsCut fun part => part.field.isElementary)
    (parts : ∀ run ∈ runs, ∀ part ∈ run.members, part.IsConfined) (earlier : List Slot) :
    (readBehind owner earlier runs).StaysInside
      ((runs.flatMap Run.members).map fun part => part.field.extent).sum
      ((runs.flatMap Run.members).map fun part => part.field.capacity).sum := by
  induction runs generalizing earlier with
  | nil =>
    constructor
    · intro buf pos fault _ _ failed
      cases failed
    · intro buf pos slots stop _ _ done
      cases done
      exact ⟨by simp, by simp, fun moved => absurd moved (Int.lt_irrefl _)⟩
  | cons run rest ih =>
    simp only [List.flatMap_cons, List.map_append, List.sum_append_nat]
    refine (readRun_staysInside (cut run (by simp)) (parts run (by simp))).andThen fun slots => ?_
    exact ih (fun other later => cut other (by simp [later])) (fun other later => parts other (by simp [later])) _

end Runs

/-- An instance is read inside the buffer, and takes between the extent and the capacity of its layout. -/
theorem Layout.Sound.read_staysInside {l : Layout} (sound : l.Sound) :
    l.read.StaysInside l.extent l.capacity := by
  induction sound with
  | @mk name message size fields widths counters sized static elements ih =>
    have whole : (Layout.mk name message size fields).Sound := .mk widths counters sized static elements
    have parts : ∀ run ∈ readingRuns fields, ∀ part ∈ run.members, part.IsConfined := by
      refine forall_mem_readingRuns fun f member => ⟨whole.field member, rfl, ?_⟩
      intro element nested
      have inside := ih f member element nested
      rwa [(elements f member element nested).capacity_eq (static f member element nested)] at inside
    have behind : (readBehind name [] (readingRuns fields)).StaysInside
        (((readingRuns fields).flatMap Run.members).map fun part => part.field.extent).sum
        (((readingRuns fields).flatMap Run.members).map fun part => part.field.capacity).sum :=
      readBehind_staysInside (isCut_of_mem_readingRuns fields) parts []
    rw [flatMap_members_readingRuns, List.map_map, List.map_map] at behind
    rw [Layout.extent_eq_sum, Layout.capacity]
    constructor
    · intro buf pos fault begins room failed
      rw [whole.read_eq_readBehind buf begins (by omega)] at failed
      exact behind.failed buf pos fault begins room failed
    · intro buf pos slots stop begins room done
      rw [whole.read_eq_readBehind buf begins (by omega)] at done
      exact behind.ended buf pos slots stop begins room done

end TradeWire
