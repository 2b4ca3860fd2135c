import TradeWire.Proofs.Wire.Succession

/-!
Locality of reading. What is read from a stretch of a buffer is read from the same bytes in any other
place, and a part of the stretch is never enough: reading it stops for want of bytes before a counter or
a value from behind the cut could matter. Positions that have wrapped are negative and stay so, which is
why an end inside the buffer says that none has.
-/

set_option autoImplicit false
set_option relaxedAutoImplicit false

namespace TradeWire

/-- Reading stopped because the buffer ends too early. -/
def DecodeError.Cause.isTruncated : DecodeError.Cause → Bool
  | truncated .. => true
  | _ => false

namespace Buffer

private theorem isShort_eq_true {length p count : Nat} (bounded : ((p + count : Nat) : Int) ≤ Word.maxSigned)
    (beyond : length < p + count) : isShort length p count = true := by
  have sum : Word.add p count = ((p + count : Nat) : Int) := Word.add_natCast bounded
  simp only [isShort, sum, Bool.or_eq_true, decide_eq_true_eq]
  omega

private theorem isShort_whole {before chunk after : Bytes} (addressable : IsAddressable (before ++ chunk ++ after)) :
    isShort (before ++ chunk ++ after).length before.length chunk.length = false := by
  refine isShort_eq_false addressable ?_
  simp only [List.length_append]
  omega

private theorem isShort_part {before chunk start rest : Bytes} (split : chunk = start ++ rest) (missing : rest ≠ [])
    (addressable : IsAddressable (before ++ chunk)) :
    isShort (before ++ start).length before.length chunk.length = true := by
  unfold IsAddressable at addressable
  rw [List.length_append] at addressable
  refine isShort_eq_true addressable ?_
  have positive := List.length_pos_of_ne_nil missing
  rw [split]
  simp only [List.length_append]
  omega

private theorem exists_stretch {buf : Bytes} {p count : Nat} (within : p + count ≤ buf.length) :
    ∃ before chunk after, buf = before ++ chunk ++ after ∧ before.length = p ∧ chunk.length = count := by
  refine ⟨buf.take p, (buf.drop p).take count, (buf.drop p).drop count, by simp, ?_, ?_⟩
  · rw [List.length_take]
    omega
  · rw [List.length_take, List.length_drop]
    omega

private theorem slice?_append {before chunk after : Bytes} {offset count : Nat}
    (within : offset + count ≤ chunk.length) :
    slice? (before ++ chunk ++ after) ((before.length + offset : Nat) : Int) count =
      some ((chunk.drop offset).take count) := by
  refine slice?_eq_some.mpr ⟨by omega, by omega, ?_, ?_⟩
  · simp only [List.length_append]
    omega
  · have front : (before ++ chunk ++ after).drop (before.length + offset) = chunk.drop offset ++ after := by
      rw [← List.drop_drop, List.append_assoc, List.drop_left, List.drop_append_of_le_length (by omega)]
    rw [Int.toNat_natCast, Int.toNat_natCast, front, List.take_append_of_le_length]
    rw [List.length_drop]
    omega

theorem slice?_whole (before chunk after : Bytes) :
    slice? (before ++ chunk ++ after) before.length chunk.length = some chunk := by
  have inside : 0 + chunk.length ≤ chunk.length := by omega
  simpa using slice?_append inside

end Buffer

namespace Reader

variable {α β : Type}

/-- The reader takes exactly these bytes, wherever they stand, and each of them is needed. -/
structure Takes (read : Reader α) (chunk : Bytes) (a : α) : Prop where
  whole : ∀ before after, Buffer.IsAddressable (before ++ chunk ++ after) →
    read (before ++ chunk ++ after) before.length = .ok (a, ((before.length + chunk.length : Nat) : Int))
  part : ∀ before start rest, chunk = start ++ rest → rest ≠ [] →
    Buffer.IsAddressable (before ++ chunk) →
      ∃ fault, read (before ++ start) before.length = .error fault ∧ fault.cause.isTruncated = true

/-- What the reader finds at a position is taken from there. -/
def TakesFrom (read : Reader α) (buf : Bytes) (pos : Int) (a : α) (stop : Int) : Prop :=
  ∃ before chunk after, buf = before ++ chunk ++ after ∧ pos = before.length ∧
    stop = ((before.length + chunk.length : Nat) : Int) ∧ read.Takes chunk a

private theorem Takes.nothing (a : α) : Takes (fun _ pos => .ok (a, pos)) [] a := by
  refine ⟨?_, ?_⟩
  · intro before after _
    simp
  · intro before start rest none some_left
    exact absurd (List.append_eq_nil_iff.mp none.symm).2 some_left

private theorem Takes.mapped {read : Reader α} {chunk : Bytes} {a : α} (takes : read.Takes chunk a) (g : α → β) :
    (read.mapped g).Takes chunk (g a) := by
  refine ⟨?_, ?_⟩
  · intro before after addressable
    rw [Reader.mapped, takes.whole before after addressable]
    rfl
  · intro before start rest split missing addressable
    obtain ⟨fault, failed, truncated⟩ := takes.part before start rest split missing addressable
    refine ⟨fault, ?_, truncated⟩
    rw [Reader.mapped, failed]
    rfl

private theorem Takes.andThen {first : Reader α} {next : α → Reader β} {chunk more : Bytes} {a : α} {b : β}
    (here : first.Takes chunk a) (there : (next a).Takes more b) :
    (first.andThen next).Takes (chunk ++ more) b := by
  -- the second reader behind the first chunk
  have onward : ∀ before tail, Buffer.IsAddressable (before ++ chunk ++ tail) →
      first.andThen next (before ++ chunk ++ tail) before.length =
        next a ((before ++ chunk) ++ tail) ((before ++ chunk).length : Int) := by
    intro before tail addressable
    rw [Reader.andThen, here.whole before tail addressable, List.length_append]
  refine ⟨?_, ?_⟩
  · intro before after addressable
    have same : before ++ (chunk ++ more) ++ after = before ++ chunk ++ (more ++ after) := by simp
    have rest : (before ++ chunk) ++ (more ++ after) = before ++ chunk ++ more ++ after := by simp
    rw [same] at addressable ⊢
    rw [onward before (more ++ after) addressable, rest,
      there.whole (before ++ chunk) after (rest ▸ addressable)]
    simp only [List.length_append, Nat.add_assoc]
  · intro before start rest split missing addressable
    rw [← List.append_assoc] at addressable
    -- either the first chunk is complete, or a byte of it is missing
    have cases_of_cut : (∃ t, start = chunk ++ t ∧ more = t ++ rest) ∨
        ∃ t, t ≠ [] ∧ chunk = start ++ t := by
      rcases List.append_eq_append_iff.mp split with ⟨t, begun, ended⟩ | ⟨t, begun, ended⟩
      · exact .inl ⟨t, begun, ended⟩
      · by_cases none : t = []
        · subst none
          exact .inl ⟨[], by simpa using begun.symm, by simpa using ended.symm⟩
        · exact .inr ⟨t, none, begun⟩
    rcases cases_of_cut with ⟨t, rfl, later⟩ | ⟨t, some_left, cut⟩
    · have inMemory : Buffer.IsAddressable (before ++ chunk ++ t) := by
        rw [later] at addressable
        unfold Buffer.IsAddressable at addressable ⊢
        simp only [List.length_append] at addressable ⊢
        omega
      rw [← List.append_assoc, onward before t inMemory]
      exact there.part (before ++ chunk) t rest later missing addressable
    · have inMemory : Buffer.IsAddressable (before ++ chunk) := by
        unfold Buffer.IsAddressable at addressable ⊢
        simp only [List.length_append] at addressable ⊢
        omega
      obtain ⟨fault, failed, truncated⟩ := here.part before start t cut some_left inMemory
      refine ⟨fault, ?_, truncated⟩
      rw [Reader.andThen, failed]

private theorem TakesFrom.inside {read : Reader α} {buf : Bytes} {pos stop : Int} {a : α}
    (takes : read.TakesFrom buf pos a stop) : 0 ≤ pos ∧ pos ≤ stop ∧ stop ≤ buf.length := by
  obtain ⟨before, chunk, after, rfl, rfl, rfl, _⟩ := takes
  simp only [List.length_append]
  omega

private theorem TakesFrom.nothing {buf : Bytes} {pos : Int} (a : α) (start : 0 ≤ pos) (within : pos ≤ buf.length) :
    TakesFrom (fun _ pos => .ok (a, pos)) buf pos a pos := by
  refine ⟨buf.take pos.toNat, [], buf.drop pos.toNat, by simp, ?_, ?_, .nothing a⟩
  · rw [List.length_take]
    omega
  · rw [List.length_take, List.length_nil]
    omega

private theorem TakesFrom.mapped {read : Reader α} {buf : Bytes} {pos stop : Int} {a : α}
    (takes : read.TakesFrom buf pos a stop) (g : α → β) :
    (read.mapped g).TakesFrom buf pos (g a) stop := by
  obtain ⟨before, chunk, after, split, start, behind, here⟩ := takes
  exact ⟨before, chunk, after, split, start, behind, here.mapped g⟩

private theorem TakesFrom.congr {read other : Reader α} {buf : Bytes} {pos stop : Int} {a : α}
    (takes : read.TakesFrom buf pos a stop)
    (agree : ∀ buf pos, Word.minSigned ≤ pos → pos ≤ Word.maxSigned → read buf pos = other buf pos) :
    other.TakesFrom buf pos a stop := by
  obtain ⟨before, chunk, after, split, start, behind, here⟩ := takes
  have least : Word.minSigned ≤ 0 := by decide
  refine ⟨before, chunk, after, split, start, behind, ⟨?_, ?_⟩⟩
  · intro front back addressable
    have taken := here.whole front back addressable
    unfold Buffer.IsAddressable at addressable
    simp only [List.length_append] at addressable
    rwa [agree _ _ (by omega) (by omega)] at taken
  · intro front begun rest cut missing addressable
    have failed := here.part front begun rest cut missing addressable
    unfold Buffer.IsAddressable at addressable
    simp only [List.length_append] at addressable
    rwa [agree _ _ (by omega) (by omega)] at failed

private theorem TakesFrom.andThen {first : Reader α} {next : α → Reader β} {buf : Bytes} {pos mid stop : Int}
    {a : α} {b : β} (here : first.TakesFrom buf pos a mid) (there : (next a).TakesFrom buf mid b stop) :
    (first.andThen next).TakesFrom buf pos b stop := by
  obtain ⟨before, chunk, after, rfl, rfl, rfl, taken⟩ := here
  obtain ⟨front, more, back, split, start, rfl, onward⟩ := there
  have meet : (before ++ chunk).length = front.length := by
    rw [List.length_append]
    omega
  rw [List.append_assoc front] at split
  obtain ⟨rfl, rfl⟩ := List.append_inj split meet
  refine ⟨before, chunk ++ more, back, by simp, rfl, ?_, taken.andThen onward⟩
  simp only [List.length_append]
  omega

/-- Whatever the reader finds, it starts inside the buffer; where the end is no wrapped position, it is
taken from there. -/
structure IsLocal (read : Reader α) : Prop where
  begins : ∀ (buf : Bytes) (pos : Int) (a : α) (stop : Int), Word.minSigned ≤ pos →
    pos ≤ Word.maxSigned → read buf pos = .ok (a, stop) → 0 ≤ pos
  takes : ∀ (buf : Bytes) (pos : Int) (a : α) (stop : Int), Buffer.IsAddressable buf →
    Word.minSigned ≤ pos → pos ≤ Word.maxSigned → read buf pos = .ok (a, stop) → 0 ≤ stop →
      read.TakesFrom buf pos a stop

end Reader

private theorem readInTurn_below {α : Type} {read : Reader α} (each : read.IsLocal) {count : Nat} {buf : Bytes}
    {pos stop : Int} {items : List α} (low : Word.minSigned ≤ pos) (below : pos < 0)
    (done : readInTurn read count buf pos = .ok (items, stop)) : count = 0 ∧ stop = pos := by
  cases count with
  | zero =>
    simp only [readInTurn, Except.ok.injEq, Prod.mk.injEq] at done
    exact ⟨rfl, done.2.symm⟩
  | succ count =>
    rw [readInTurn_succ] at done
    obtain ⟨item, next, here, _⟩ := Reader.andThen_eq_ok.mp done
    have most : (0 : Int) ≤ Word.maxSigned := by decide
    have start := each.begins buf pos item next low (by omega) here
    omega

private theorem readInTurn_takesFrom {α : Type} {read : Reader α} {n : Nat} (each : read.IsLocal)
    (advances : read.Advances n) {count : Nat} {buf : Bytes} {pos stop : Int} {items : List α}
    (addressable : Buffer.IsAddressable buf) (low : Word.minSigned ≤ pos) (high : pos ≤ Word.maxSigned)
    (placed : count = 0 → 0 ≤ pos ∧ pos ≤ buf.length)
    (done : readInTurn read count buf pos = .ok (items, stop)) (inside : 0 ≤ stop) :
    (readInTurn read count).TakesFrom buf pos items stop := by
  induction count generalizing pos items with
  | zero =>
    simp only [readInTurn, Except.ok.injEq, Prod.mk.injEq] at done
    obtain ⟨rfl, rfl⟩ := done
    obtain ⟨start, within⟩ := placed rfl
    exact .nothing [] start within
  | succ count ih =>
    rw [readInTurn_succ] at done ⊢
    obtain ⟨item, next, here, rest⟩ := Reader.andThen_eq_ok.mp done
    obtain ⟨others, there, rfl⟩ := Reader.mapped_eq_ok.mp rest
    have word := advances buf pos item next low high here
    have lowNext : Word.minSigned ≤ next := word ▸ Word.minSigned_le_wrap _
    have highNext : next ≤ Word.maxSigned := word ▸ Word.wrap_le_maxSigned _
    have forward : 0 ≤ next := by
      by_contra behind
      have stays := (readInTurn_below each lowNext (by omega) there).2
      omega
    have taken := each.takes buf pos item next addressable low high here forward
    have bounds := taken.inside
    exact taken.andThen ((ih lowNext highNext (fun _ => ⟨by omega, by omega⟩) there).mapped _)

/-- A part whose elements are read locally, at least one of them when it is no group. -/
structure ReadPart.IsLocal (part : ReadPart) : Prop extends part.IsSteady where
  holds : ∀ name repetition element, part.field = .nested name repetition element → 0 < repetition.most
  each : ∀ element, part.field.element? = some element → element.read.IsLocal

private theorem readElementary_shift {owner : String} {f : Field} (elementary : f.isElementary = true)
    {before chunk after : Bytes} {offset : Nat} (within : offset + f.extent ≤ chunk.length) :
    readElementary owner (before ++ chunk ++ after) ((before.length + offset : Nat) : Int) f =
      readElementary owner chunk offset f := by
  match f with
  | .primitive name _ size (.int form) | .primitive name _ size (.bytes _) =>
    have present : offset + size ≤ chunk.length := within
    have alone : Buffer.slice? chunk offset size = some ((chunk.drop offset).take size) :=
      Buffer.slice?_eq_some.mpr ⟨by omega, by omega, by omega, by simp⟩
    simp only [readElementary, readAt, Buffer.slice?_append present, alone]
  | .primitive _ _ _ .pad => rfl
  | .primitive _ _ _ (.varBytes _) | .nested .. => simp [Field.isElementary] at elementary

private theorem readBlock_shift (owner : String) {parts : List ReadPart}
    (elementary : ∀ part ∈ parts, part.field.isElementary = true) {before chunk after : Bytes}
    (offset : Nat)
    (within : offset + (parts.map fun part => part.field.extent).sum ≤ chunk.length)
    (addressable : Buffer.IsAddressable (before ++ chunk ++ after)) :
    readBlock owner (before ++ chunk ++ after) before.length (Run.offsets ReadPart.field offset parts) =
      readBlock owner chunk 0 (Run.offsets ReadPart.field offset parts) := by
  induction parts generalizing offset with
  | nil => rfl
  | cons part rest ih =>
    have simple := elementary part (by simp)
    have bound := addressable
    unfold Buffer.IsAddressable at bound
    simp only [List.length_append] at bound
    simp only [List.map_cons, List.sum_cons] at within
    have place : Word.add before.length offset = ((before.length + offset : Nat) : Int) :=
      Word.add_natCast (by omega)
    have first : Word.add 0 offset = (offset : Int) := by
      rw [Word.add, Int.zero_add]
      exact Word.wrap_natCast (by omega)
    have behind : Word.add offset part.field.width = ((offset + part.field.extent : Nat) : Int) := by
      rw [Field.width_of_elementary simple]
      exact Word.add_natCast (by omega)
    have others := ih (fun other later => elementary other (by simp [later]))
      (offset + part.field.extent) (by omega)
    simp only [Run.offsets, readBlock, place, first, behind, others,
      readElementary_shift simple (show offset + part.field.extent ≤ chunk.length by omega)]

private theorem readRun_block_takes (owner : String) (earlier : List Slot) {first : ReadPart}
    {rest : List ReadPart} (cut : (Run.block first rest).IsCut fun part => part.field.isElementary)
    {width : Int} (exact_width : width = ((Run.block first rest).extent ReadPart.field : Int))
    (start : Option Int) {chunk : Bytes} {slots : List Slot}
    (size : chunk.length = (Run.block first rest).extent ReadPart.field)
    (read : readBlock owner chunk 0 (Run.offsets ReadPart.field 0 (first :: rest)) = .ok slots) :
    (readRun owner earlier ⟨.block first rest, width, start⟩).Takes chunk slots := by
  subst exact_width
  rw [← size]
  refine ⟨?_, ?_⟩
  · intro before after addressable
    have bound := addressable
    unfold Buffer.IsAddressable at bound
    simp only [List.length_append] at bound
    have present := Buffer.isShort_whole addressable
    have within : 0 + ((first :: rest).map fun part => part.field.extent).sum ≤ chunk.length := by
      rw [Nat.zero_add, size]
      exact Nat.le_refl _
    have members := readBlock_shift owner cut 0 within addressable
    simp only [Int.natCast_zero] at members
    simp only [readRun, present, Bool.false_eq_true, if_false, members, read, Except.map]
    rw [Word.add_natCast (by omega)]
  · intro before begun missing split some_left addressable
    have absent := Buffer.isShort_part split some_left addressable
    refine ⟨truncatedAt owner first.field.name (before ++ begun).length before.length chunk.length, ?_, rfl⟩
    simp only [readRun, absent, if_true]

private theorem readRun_varBytes_takes (owner : String) {earlier : List Slot} {name type : String}
    {size counter : Nat} {reader : Nat → Reader Slot} {width : Int} (start : Option Int) {chunk : Bytes}
    (length : chunk.length = (rawAt earlier counter).toNat)
    (bounded : (rawAt earlier counter).toNat ≤ size) :
    (readRun owner earlier
      ⟨.single ⟨.primitive name type size (.varBytes counter), reader⟩, width, start⟩).Takes chunk
        [.bytes chunk] := by
  refine ⟨?_, ?_⟩
  · intro before after addressable
    have bound := addressable
    unfold Buffer.IsAddressable at bound
    simp only [List.length_append] at bound
    have present := Buffer.isShort_whole addressable
    have found := Buffer.slice?_whole before chunk after
    rw [readRun_varBytes, if_neg (Nat.not_lt.mpr bounded), ← length, present]
    simp only [Bool.false_eq_true, if_false, readAt, found, Except.map]
    rw [Word.add_natCast (by omega)]
  · intro before begun missing split some_left addressable
    have absent := Buffer.isShort_part split some_left addressable
    refine ⟨truncatedAt owner name (before ++ begun).length before.length chunk.length, ?_, rfl⟩
    rw [readRun_varBytes, if_neg (Nat.not_lt.mpr bounded), ← length, absent, if_pos rfl]

private theorem readRun_lands {owner : String} {earlier : List Slot} {run : Run ReadPart}
    (cut : run.IsCut fun part => part.field.isElementary) (steady : ∀ part ∈ run.members, part.IsSteady)
    {start : Option Int} {buf : Bytes} {pos stop : Int} {slots : List Slot} (low : Word.minSigned ≤ pos)
    (high : pos ≤ Word.maxSigned)
    (done : readRun owner earlier ⟨run, run.width ReadPart.field, start⟩ buf pos = .ok (slots, stop)) :
    Word.minSigned ≤ stop ∧ stop ≤ Word.maxSigned := by
  suffices ∃ n, stop = Word.wrap n by
    obtain ⟨n, rfl⟩ := this
    exact ⟨Word.minSigned_le_wrap n, Word.wrap_le_maxSigned n⟩
  cases readsRun_of_ok cut (fun part member => (steady part member).read) done with
  | block | varBytes => exact ⟨_, rfl⟩
  | once read =>
    have one := (steady _ (List.mem_singleton_self _)).below _ rfl
    exact ⟨_, one buf pos _ stop low high read⟩
  | array read | group bounded read =>
    have one := (steady _ (List.mem_singleton_self _)).below _ rfl
    exact ⟨_, readInTurn_advances one _ buf pos _ stop low high read⟩

private theorem readRun_below {owner : String} {earlier : List Slot} {run : Run ReadPart}
    (cut : run.IsCut fun part => part.field.isElementary) (parts : ∀ part ∈ run.members, part.IsLocal)
    {start : Option Int} {buf : Bytes} {pos stop : Int} {slots : List Slot} (low : Word.minSigned ≤ pos)
    (below : pos < 0)
    (done : readRun owner earlier ⟨run, run.width ReadPart.field, start⟩ buf pos = .ok (slots, stop)) :
    run.isDynamic ReadPart.field = true ∧ stop = pos := by
  have most : (0 : Int) ≤ Word.maxSigned := by decide
  cases readsRun_of_ok cut (fun part member => (parts part member).read) done with
  | block present => simp [Buffer.isShort, below] at present
  | varBytes bounded sliced =>
    have begins := (Buffer.slice?_eq_some.mp sliced).1
    omega
  | once read =>
    have one := (parts _ (List.mem_singleton_self _)).each _ rfl
    have begins := one.begins buf pos _ stop low (by omega) read
    omega
  | array read =>
    have known := parts _ (List.mem_singleton_self _)
    have none_read := (readInTurn_below (known.each _ rfl) low below read).1
    have some_held := known.holds _ _ _ rfl
    simp only [Repetition.most] at some_held
    omega
  | group bounded read =>
    have one := (parts _ (List.mem_singleton_self _)).each _ rfl
    exact ⟨rfl, (readInTurn_below one low below read).2⟩

private theorem readRun_block_takesFrom {owner : String} {earlier : List Slot} {first : ReadPart}
    {rest : List ReadPart} (cut : (Run.block first rest).IsCut fun part => part.field.isElementary)
    (fields : ∀ part ∈ first :: rest, part.field.Sound)
    (narrow : ((Run.block first rest).extent ReadPart.field : Int) ≤ Word.maxSigned)
    {start : Option Int} {buf : Bytes} {pos : Int} {slots : List Slot}
    (addressable : Buffer.IsAddressable buf) (high : pos ≤ Word.maxSigned)
    (present : Buffer.isShort buf.length pos ((Run.block first rest).width ReadPart.field) = false)
    (read : readBlock owner buf pos (Run.offsets ReadPart.field 0 (first :: rest)) = .ok slots)
    (inside : 0 ≤ Word.add pos ((Run.block first rest).width ReadPart.field)) :
    (readRun owner earlier
      ⟨.block first rest, (Run.block first rest).width ReadPart.field, start⟩).TakesFrom buf pos slots
        (Word.add pos ((Run.block first rest).width ReadPart.field)) := by
  have width : (Run.block first rest).width ReadPart.field =
      ((Run.block first rest).extent ReadPart.field : Int) := by
    rw [Run.width_eq fields cut.block_not_dynamic]
    exact Word.wrap_natCast narrow
  rw [width] at present inside ⊢
  simp only [Buffer.isShort, Bool.or_eq_false_iff, decide_eq_false_iff_not, Int.not_lt] at present
  obtain ⟨p, rfl⟩ := Int.eq_ofNat_of_zero_le present.1
  -- an end that had wrapped would be negative
  have ends := Word.add_natCast_of_nonneg high narrow inside
  rw [ends] at present ⊢
  obtain ⟨before, chunk, after, rfl, rfl, size⟩ :=
    Buffer.exists_stretch (show p + (Run.block first rest).extent ReadPart.field ≤ buf.length by omega)
  have within : 0 + ((first :: rest).map fun part => part.field.extent).sum ≤ chunk.length := by
    rw [Nat.zero_add, size]
    exact Nat.le_refl _
  have shifted := readBlock_shift owner cut 0 within addressable
  simp only [Int.natCast_zero] at shifted
  rw [shifted] at read
  exact ⟨before, chunk, after, rfl, rfl, by rw [size],
    readRun_block_takes owner earlier cut rfl start size read⟩

private theorem readRun_varBytes_takesFrom {owner name type : String} {earlier : List Slot} {size counter : Nat}
    {reader : Nat → Reader Slot} {width : Int} {start : Option Int} {buf data : Bytes} {pos : Int}
    (addressable : Buffer.IsAddressable buf) (bounded : (rawAt earlier counter).toNat ≤ size)
    (sliced : Buffer.slice? buf pos (rawAt earlier counter).toNat = some data) :
    (readRun owner earlier
      ⟨.single ⟨.primitive name type size (.varBytes counter), reader⟩, width, start⟩).TakesFrom buf pos
        [.bytes data] (Word.add pos (rawAt earlier counter).toNat) := by
  obtain ⟨begins, _, ends, _⟩ := Buffer.slice?_eq_some.mp sliced
  obtain ⟨p, rfl⟩ := Int.eq_ofNat_of_zero_le begins
  obtain ⟨before, chunk, after, rfl, rfl, length⟩ :=
    Buffer.exists_stretch (show p + (rawAt earlier counter).toNat ≤ buf.length by omega)
  have whole := Buffer.slice?_whole before chunk after
  rw [← length] at sliced ⊢
  obtain rfl : chunk = data := Option.some.inj (whole.symm.trans sliced)
  unfold Buffer.IsAddressable at addressable
  simp only [List.length_append] at addressable
  refine ⟨before, chunk, after, rfl, rfl, Word.add_natCast (by omega), ?_⟩
  exact readRun_varBytes_takes owner start length bounded

/-- A run whose end has not wrapped is taken from where it starts. Only a dynamic run may be empty, and
then nobody looks where it stands. -/
private theorem readRun_takesFrom {owner : String} {earlier : List Slot} {run : Run ReadPart}
    (cut : run.IsCut fun part => part.field.isElementary) (parts : ∀ part ∈ run.members, part.IsLocal)
    (narrow : (run.extent ReadPart.field : Int) ≤ Word.maxSigned)
    {start : Option Int} {buf : Bytes} {pos stop : Int} {slots : List Slot}
    (addressable : Buffer.IsAddressable buf) (low : Word.minSigned ≤ pos) (high : pos ≤ Word.maxSigned)
    (started : run.isDynamic ReadPart.field = true → 0 ≤ pos ∧ pos ≤ buf.length)
    (done : readRun owner earlier ⟨run, run.width ReadPart.field, start⟩ buf pos = .ok (slots, stop))
    (inside : 0 ≤ stop) :
    (readRun owner earlier ⟨run, run.width ReadPart.field, start⟩).TakesFrom buf pos slots stop := by
  cases readsRun_of_ok cut (fun part member => (parts part member).read) done with
  | block present read =>
    exact readRun_block_takesFrom cut (fun part member => (parts part member).field) narrow addressable
      high present read inside
  | varBytes bounded sliced => exact readRun_varBytes_takesFrom addressable bounded sliced
  | once read =>
    have one := (parts _ (List.mem_singleton_self _)).each _ rfl
    rw [readRun_nested_once]
    exact (one.takes buf pos _ stop addressable low high read inside).mapped _
  | array read =>
    have known := parts _ (List.mem_singleton_self _)
    have some_held := known.holds _ _ _ rfl
    simp only [Repetition.most] at some_held
    rw [readRun_nested_array]
    exact (readInTurn_takesFrom (known.each _ rfl) (known.below _ rfl) addressable low high
      (fun none_held => by omega) read inside).mapped _
  | group bounded read =>
    have known := parts _ (List.mem_singleton_self _)
    rw [readRun_nested_group bounded]
    exact (readInTurn_takesFrom (known.each _ rfl) (known.below _ rfl) addressable low high
      (fun _ => started rfl) read inside).mapped _

private theorem readBehind_below {owner : String} {runs : List (Run ReadPart)}
    (cut : ∀ run ∈ runs, run.IsCut fun part => part.field.isElementary)
    (parts : ∀ run ∈ runs, ∀ part ∈ run.members, part.IsLocal) {buf : Bytes} {pos stop : Int}
    {earlier slots : List Slot} (low : Word.minSigned ≤ pos) (below : pos < 0)
    (done : readBehind owner earlier runs buf pos = .ok (slots, stop)) :
    (∀ run ∈ runs, run.isDynamic ReadPart.field = true) ∧ stop = pos := by
  induction runs generalizing earlier with
  | nil =>
    simp only [readBehind, Except.ok.injEq, Prod.mk.injEq] at done
    exact ⟨by simp, done.2.symm⟩
  | cons run rest ih =>
    simp only [readBehind] at done
    obtain ⟨new, next, here, there⟩ := Reader.andThen_eq_ok.mp done
    obtain ⟨dynamic, rfl⟩ := readRun_below (cut run (by simp)) (parts run (by simp)) low below here
    obtain ⟨others, rfl⟩ := ih (fun other later => cut other (by simp [later]))
      (fun other later => parts other (by simp [later])) there
    refine ⟨?_, rfl⟩
    intro other member
    rcases List.mem_cons.mp member with rfl | later
    · exact dynamic
    · exact others other later

/-- Runs whose end has not wrapped are taken from where they start, the first of them being there in any
case or the position being known to lie inside the buffer. -/
private theorem readBehind_takesFrom {owner : String} {runs : List (Run ReadPart)}
    (cut : ∀ run ∈ runs, run.IsCut fun part => part.field.isElementary)
    (parts : ∀ run ∈ runs, ∀ part ∈ run.members, part.IsLocal)
    (narrow : (((runs.flatMap Run.members).map fun part => part.field.extent).sum : Nat) ≤ Word.maxSigned)
    {buf : Bytes} {pos stop : Int} {earlier slots : List Slot} (addressable : Buffer.IsAddressable buf)
    (low : Word.minSigned ≤ pos) (high : pos ≤ Word.maxSigned)
    (started : Run.StartStatic ReadPart.field runs ∨ 0 ≤ pos ∧ pos ≤ buf.length)
    (done : readBehind owner earlier runs buf pos = .ok (slots, stop)) (inside : 0 ≤ stop) :
    (readBehind owner earlier runs).TakesFrom buf pos slots stop := by
  induction runs generalizing pos earlier with
  | nil =>
    simp only [readBehind, Except.ok.injEq, Prod.mk.injEq] at done
    obtain ⟨rfl, rfl⟩ := done
    rcases started with ⟨_, _, absurdity, _⟩ | ⟨begins, ends⟩
    · cases absurdity
    · exact .nothing earlier begins ends
  | cons run rest ih =>
    simp only [readBehind] at done ⊢
    simp only [List.flatMap_cons, List.map_append, List.sum_append_nat, Int.natCast_add] at narrow
    obtain ⟨new, next, here, there⟩ := Reader.andThen_eq_ok.mp done
    have cutLater : ∀ other ∈ rest, other.IsCut fun part => part.field.isElementary :=
      fun other later => cut other (by simp [later])
    have partsLater : ∀ other ∈ rest, ∀ part ∈ other.members, part.IsLocal :=
      fun other later => parts other (by simp [later])
    obtain ⟨lowNext, highNext⟩ := readRun_lands (cut run (by simp))
      (fun part member => (parts run (by simp) part member).toIsSteady) low high here
    -- from a wrapped position there would be no way back
    have forward : 0 ≤ next := by
      by_contra behind
      have stays := (readBehind_below cutLater partsLater lowNext (by omega) there).2
      omega
    have startedHere : run.isDynamic ReadPart.field = true → 0 ≤ pos ∧ pos ≤ buf.length := by
      intro dynamic
      rcases started with start | known
      · rw [start.not_dynamic] at dynamic
        cases dynamic
      · exact known
    have taken := readRun_takesFrom (cut run (by simp)) (parts run (by simp))
      (by simp only [Run.extent]; omega) addressable low high startedHere here forward
    have bounds := taken.inside
    exact taken.andThen (ih cutLater partsLater (by omega) lowNext highNext
      (.inr ⟨by omega, by omega⟩) there)

private theorem Layout.Anchored.read_isLocal {l : Layout} (anchored : l.Anchored) (sound : l.Sound)
    (addressable : l.IsAddressable) : l.read.IsLocal := by
  induction anchored with
  | @mk name message size first rest leads holds below ih =>
    have parts : ∀ run ∈ readingRuns (first :: rest), ∀ part ∈ run.members, part.IsLocal := by
      refine forall_mem_readingRuns ?_
      intro f member
      have field := sound.field member
      refine ⟨⟨field, rfl, ?_⟩, ?_, ?_⟩
      · intro element nested
        exact (field.element element nested).read_advances (field.static element nested)
      · intro fieldName repetition element same
        exact holds fieldName repetition element (same ▸ member)
      · intro element nested
        have room := sound.isAddressable_element addressable holds member nested
        exact ih f member element nested (field.element element nested) room
    have cut := isCut_of_mem_readingRuns (first :: rest)
    have leading : Run.StartStatic ReadPart.field (readingRuns (first :: rest)) :=
      Run.startStatic_partition _ leads _
    refine ⟨?_, ?_⟩
    · intro buf pos slots stop low high done
      rw [sound.read_eq_readBehind buf low high] at done
      by_contra negative
      obtain ⟨run, others, same, static⟩ := leading
      have dynamic := (readBehind_below cut parts low (by omega) done).1 run (by simp [same])
      rw [static] at dynamic
      cases dynamic
    · intro buf pos slots stop inMemory low high done inside
      have narrow : ((((readingRuns (first :: rest)).flatMap Run.members).map fun part =>
          part.field.extent).sum : Nat) ≤ Word.maxSigned := by
        have bound := (Layout.mk name message size (first :: rest)).extent_le_capacity
        unfold Layout.IsAddressable at addressable
        rw [Layout.extent_eq_sum, Layout.fields] at bound
        rw [flatMap_members_readingRuns, List.map_map]
        exact Int.le_trans (Int.ofNat_le.mpr bound) addressable
      rw [sound.read_eq_readBehind buf low high] at done
      refine (readBehind_takesFrom cut parts narrow inMemory low high (.inl leading) done inside).congr ?_
      intro other place lowPlace highPlace
      exact (sound.read_eq_readBehind other lowPlace highPlace).symm

/-- What is unpacked comes from the bytes up to its end: the same bytes give the same record wherever
they stand, and fewer of them give none. -/
theorem Record.unpack_takes {l : Layout} (anchored : l.Anchored) (sound : l.Sound)
    (addressable : l.IsAddressable) {buf : Bytes} {off stop : Int} {r : Record}
    (inMemory : Buffer.IsAddressable buf) (low : Word.minSigned ≤ off) (high : off ≤ Word.maxSigned)
    (unpacked : Record.unpack l buf off = .ok (r, stop)) (forward : off ≤ stop) :
    Reader.TakesFrom (Record.unpack l) buf off r stop := by
  have here : l.read.IsLocal := anchored.read_isLocal sound addressable
  obtain ⟨slots, read, rfl⟩ := Reader.mapped_eq_ok.mp (show l.read.mapped (Record.mk l) buf off = _ from unpacked)
  have begins := here.begins buf off slots stop low high read
  exact (here.takes buf off slots stop inMemory low high read (by omega)).mapped (Record.mk l)

end TradeWire
