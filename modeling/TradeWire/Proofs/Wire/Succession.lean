import TradeWire.Proofs.Wire.Unpacking

/-! Static starts of runs are the positions behind the runs before them. -/

set_option autoImplicit false
set_option relaxedAutoImplicit false

namespace TradeWire

namespace Reader

variable {α β : Type}

def andThen (first : Reader α) (next : α → Reader β) : Reader β := fun buf pos =>
  match first buf pos with
  | .error fault => .error fault
  | .ok (a, stop) => next a buf stop

def mapped (g : α → β) (read : Reader α) : Reader β := fun buf pos =>
  (read buf pos).map fun (a, stop) => (g a, stop)

theorem andThen_eq_ok {first : Reader α} {next : α → Reader β} {buf : Bytes} {pos stop : Int} {b : β} :
    first.andThen next buf pos = .ok (b, stop) ↔
      ∃ a mid, first buf pos = .ok (a, mid) ∧ next a buf mid = .ok (b, stop) := by
  unfold andThen
  cases first buf pos with
  | error fault => simp
  | ok out =>
    obtain ⟨a, mid⟩ := out
    simp

theorem andThen_eq_error {first : Reader α} {next : α → Reader β} {buf : Bytes} {pos : Int}
    {fault : DecodeError} : first.andThen next buf pos = .error fault ↔
      first buf pos = .error fault ∨ ∃ a mid, first buf pos = .ok (a, mid) ∧ next a buf mid = .error fault := by
  unfold andThen
  cases first buf pos with
  | error other => simp
  | ok out =>
    obtain ⟨a, mid⟩ := out
    simp

theorem mapped_eq_ok {g : α → β} {read : Reader α} {buf : Bytes} {pos stop : Int} {b : β} :
    read.mapped g buf pos = .ok (b, stop) ↔ ∃ a, read buf pos = .ok (a, stop) ∧ g a = b := by
  unfold mapped
  cases read buf pos with
  | error fault => simp [Except.map]
  | ok out =>
    obtain ⟨a, behind⟩ := out
    simp only [Except.map, Except.ok.injEq, Prod.mk.injEq]
    constructor
    · rintro ⟨same, rfl⟩
      exact ⟨a, ⟨rfl, rfl⟩, same⟩
    · rintro ⟨_, ⟨rfl, rfl⟩, same⟩
      exact ⟨same, rfl⟩

/-- The reader goes `count` bytes forward, the end being a machine word. -/
def Advances (read : Reader α) (count : Nat) : Prop :=
  ∀ (buf : Bytes) (pos : Int) (a : α) (stop : Int), Word.minSigned ≤ pos → pos ≤ Word.maxSigned →
    read buf pos = .ok (a, stop) → stop = Word.wrap (pos + count)

private theorem Advances.mapped {read : Reader α} {count : Nat} (advances : read.Advances count) (g : α → β) :
    (read.mapped g).Advances count := by
  intro buf pos b stop low high done
  obtain ⟨a, here, _⟩ := mapped_eq_ok.mp done
  exact advances buf pos a stop low high here

private theorem Advances.andThen {first : Reader α} {next : α → Reader β} {count more : Nat}
    (here : first.Advances count) (there : ∀ a, (next a).Advances more) :
    (first.andThen next).Advances (count + more) := by
  intro buf pos b stop low high done
  obtain ⟨a, mid, begun, ended⟩ := andThen_eq_ok.mp done
  have middle := here buf pos a mid low high begun
  have last := there a buf mid b stop (middle ▸ Word.minSigned_le_wrap _)
    (middle ▸ Word.wrap_le_maxSigned _) ended
  rw [last, middle, Word.wrap_wrap_add, Int.natCast_add, Int.add_assoc]

end Reader

theorem readInTurn_succ {α : Type} (read : Reader α) (count : Nat) :
    readInTurn read (count + 1) =
      read.andThen fun item => (readInTurn read count).mapped fun items => item :: items := by
  funext buf pos
  simp only [readInTurn, Reader.andThen, Reader.mapped]
  cases read buf pos with
  | error fault => rfl
  | ok out =>
    obtain ⟨item, next⟩ := out
    simp only
    cases readInTurn read count buf next with
    | error fault => rfl
    | ok rest => rfl

theorem readInTurn_advances {α : Type} {read : Reader α} {n : Nat} (each : read.Advances n) (count : Nat) :
    (readInTurn read count).Advances (count * n) := by
  induction count with
  | zero =>
    intro buf pos items stop low high done
    simp only [readInTurn, Except.ok.injEq, Prod.mk.injEq] at done
    rw [← done.2, Nat.zero_mul, Int.natCast_zero, Int.add_zero, Word.wrap_eq_self low high]
  | succ count ih =>
    rw [readInTurn_succ, Nat.succ_mul, Nat.add_comm]
    exact each.andThen fun item => ih.mapped fun items => item :: items

section Nested

variable {owner name : String} {earlier : List Slot} {counter least most count : Nat} {element : Layout}
  {width : Int} {start : Option Int}

theorem readRun_nested_once :
    readRun owner earlier ⟨.single ⟨.nested name .once element,
        (Field.nested name .once element).readNested⟩, width, start⟩ =
      element.read.mapped fun slots => [.struct slots] := by
  funext buf pos
  simp only [readRun_once, Reader.mapped, Field.readNested]
  cases element.read buf pos with
  | error fault => rfl
  | ok out => rfl

theorem readRun_nested_array :
    readRun owner earlier ⟨.single ⟨.nested name (.array count) element,
        (Field.nested name (.array count) element).readNested⟩, width, start⟩ =
      (readInTurn element.read count).mapped fun items => [.elems items] := by
  funext buf pos
  simp only [readRun_array, Reader.mapped, Field.readNested]
  cases readInTurn element.read count buf pos with
  | error fault => rfl
  | ok out => rfl

/-- A group within its bound is read like an array of as many elements as its counter says. -/
theorem readRun_nested_group (bounded : (rawAt earlier counter).toNat ≤ most) :
    readRun owner earlier ⟨.single ⟨.nested name (.group counter least most) element,
        (Field.nested name (.group counter least most) element).readNested⟩, width, start⟩ =
      (readInTurn element.read (rawAt earlier counter).toNat).mapped fun items => [.elems items] := by
  funext buf pos
  simp only [readRun_group, Nat.not_lt.mpr bounded, if_false, Reader.mapped, Field.readNested]
  cases readInTurn element.read (rawAt earlier counter).toNat buf pos with
  | error fault => rfl
  | ok out => rfl

theorem bounded_of_readRun_group {reader : Nat → Reader Slot} {buf : Bytes} {pos : Int}
    {out : List Slot × Int}
    (done : readRun owner earlier ⟨.single ⟨.nested name (.group counter least most) element, reader⟩,
      width, start⟩ buf pos = .ok out) : (rawAt earlier counter).toNat ≤ most := by
  rw [readRun_group] at done
  split at done
  · cases done
  · omega

end Nested

theorem slice?_of_readAt {owner field : String} {buf data : Bytes} {start count : Int}
    (read : readAt owner field buf start count = .ok data) :
    Buffer.slice? buf start count = some data := by
  rw [← toOption_readAt, read]
  rfl

/-- A variable byte string that is read is within its bound and inside the buffer. -/
theorem readRun_varBytes_inv {owner name type : String} {earlier : List Slot} {size counter : Nat}
    {reader : Nat → Reader Slot} {width : Int} {start : Option Int} {buf : Bytes} {pos stop : Int}
    {slots : List Slot}
    (done : readRun owner earlier
      ⟨.single ⟨.primitive name type size (.varBytes counter), reader⟩, width, start⟩ buf pos =
        .ok (slots, stop)) :
    (rawAt earlier counter).toNat ≤ size ∧
      ∃ data, Buffer.slice? buf pos (rawAt earlier counter).toNat = some data ∧ slots = [.bytes data] ∧
        stop = Word.add pos (rawAt earlier counter).toNat := by
  rw [readRun_varBytes] at done
  split at done
  · cases done
  · rename_i bounded
    split at done
    · cases done
    · cases found : readAt owner name buf pos (rawAt earlier counter).toNat with
      | error fault => simp [found, Except.map] at done
      | ok data =>
        simp only [found, Except.map, Except.ok.injEq, Prod.mk.injEq] at done
        exact ⟨Nat.not_lt.mp bounded, data, slice?_of_readAt found, done.1.symm, done.2.symm⟩

/-- How a run is read: what is read for each kind of run, and where reading it ends. -/
inductive ReadsRun (owner : String) (earlier : List Slot) (buf : Bytes) (pos : Int) :
    Run ReadPart → List Slot → Int → Prop
  | block {first : ReadPart} {rest : List ReadPart} {slots : List Slot}
      (present : Buffer.isShort buf.length pos ((Run.block first rest).width ReadPart.field) = false)
      (read : readBlock owner buf pos (Run.offsets ReadPart.field 0 (first :: rest)) = .ok slots) :
      ReadsRun owner earlier buf pos (.block first rest) slots
        (Word.add pos ((Run.block first rest).width ReadPart.field))
  | varBytes {name type : String} {size counter : Nat} {reader : Nat → Reader Slot} {data : Bytes}
      (bounded : (rawAt earlier counter).toNat ≤ size)
      (sliced : Buffer.slice? buf pos (rawAt earlier counter).toNat = some data) :
      ReadsRun owner earlier buf pos (.single ⟨.primitive name type size (.varBytes counter), reader⟩)
        [.bytes data] (Word.add pos (rawAt earlier counter).toNat)
  | once {name : String} {element : Layout} {inner : List Slot} {stop : Int}
      (read : element.read buf pos = .ok (inner, stop)) :
      ReadsRun owner earlier buf pos
        (.single ⟨.nested name .once element, (Field.nested name .once element).readNested⟩)
        [.struct inner] stop
  | array {name : String} {count : Nat} {element : Layout} {items : List (List Slot)} {stop : Int}
      (read : readInTurn element.read count buf pos = .ok (items, stop)) :
      ReadsRun owner earlier buf pos
        (.single ⟨.nested name (.array count) element, (Field.nested name (.array count) element).readNested⟩)
        [.elems items] stop
  | group {name : String} {counter least most : Nat} {element : Layout} {items : List (List Slot)}
      {stop : Int} (bounded : (rawAt earlier counter).toNat ≤ most)
      (read : readInTurn element.read (rawAt earlier counter).toNat buf pos = .ok (items, stop)) :
      ReadsRun owner earlier buf pos
        (.single ⟨.nested name (.group counter least most) element,
          (Field.nested name (.group counter least most) element).readNested⟩) [.elems items] stop

theorem readsRun_of_ok {owner : String} {earlier : List Slot} {run : Run ReadPart}
    (cut : run.IsCut fun part => part.field.isElementary)
    (reads : ∀ part ∈ run.members, part.read = part.field.readNested) {start : Option Int} {buf : Bytes}
    {pos stop : Int} {slots : List Slot}
    (done : readRun owner earlier ⟨run, run.width ReadPart.field, start⟩ buf pos = .ok (slots, stop)) :
    ReadsRun owner earlier buf pos run slots stop := by
  cases run with
  | block first rest =>
    simp only [readRun] at done
    split at done
    · cases done
    · rename_i present
      obtain ⟨members, read, same⟩ := map_eq_ok.mp done
      cases same
      exact .block (Bool.eq_false_of_not_eq_true present) read
  | single part =>
    have known := reads part (by simp [Run.members])
    obtain ⟨f, reader⟩ := part
    simp only at known
    subst known
    cases f with
    | primitive name type size kind =>
      cases kind with
      | varBytes counter =>
        obtain ⟨bounded, data, sliced, rfl, rfl⟩ := readRun_varBytes_inv done
        exact .varBytes bounded sliced
      | int | pad | bytes => simp [Run.IsCut, Field.isElementary] at cut
    | nested name repetition element =>
      cases repetition with
      | once =>
        rw [readRun_nested_once] at done
        obtain ⟨inner, read, rfl⟩ := Reader.mapped_eq_ok.mp done
        exact .once read
      | array count =>
        rw [readRun_nested_array] at done
        obtain ⟨items, read, rfl⟩ := Reader.mapped_eq_ok.mp done
        exact .array read
      | group counter least most =>
        have bounded := bounded_of_readRun_group done
        rw [readRun_nested_group bounded] at done
        obtain ⟨items, read, rfl⟩ := Reader.mapped_eq_ok.mp done
        exact .group bounded read

/-- A part that reads the elements of its field, each of them going forward by its extent. -/
structure ReadPart.IsSteady (part : ReadPart) : Prop where
  field : part.field.Sound
  read : part.read = part.field.readNested
  below : ∀ element, part.field.element? = some element → element.read.Advances element.extent

theorem readRun_advances (owner : String) (earlier : List Slot) {run : Run ReadPart}
    (cut : run.IsCut fun part => part.field.isElementary) (steady : ∀ part ∈ run.members, part.IsSteady)
    (constant : run.isDynamic ReadPart.field = false) (start : Option Int) :
    (readRun owner earlier ⟨run, run.width ReadPart.field, start⟩).Advances (run.extent ReadPart.field) := by
  have width : run.width ReadPart.field = Word.wrap (run.extent ReadPart.field) :=
    Run.width_eq (fun part member => (steady part member).field) constant
  intro buf pos slots stop low high done
  cases readsRun_of_ok cut (fun part member => (steady part member).read) done with
  | block => rw [width, Word.add, Word.wrap_add_wrap]
  | once read =>
    have one := (steady _ (List.mem_singleton_self _)).below _ rfl
    simpa [Run.extent, Run.members, Field.extent] using one buf pos _ stop low high read
  | array read =>
    have one := (steady _ (List.mem_singleton_self _)).below _ rfl
    simpa [Run.extent, Run.members, Field.extent] using readInTurn_advances one _ buf pos _ stop low high read
  | varBytes | group => cases constant

def readBehind (owner : String) : List Slot → List (Run ReadPart) → Reader (List Slot)
  | earlier, [] => fun _ pos => .ok (earlier, pos)
  | earlier, run :: rest =>
    (readRun owner earlier ⟨run, run.width ReadPart.field, none⟩).andThen fun slots =>
      readBehind owner (earlier ++ slots) rest

private theorem readRuns_eq_readBehind (owner : String) {runs : List (Run ReadPart)}
    (cut : ∀ run ∈ runs, run.IsCut fun part => part.field.isElementary)
    (steady : ∀ run ∈ runs, ∀ part ∈ run.members, part.IsSteady) (buf : Bytes) {base pos : Int}
    {start : Option Int} (earlier : List Slot)
    (known : ∀ offset, start = some offset → Word.add base offset = pos) :
    readRuns owner base earlier (Run.place ReadPart.field start runs) buf pos =
      readBehind owner earlier runs buf pos := by
  induction runs generalizing pos start earlier with
  | nil => rfl
  | cons run rest ih =>
    simp only [Run.place, readBehind, Reader.andThen]
    rw [readRuns_cons known]
    have placeless : readRun owner earlier ⟨run, run.width ReadPart.field, start⟩ buf pos =
        readRun owner earlier ⟨run, run.width ReadPart.field, none⟩ buf pos := rfl
    rw [placeless]
    cases here : readRun owner earlier ⟨run, run.width ReadPart.field, none⟩ buf pos with
    | error fault => rfl
    | ok out =>
      obtain ⟨slots, stop⟩ := out
      -- a known start is a machine word, and so the run ends where its width says
      have behind : ∀ offset, start = some offset → run.isDynamic ReadPart.field = false →
          stop = Word.wrap (pos + run.extent ReadPart.field) := by
        intro offset placed constant
        have word := known offset placed
        exact readRun_advances owner earlier (cut run (by simp)) (steady run (by simp)) constant none
          buf pos slots stop (word ▸ Word.minSigned_le_wrap _) (word ▸ Word.wrap_le_maxSigned _) here
      exact ih (fun other later => cut other (by simp [later]))
        (fun other later => steady other (by simp [later])) (earlier ++ slots)
        (Run.add_next_start_wrapped (fun part member => (steady run (by simp) part member).field) known
          behind)

private theorem readBehind_advances (owner : String) {runs : List (Run ReadPart)}
    (cut : ∀ run ∈ runs, run.IsCut fun part => part.field.isElementary)
    (steady : ∀ run ∈ runs, ∀ part ∈ run.members, part.IsSteady)
    (constant : ∀ run ∈ runs, run.isDynamic ReadPart.field = false) (earlier : List Slot) :
    (readBehind owner earlier runs).Advances
      ((runs.flatMap Run.members).map fun part => part.field.extent).sum := by
  induction runs generalizing earlier with
  | nil =>
    intro buf pos slots stop low high done
    simp only [readBehind, Except.ok.injEq, Prod.mk.injEq] at done
    simp [← done.2, Word.wrap_eq_self low high]
  | cons run rest ih =>
    simp only [List.flatMap_cons, List.map_append, List.sum_append_nat]
    have first := readRun_advances owner earlier (cut run (by simp)) (steady run (by simp))
      (constant run (by simp)) none
    refine first.andThen fun slots => ?_
    exact ih (fun other later => cut other (by simp [later]))
      (fun other later => steady other (by simp [later]))
      (fun other later => constant other (by simp [later])) (earlier ++ slots)

def readingRuns (fields : List Field) : List (Run ReadPart) :=
  Run.partition (fun part : ReadPart => part.field.isElementary) (readParts fields)

theorem flatMap_members_readingRuns (fields : List Field) :
    (readingRuns fields).flatMap Run.members = fields.map fun f => ⟨f, f.readNested⟩ := by
  rw [readingRuns, Run.flatMap_members_partition, readParts_eq_map]

theorem isCut_of_mem_readingRuns (fields : List Field) :
    ∀ run ∈ readingRuns fields, run.IsCut fun part => part.field.isElementary :=
  Run.isCut_of_mem_partition _ _

theorem forall_mem_readingRuns {P : ReadPart → Prop} {fields : List Field}
    (each : ∀ f ∈ fields, P ⟨f, f.readNested⟩) :
    ∀ run ∈ readingRuns fields, ∀ part ∈ run.members, P part := by
  intro run listed part inside
  have member : part ∈ (readingRuns fields).flatMap Run.members :=
    List.mem_flatMap.mpr ⟨run, listed, inside⟩
  rw [flatMap_members_readingRuns] at member
  obtain ⟨f, here, rfl⟩ := List.mem_map.mp member
  exact each f here

private theorem read_eq_of_below {l : Layout} (sound : l.Sound)
    (below : ∀ f ∈ l.fields, ∀ element, f.element? = some element →
      element.read.Advances element.extent)
    (buf : Bytes) {pos : Int} (low : Word.minSigned ≤ pos) (high : pos ≤ Word.maxSigned) :
    l.read buf pos = readBehind l.name [] (readingRuns l.fields) buf pos := by
  obtain ⟨name, message, size, fields⟩ := l
  simp only [Layout.read, placedRuns]
  refine readRuns_eq_readBehind name (isCut_of_mem_readingRuns fields) ?_ buf [] ?_
  · exact forall_mem_readingRuns fun f here => ⟨sound.field here, rfl, below f here⟩
  · intro offset zero
    cases zero
    exact (Word.add_eq (by omega) (by omega)).trans (Int.add_zero pos)

theorem Layout.Sound.read_advances {l : Layout} (sound : l.Sound) (static : l.size.isStatic = true) :
    l.read.Advances l.extent := by
  induction sound with
  | @mk name message size fields widths counters sized below elements ih =>
    intro buf pos slots stop low high done
    have whole : (Layout.mk name message size fields).Sound := .mk widths counters sized below elements
    have advance : ∀ f ∈ fields, ∀ element, f.element? = some element →
        element.read.Advances element.extent :=
      fun f here element nested => ih f here element nested (below f here element nested)
    rw [read_eq_of_below whole advance buf low high] at done
    have steady : ∀ run ∈ readingRuns fields, ∀ part ∈ run.members, part.IsSteady :=
      forall_mem_readingRuns fun f here => ⟨whole.field here, rfl, advance f here⟩
    have constant : ∀ run ∈ readingRuns fields, ∀ part ∈ run.members, part.field.isDynamic = false :=
      forall_mem_readingRuns (sized static).2
    have total := readBehind_advances name (isCut_of_mem_readingRuns fields) steady
      (fun run listed => constant run listed run.head run.head_mem_members) [] buf pos slots stop low high
      done
    rw [flatMap_members_readingRuns] at total
    rw [total, Layout.extent_eq_sum, List.map_map]
    rfl

theorem Layout.Sound.read_eq_readBehind {l : Layout} (sound : l.Sound) (buf : Bytes) {pos : Int}
    (low : Word.minSigned ≤ pos) (high : pos ≤ Word.maxSigned) :
    l.read buf pos = readBehind l.name [] (readingRuns l.fields) buf pos := by
  refine read_eq_of_below sound ?_ buf low high
  intro f member element nested
  have field := sound.field member
  exact (field.element element nested).read_advances (field.static element nested)

end TradeWire
