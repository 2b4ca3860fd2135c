import TradeWire.Proofs.Layout.Offsets
import TradeWire.Proofs.Wire.Writing

/-! Packing is the encoding member by member. -/

set_option autoImplicit false
set_option relaxedAutoImplicit false

namespace TradeWire

namespace Record

private theorem wrap_runSize (slots : List Slot) {placed : PlacedRun (Field × Nat)}
    (cut : placed.run.IsCut fun member => member.1.isElementary)
    (sound : ∀ member ∈ placed.run.members, member.1.Sound)
    (width : placed.width = placed.run.width Prod.fst) :
    Word.wrap (runSize slots placed) =
      Word.wrap ((placed.run.members.map fun member => member.1.reserve slots).sum : Nat) := by
  obtain ⟨run, runWidth, start⟩ := placed
  simp only at cut sound width
  subst width
  -- a run without dynamic members counts with its width, which is its extent
  have plain : run.isDynamic Prod.fst = false →
      Word.wrap (run.width Prod.fst) =
        Word.wrap ((run.members.map fun member => member.1.reserve slots).sum : Nat) := by
    intro constant
    have reserved := cut.reserve_eq_extent slots constant
    rw [Run.width_eq sound constant, Word.wrap_wrap, reserved]
  cases run with
  | block first rest => exact plain (Field.not_dynamic_of_elementary (cut first (by simp)))
  | single member =>
    obtain ⟨f, i⟩ := member
    have field := sound (f, i) (by simp [Run.members])
    simp only [Run.members, List.map_cons, List.map_nil, List.sum_cons, List.sum_nil, Nat.add_zero]
      at plain ⊢
    cases f with
    | primitive name type size kind =>
      cases kind with
      | varBytes counter => simp only [runSize, Field.reserve]
      | int | pad | bytes => simp [Run.IsCut, Field.isElementary] at cut
    | nested name repetition element =>
      cases repetition with
      | once => exact plain rfl
      | array count => exact plain rfl
      | group counter least most =>
        have fixed := (field.element element rfl).fixed_eq (field.static element rfl)
        simp only [runSize, Run.width, fixed, Word.mul_wrap_right, Word.wrap_wrap, Field.reserve,
          Int.natCast_mul]

private theorem foldl_runSize (slots : List Slot) {runs : List (Run (Field × Nat))}
    (cut : ∀ run ∈ runs, run.IsCut fun member => member.1.isElementary)
    (sound : ∀ run ∈ runs, ∀ member ∈ run.members, member.1.Sound) (start : Option Int) (sum : Int) :
    (Run.place Prod.fst start runs).foldl (fun sum placed => Word.add sum (runSize slots placed))
        (Word.wrap sum) =
      Word.wrap (sum +
        (((runs.flatMap Run.members).map fun member => member.1.reserve slots).sum : Nat)) := by
  induction runs generalizing start sum with
  | nil => simp [Run.place]
  | cons run rest ih =>
    have width : (PlacedRun.mk run (run.width Prod.fst) start).width = run.width Prod.fst := rfl
    have here := wrap_runSize slots (cut run (by simp)) (sound run (by simp)) width
    simp only [Run.place, List.foldl_cons]
    rw [Word.add, Word.wrap_wrap_add, ← Word.wrap_add_wrap, here, Word.wrap_add_wrap,
      ih (fun other later => cut other (by simp [later]))
        (fun other later => sound other (by simp [later]))]
    simp only [List.flatMap_cons, List.map_append, List.sum_append_nat, Int.natCast_add, Int.add_assoc]

theorem encodedSize_congr {l : Layout} {slots others : List Slot}
    (same : ∀ i, rawAt slots i = rawAt others i) :
    (Record.mk l slots).encodedSize = (Record.mk l others).encodedSize := by
  have sizes : ∀ placed : PlacedRun (Field × Nat), runSize slots placed = runSize others placed := by
    intro placed
    simp only [runSize, same]
  simp only [encodedSize, sizes]

/-- The encoded size is the number of bytes set aside, as a machine word. -/
theorem encodedSize_eq {r : Record} (sound : r.layout.Sound) :
    r.encodedSize = Word.wrap (r.layout.reserve r.slots) := by
  obtain ⟨l, slots⟩ := r
  simp only at sound
  simp only [encodedSize]
  split
  · rename_i static
    rw [sound.fixed_eq static, sound.reserve_eq static]
  · have members := Run.flatMap_members_partition (fun member : Field × Nat => member.1.isElementary)
      l.fields.zipIdx
    have total := foldl_runSize slots
      (Run.isCut_of_mem_partition (fun member : Field × Nat => member.1.isElementary) l.fields.zipIdx)
      (by
        intro run member part inside
        have listed : part ∈ l.fields.zipIdx := members ▸ List.mem_flatMap.mpr ⟨run, member, inside⟩
        exact sound.field (List.fst_mem_of_mem_zipIdx listed)) (some 0) 0
    have fields : (l.fields.zipIdx.map fun member => member.1.reserve slots) =
        l.fields.map (Field.reserve slots) := by
      conv_rhs => rw [← List.zipIdx_map_fst 0 l.fields, List.map_map]
      rfl
    rw [members, Word.wrap_zero, Int.zero_add, fields] at total
    exact total

private theorem encodedSize_eq_of_le {r : Record} (sound : r.layout.Sound)
    (small : (r.layout.reserve r.slots : Int) ≤ Word.maxSigned) :
    r.encodedSize = (r.layout.reserve r.slots : Int) := by
  rw [encodedSize_eq sound]
  exact Word.wrap_natCast small

private theorem reserve_le_maxSigned {r : Record} (addressable : r.layout.IsAddressable) :
    (r.layout.reserve r.slots : Int) ≤ Word.maxSigned := by
  have bound := r.layout.reserve_le_capacity r.slots
  unfold Layout.IsAddressable at addressable
  omega

/-- Where sizes are machine numbers, the encoded size is the number of bytes set aside. -/
theorem encodedSize_eq_reserve {r : Record} (sound : r.layout.Sound)
    (addressable : r.layout.IsAddressable) : r.encodedSize = (r.layout.reserve r.slots : Int) :=
  encodedSize_eq_of_le sound (reserve_le_maxSigned addressable)

/-- Packing a record of machine size is the encoding member by member, faults included. -/
theorem pack_eq_encode_of_le {r : Record} (sound : r.layout.Sound)
    (small : (r.layout.reserve r.slots : Int) ≤ Word.maxSigned) (shape : r.layout.Admits r.slots) :
    r.pack = r.layout.encode r.slots := by
  have size := encodedSize_eq_of_le sound small
  have written := sound.write_yields shape (List.replicate (r.layout.reserve r.slots) 0) 0
    (by simpa only [Buffer.IsAddressable, List.length_replicate] using small) (by simp)
  simp only [pack, packInto, size, Int.toNat_natCast]
  rw [Int.natCast_zero] at written
  rw [written]
  cases encoded : r.layout.encode r.slots with
  | error fault => rfl
  | ok b =>
    have length := sound.length_encode shape encoded
    have whole : b.take (r.layout.reserve r.slots) = b := List.take_of_length_le (by omega)
    simp [Except.map, Buffer.spliced, length, whole]

theorem pack_eq_encode {r : Record} (sound : r.layout.Sound) (addressable : r.layout.IsAddressable)
    (shape : r.layout.Admits r.slots) : r.pack = r.layout.encode r.slots :=
  pack_eq_encode_of_le sound (reserve_le_maxSigned addressable) shape

end Record

/-- The offset of a field is the number of bytes that the members before it are encoded to. -/
theorem Layout.Sound.fieldOffset?_eq_length {l : Layout} (sound : l.Sound) (addressable : l.IsAddressable)
    {i : Nat} {offset : Int} (known : l.fieldOffset? i = some offset) {slots : List Slot} {b : Bytes}
    (shape : l.Admits slots)
    (encoded : joined ((encodings l.name slots l.fields slots).take i) = .ok b) : offset = b.length := by
  have constant := ((sound.fieldOffset?_isSome_iff i).mp (by simp [known])).2
  rw [encodings_take] at encoded
  have length := length_joined_encodings (List.forall₂_take i (Layout.admits_iff.mp shape))
    (fun _ member => (sound.field (List.mem_of_mem_take member)).encodesExtent) encoded
  have reserved : (l.fields.take i).map (Field.reserve slots) = (l.fields.take i).map Field.extent :=
    List.map_congr_left fun f member => Field.reserve_of_not_dynamic (constant f member)
  have bound : ((l.fields.take i).map (Field.reserve slots)).sum ≤ l.capacity := by
    have split := congrArg (fun fields => (fields.map (Field.reserve slots)).sum)
      (List.take_append_drop i l.fields)
    have whole := l.reserve_le_capacity slots
    simp only [List.map_append, List.sum_append] at split
    simp only [Layout.reserve] at whole
    omega
  unfold Layout.IsAddressable at addressable
  rw [sound.fieldOffset?_eq_some known, ← reserved, ← length]
  exact Word.wrap_natCast (by omega)

end TradeWire
