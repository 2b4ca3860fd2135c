import TradeWire.Proofs.Layout.Soundness
import TradeWire.Proofs.Record.Reachable
import TradeWire.Proofs.Wire.Packing
import TradeWire.Proofs.Wire.Reproduction
import TradeWire.Proofs.Wire.Unpacking
import TradeWire.Proofs.Wire.Validity

/-! What is unpacked packs again unless one of its groups has fewer elements than it should. -/

set_option autoImplicit false
set_option relaxedAutoImplicit false

namespace TradeWire

/-- The counter of a field announces no more than the field may hold. -/
def Field.HoldsAtMost (all : List Slot) : Field → Prop
  | .primitive _ _ size (.varBytes counter) => (rawAt all counter).toNat ≤ size
  | .nested _ (.group counter _ most) _ => (rawAt all counter).toNat ≤ most
  | _ => True

/-- The counter of a field announces no less than the field must hold. -/
def Field.HoldsAtLeast (all : List Slot) : Field → Prop
  | .nested _ (.group counter least _) _ => least ≤ (rawAt all counter).toNat
  | _ => True

private theorem Field.HoldsAtMost.of_counter {f : Field} {all earlier : List Slot} (holds : f.HoldsAtMost earlier)
    (same : ∀ counter, f.counter? = some counter → rawAt all counter = rawAt earlier counter) :
    f.HoldsAtMost all := by
  cases f with
  | primitive name type size kind =>
    cases kind with
    | varBytes counter => simpa only [HoldsAtMost, same counter rfl] using holds
    | int | pad | bytes => trivial
  | nested name repetition element =>
    cases repetition with
    | group counter least most => simpa only [HoldsAtMost, same counter rfl] using holds
    | once | array => trivial

private theorem Field.holdsAtMost_of_decode {f : Field} {earlier : List Slot} {buf : Bytes} {pos stop : Int}
    {s : Slot} (decoded : f.decode earlier buf pos = some (s, stop)) : f.HoldsAtMost earlier := by
  cases Field.decodes_of_some decoded with
  | varBytes bounded => exact bounded
  | group bounded => exact bounded
  | int | pad | bytes | once | array => trivial

private theorem holdsAtMost_of_decodeFields {fields : List Field} {earlier all : List Slot} {buf : Bytes}
    {pos stop : Int}
    (counters : ∀ k f counter, fields[k]? = some f → f.counter? = some counter →
      counter < earlier.length + k)
    (decoded : decodeFields fields earlier buf pos = some (all, stop)) :
    (∃ more, all = earlier ++ more) ∧ ∀ f ∈ fields, f.HoldsAtMost all := by
  induction fields generalizing earlier pos with
  | nil =>
    simp only [decodeFields, Option.some.injEq, Prod.mk.injEq] at decoded
    exact ⟨⟨[], by simp [decoded.1]⟩, by simp⟩
  | cons f rest ih =>
    obtain ⟨s, next, here, tail⟩ := decodeFields_cons_eq_some.mp decoded
    obtain ⟨⟨more, whole⟩, others⟩ := ih
      (by
        intro k g counter there governed
        have bound := counters (k + 1) g counter (by simpa using there) governed
        rw [List.length_append, List.length_singleton]
        omega) tail
    have first : f.HoldsAtMost all := by
      refine (Field.holdsAtMost_of_decode here).of_counter ?_
      intro counter governed
      have bound := counters 0 f counter (by simp) governed
      rw [whole, List.append_assoc]
      simp only [rawAt, List.getElem?_append_left (show counter < earlier.length by omega)]
    exact ⟨⟨s :: more, by simp [whole]⟩, List.forall_mem_cons.mpr ⟨first, others⟩⟩

private theorem Layout.Sound.holdsAtMost_of_decode {l : Layout} (sound : l.Sound) {buf : Bytes} {pos stop : Int}
    {slots : List Slot} (decoded : l.decode buf pos = some (slots, stop)) :
    ∀ f ∈ l.fields, f.HoldsAtMost slots := by
  have precede := sound.countersPrecede
  obtain ⟨name, message, size, fields⟩ := l
  refine (holdsAtMost_of_decodeFields ?_ decoded).2
  intro k f counter here governed
  simpa using (precede k f counter here governed).1

private theorem holdsAtLeast_of_fieldsAreValid {all : List Slot} {fields : List Field} {slots : List Slot}
    (shape : List.Forall₂ Field.Admits fields slots) (valid : FieldsAreValid all fields slots) :
    ∀ f ∈ fields, f.HoldsAtLeast all := by
  induction shape with
  | nil => simp
  | @cons f s fs ss kind _ ih =>
    obtain ⟨here, others⟩ := valid
    refine List.forall_mem_cons.mpr ⟨?_, ih others⟩
    cases f with
    | primitive => trivial
    | nested name repetition element =>
      cases repetition with
      | once | array => trivial
      | group counter least most =>
        cases s with
        | elems items => exact here.2.1
        | pad | int | bytes | struct => simp [Field.Admits] at kind

/-- A decoded instance is encoded again exactly when none of its groups has too few elements. -/
theorem Layout.Sound.encode_isOk_iff_of_decode {l : Layout} (sound : l.Sound) {buf : Bytes} {pos stop : Int}
    {slots : List Slot} (shape : l.Admits slots) (decoded : l.decode buf pos = some (slots, stop)) :
    (∃ b, l.encode slots = .ok b) ↔ ∀ f ∈ l.fields, f.HoldsAtLeast slots := by
  constructor
  · intro encoded
    have valid := (sound.encode_isOk_iff shape).mp encoded
    obtain ⟨name, message, size, fields⟩ := l
    exact holdsAtLeast_of_fieldsAreValid (Layout.admits_iff.mp shape) valid
  · intro enough
    rcases sound.encode_decode decoded with ⟨b, _, _, encoded⟩ | short
    · exact ⟨_, encoded⟩
    · obtain ⟨_, _, name, counter, least, most, element, group, few, _⟩ := short
      exact absurd (enough _ group) (Nat.not_le.mpr few)

/-- A schema with a group that must have one element at least. -/
def bookDocument : Bytes := List.flatMap Text.encodeUtf8
  ["<Model><DataTypes><DataType name='N' rootType='int' size='1'/></DataTypes><Structures>",
    "<Structure name='Leg' type='Component'><Member name='Side' type='N' cardinality='1'/></Structure>",
    "<Structure name='Book' type='Component'><Member name='Count' type='N' cardinality='1'/>",
    "<Member name='Legs' type='Leg' cardinality='3' minCardinality='1' counter='Count'/></Structure>",
    "</Structures></Model>"]

private theorem exists_book : ∃ m t l empty book, Model.parse bookDocument = .ok m ∧ Table.compile m = .ok t ∧
    l ∈ t.layouts ∧ l.IsAddressable ∧ l.capacity = 4 ∧ Record.unpack l [0] 0 = .ok (empty, 1) ∧
      empty.pack = .error ⟨"Book", "Legs", .counterOutside 0 1 3⟩ ∧
        Record.unpack l [1, 5] 0 = .ok (book, 2) ∧ book.pack = .ok [1, 5] := by
  have run : ((layoutsOf bookDocument).any fun l => l.capacity == 4 &&
      ((Record.unpack l [0] 0).toOption.any fun (r, stop) => stop == 1 &&
        fault? r.pack == some ⟨"Book", "Legs", .counterOutside 0 1 3⟩) &&
      (Record.unpack l [1, 5] 0).toOption.any fun (r, stop) => stop == 2 &&
        r.pack.toOption == some [1, 5]) = true := by
    rw [bookDocument, Text.encodeUtf8_eq]
    decide +kernel
  obtain ⟨m, t, l, parsed, compiled, listed, checked⟩ := exists_of_any_layoutsOf run
  simp only [Bool.and_eq_true, beq_iff_eq, Option.any_eq_true, toOption_eq_some, fault?_eq_some,
    Prod.exists] at checked
  obtain ⟨⟨room, empty, _, emptyRead, rfl, failed⟩, book, _, bookRead, rfl, packed⟩ := checked
  have addressable : l.IsAddressable := by
    rw [Layout.IsAddressable, room]
    decide
  exact ⟨m, t, l, empty, book, parsed, compiled, listed, addressable, room, emptyRead, failed, bookRead,
    packed⟩

/-- What unpacking accepts. A record is unpacked only if every variable byte string and every group is within
the largest length or count of its field. Such a record packs exactly when each group also has the least count
it must have, which unpacking does not ask for; otherwise packing reports such a group. -/
theorem Record.pack_isOk_iff_of_unpack {document : Bytes} {m : Model} {t : Table} {l : Layout} {buf : Bytes}
    {off stop : Int} {r : Record} (parsed : Model.parse document = .ok m) (compiled : Table.compile m = .ok t)
    (listed : l ∈ t.layouts) (addressable : l.IsAddressable) (low : Word.minSigned ≤ off)
    (high : off + l.capacity ≤ Word.maxSigned) (unpacked : Record.unpack l buf off = .ok (r, stop)) :
    (∀ f ∈ l.fields, f.HoldsAtMost r.slots) ∧
      ((∃ b, r.pack = .ok b) ↔ ∀ f ∈ l.fields, f.HoldsAtLeast r.slots) ∧
      ∀ fault, r.pack = .error fault →
        ∃ name counter least most element, Field.nested name (.group counter least most) element ∈ l.fields ∧
          (rawAt r.slots counter).toNat < least ∧
            fault = ⟨l.name, name, .counterOutside (rawAt r.slots counter) least most⟩ := by
  have sound := Table.sound_of_compile (Model.isAccepted_of_parse parsed) compiled l listed
  obtain ⟨rfl, shape⟩ := (Record.Reachable.unpack unpacked).hasShape
  have decoded := ((Record.unpack_eq_ok_iff sound low high).mp unpacked).2
  rw [r.pack_eq_encode sound addressable shape]
  refine ⟨sound.holdsAtMost_of_decode decoded, sound.encode_isOk_iff_of_decode shape decoded, ?_⟩
  intro fault failed
  rcases sound.encode_decode decoded with ⟨b, _, _, encoded⟩ | ⟨other, again, short⟩
  · rw [encoded] at failed
    cases failed
  · obtain rfl : other = fault := Except.error.inj (again.symm.trans failed)
    exact short

theorem Record.book_pack_isOk_iff_of_unpack : ∃ m t l r, Model.parse bookDocument = .ok m ∧
    Table.compile m = .ok t ∧ l ∈ t.layouts ∧ l.IsAddressable ∧ Record.unpack l [1, 5] 0 = .ok (r, 2) ∧
      r.pack = .ok [1, 5] ∧ ∀ f ∈ l.fields, f.HoldsAtMost r.slots ∧ f.HoldsAtLeast r.slots := by
  obtain ⟨m, t, l, _, book, parsed, compiled, listed, addressable, room, _, _, unpacked, packed⟩ :=
    exists_book
  obtain ⟨most, enough, _⟩ := Record.pack_isOk_iff_of_unpack parsed compiled listed addressable (by decide)
    (by rw [room]; decide) unpacked
  exact ⟨m, t, l, book, parsed, compiled, listed, addressable, unpacked, packed, fun f member =>
    ⟨most f member, enough.mp ⟨_, packed⟩ f member⟩⟩

/-- Unpacking accepts a group with fewer elements than it must have, which packing refuses. -/
theorem Record.unpack_accepts_short_group : ∃ m t l r, Model.parse bookDocument = .ok m ∧
    Table.compile m = .ok t ∧ l ∈ t.layouts ∧ l.IsAddressable ∧ Record.unpack l [0] 0 = .ok (r, 1) ∧
      r.pack = .error ⟨"Book", "Legs", .counterOutside 0 1 3⟩ := by
  obtain ⟨m, t, l, empty, _, parsed, compiled, listed, addressable, _, unpacked, failed, _⟩ := exists_book
  exact ⟨m, t, l, empty, parsed, compiled, listed, addressable, unpacked, failed⟩

end TradeWire
