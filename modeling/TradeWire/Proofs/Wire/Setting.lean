import TradeWire.Proofs.Record.Fresh
import TradeWire.Proofs.Wire.Splicing

/-! Setting a number of a record that packs. -/

set_option autoImplicit false
set_option relaxedAutoImplicit false

namespace TradeWire

/-- Whether a member is valid depends on the others through its counter. -/
theorem Field.isValid_congr {f : Field} {all others : List Slot} {s : Slot}
    (same : ∀ counter, f.counter? = some counter → rawAt others counter = rawAt all counter) :
    f.IsValid others s ↔ f.IsValid all s := by
  cases f with
  | primitive name type size kind =>
    cases kind with
    | int | pad | bytes => exact Iff.rfl
    | varBytes counter => simp only [Field.IsValid, same counter rfl]
  | nested name repetition element =>
    cases repetition with
    | once | array =>
      cases s with
      | pad | int | bytes | struct | elems => exact Iff.rfl
    | group counter least most =>
      cases s with
      | elems items => simp only [Field.IsValid, same counter rfl]
      | pad | int | bytes | struct => exact Iff.rfl

private theorem Field.reserve_congr {f : Field} {all others : List Slot}
    (same : ∀ counter, f.counter? = some counter → rawAt others counter = rawAt all counter) :
    f.reserve others = f.reserve all := by
  cases f with
  | primitive name type size kind =>
    cases kind with
    | int | pad | bytes => rfl
    | varBytes counter => simp only [Field.reserve, same counter rfl]
  | nested name repetition element =>
    cases repetition with
    | once | array => rfl
    | group counter least most => simp only [Field.reserve, same counter rfl]

theorem Field.encode_congr {f : Field} {owner : String} {all others : List Slot} {s : Slot}
    (same : ∀ counter, f.counter? = some counter → rawAt others counter = rawAt all counter) :
    f.encode owner others s = f.encode owner all s := by
  cases f with
  | primitive name type size kind =>
    cases kind with
    | int | pad | bytes => rfl
    | varBytes counter => simp only [Field.encode, same counter rfl]
  | nested name repetition element =>
    cases repetition with
    | once | array =>
      cases s with
      | pad | int | bytes | struct | elems => rfl
    | group counter least most =>
      cases s with
      | elems items => simp only [Field.encode, same counter rfl]
      | pad | int | bytes | struct => rfl

/-- The same numbers at the positions of the counters. -/
def Layout.SameCounters (l : Layout) (all others : List Slot) : Prop :=
  ∀ f ∈ l.fields, ∀ counter, f.counter? = some counter → rawAt others counter = rawAt all counter

theorem Layout.SameCounters.reserve_eq {l : Layout} {all others : List Slot}
    (same : l.SameCounters all others) : l.reserve others = l.reserve all := by
  unfold Layout.reserve
  congr 1
  exact List.map_congr_left fun f member => Field.reserve_congr (same f member)

/-- A change that keeps the counters needs to be looked at where it is made. -/
theorem Layout.isValid_modify_iff {l : Layout} {slots : List Slot} {i : Nat} {f : Field} {s : Slot}
    {change : Slot → Slot} (valid : l.IsValid slots) (here : l.fields[i]? = some f)
    (there : slots[i]? = some s) (same : l.SameCounters slots (slots.modify i change)) :
    l.IsValid (slots.modify i change) ↔ f.IsValid slots (change s) := by
  rw [Layout.isValid_iff] at valid ⊢
  constructor
  · intro all
    have changed : (slots.modify i change)[i]? = some (change s) := by simp [there]
    exact (Field.isValid_congr (same f (List.mem_of_getElem? here))).mp (all i f _ here changed)
  · intro fine k g t at_k holds
    rw [Field.isValid_congr (same g (List.mem_of_getElem? at_k))]
    rw [List.getElem?_modify] at holds
    obtain ⟨old, before, rfl⟩ := Option.map_eq_some_iff.mp holds
    by_cases equal : i = k
    · subst equal
      obtain rfl : f = g := Option.some.inj (here.symm.trans at_k)
      obtain rfl : s = old := Option.some.inj (there.symm.trans before)
      simpa using fine
    · simpa [equal] using valid k g old at_k before

private theorem rawAt_modify_of_ne {slots : List Slot} {i j : Nat} (apart : i ≠ j) (change : Slot → Slot) :
    rawAt (slots.modify i change) j = rawAt slots j := by
  simp [rawAt, apart]

private theorem Layout.Sound.counter_ne {l : Layout} (sound : l.Sound) {i : Nat} {name type : String} {size : Nat}
    {form : IntForm} (here : l.fields[i]? = some (.primitive name type size (.int form)))
    (free : form.governs = false) {f : Field} (member : f ∈ l.fields) {counter : Nat}
    (governed : f.counter? = some counter) : i ≠ counter := by
  rintro rfl
  obtain ⟨k, at_k⟩ := List.mem_iff_getElem?.mp member
  obtain ⟨_, _, _, _, _, marked, governs, _⟩ := sound.countersPrecede k f i at_k governed
  cases here.symm.trans marked
  rw [free] at governs
  cases governs

namespace Record

private theorem rawAt_modifySlots_below (hop : Hop) (hops : List Hop) (i counter : Nat) (change : Slot → Slot)
    (slots : List Slot) : rawAt (modifySlots change (hop :: hops) i slots) counter = rawAt slots counter := by
  unfold modifySlots rawAt
  rw [List.getElem?_modify]
  by_cases same : hop.field = counter
  · subst same
    cases slots[hop.field]? with
    | none => rfl
    | some s =>
      simp only [if_true, Option.map_some]
      cases s with
      | pad | int | bytes => rfl
      | struct inner =>
        cases hop.item with
        | none | some => rfl
      | elems items =>
        cases hop.item with
        | none | some => rfl
  · simp [same]

private theorem isValid_modifySlots_iff {i : Nat} {name type : String} {size : Nat} {form : IntForm} {owner : Layout}
    {inner : List Slot} {s : Slot} (here : owner.fields[i]? = some (.primitive name type size (.int form)))
    (there : inner[i]? = some s) (free : form.governs = false) (raw : UInt64) (symbol : String)
    (hops : List Hop) :
    ∀ (l : Layout) (slots : List Slot), l.Sound → l.Admits slots → l.IsValid slots →
      follow hops l slots = some (owner, inner) →
        l.SameCounters slots (modifySlots (fun _ => .int raw symbol) hops i slots) ∧
          (l.IsValid (modifySlots (fun _ => .int raw symbol) hops i slots) ↔
            Word.fits raw size form.isSigned = true) := by
  induction hops with
  | nil =>
    intro l slots sound _ valid reached
    cases reached
    have same : owner.SameCounters inner (inner.modify i fun _ => .int raw symbol) := by
      intro f member counter governed
      exact rawAt_modify_of_ne (sound.counter_ne here free member governed) _
    obtain ⟨positive, width⟩ := (sound.field (List.mem_of_getElem? here)).width name type size form rfl
    rw [Word.fits_iff_isInRange positive width]
    exact ⟨same, Layout.isValid_modify_iff valid here there same⟩
  | cons hop hops ih =>
    intro l slots sound shape valid reached
    have same : l.SameCounters slots (modifySlots (fun _ => .int raw symbol) (hop :: hops) i slots) :=
      fun _ _ counter _ => rawAt_modifySlots_below hop hops i counter _ slots
    refine ⟨same, ?_⟩
    unfold follow at reached
    split at reached
    · rename_i nestedName repetition element below nested held single
      have field := sound.field (List.mem_of_getElem? nested)
      obtain ⟨t, again, kind⟩ := forall₂_getElem? (Layout.admits_iff.mp shape) nested
      obtain rfl := Option.some.inj (held.symm.trans again)
      obtain ⟨_, _, once, admitted⟩ := kind.struct_inv
      cases once
      have fine : element.IsValid below := Layout.isValid_iff.mp valid _ _ _ nested held
      obtain ⟨_, iff⟩ := ih element below (field.element element rfl) admitted fine reached
      rw [modifySlots, Layout.isValid_modify_iff valid nested held same]
      simp only [single]
      exact iff
    · rename_i nestedName repetition element items n nested held item
      have field := sound.field (List.mem_of_getElem? nested)
      obtain ⟨t, again, kind⟩ := forall₂_getElem? (Layout.admits_iff.mp shape) nested
      obtain rfl := Option.some.inj (held.symm.trans again)
      obtain ⟨_, _, _, form', many, admitted⟩ := kind.elems_inv
      cases form'
      obtain ⟨below, at_n, further⟩ := Option.bind_eq_some_iff.mp reached
      have listed := List.mem_of_getElem? at_n
      have was : (Field.nested nestedName repetition element).IsValid slots (.elems items) :=
        Layout.isValid_iff.mp valid _ _ _ nested held
      -- as many elements as before, and each of them but one is as it was
      have each : (∀ item ∈ items, element.IsValid item) →
          ((∀ item ∈ items.modify n (modifySlots (fun _ => .int raw symbol) hops i), element.IsValid item) ↔
            Word.fits raw size form.isSigned = true) := by
        intro all
        obtain ⟨_, iff⟩ := ih element below (field.element element rfl) (admitted below listed)
          (all below listed) further
        exact (forall_mem_modify_iff all at_n).trans iff
      rw [modifySlots, Layout.isValid_modify_iff valid nested held same]
      simp only [item]
      cases repetition with
      | once => exact absurd rfl many
      | array count =>
        obtain ⟨length, all⟩ := was
        simp only [Field.IsValid, List.length_modify, length, true_and]
        exact each all
      | group counter least most =>
        obtain ⟨length, low, high, all⟩ := was
        simp only [Field.IsValid, List.length_modify, length, low, high, true_and]
        exact each all
    · cases reached

/-- A record that packs goes on packing exactly when the number that is set fits its field, unless it is a
counter. -/
theorem pack_modify_isOk_iff {r : Record} (sound : r.layout.Sound) (anchored : r.layout.Anchored)
    (shape : r.HasShape) {b : Bytes} (packed : r.pack = .ok b) {path : String} {place : Location}
    {name type : String} {size : Nat} {form : IntForm} {s : Slot}
    (located : r.locate path = .ok (place, .primitive name type size (.int form), s))
    (free : form.governs = false) (raw : UInt64) (symbol : String) :
    (∃ more, (r.modify place fun _ => .int raw symbol).pack = .ok more) ↔
      Word.fits raw size form.isSigned = true := by
  obtain ⟨⟨owner, inner⟩, reached, found⟩ := Option.bind_eq_some_iff.mp (at?_of_locate located)
  simp only at found
  split at found
  · rename_i f t here there
    cases found
    obtain ⟨encoded, _⟩ := encode_of_pack sound anchored shape packed
    have valid := (sound.encode_isOk_iff shape).mp ⟨b, encoded⟩
    obtain ⟨same, iff⟩ := isValid_modifySlots_iff here there free raw symbol place.hops r.layout r.slots
      sound shape valid reached
    -- the changed record takes as much room as the record does
    let next : Record := r.modify place fun _ => .int raw symbol
    have sound' : next.layout.Sound := sound
    have shape' : next.HasShape := admits_modify shape located fun t _ => trivial
    have room : (next.layout.reserve next.slots : Int) ≤ Word.maxSigned := by
      have kept : next.layout.reserve next.slots = r.layout.reserve r.slots := same.reserve_eq
      have length := sound.length_encode shape encoded
      have bound := isAddressable_of_pack sound anchored shape packed
      unfold Buffer.IsAddressable at bound
      omega
    rw [pack_eq_encode_of_le sound' room shape', sound'.encode_isOk_iff shape']
    exact iff
  · cases found

end Record

end TradeWire
