import TradeWire.Proofs.Constants
import TradeWire.Proofs.Number.Ranges
import TradeWire.Proofs.Record.Resolution
import TradeWire.Proofs.Session.Stamps
import TradeWire.Proofs.Wire.Recovery

/-! What one field holds, another field of the same width and sign takes as it is. -/

set_option autoImplicit false
set_option relaxedAutoImplicit false

namespace TradeWire

open Schema

/-- A signed field takes what uses only its bytes and what is sign-extended already, and holds it extended. -/
theorem IntForm.pattern?_eq_some {form : IntForm} (signed : form.isSigned = true) {size : Nat}
    (positive : 0 < size) {n raw : UInt64} :
    form.pattern? size n = some raw ↔
      (Word.isNarrow n size = true ∨ Word.fits n size true = true) ∧ raw = Word.signExtend n size := by
  unfold IntForm.pattern?
  simp only [signed, Bool.not_true, Bool.false_eq_true, if_false]
  cases Word.isNarrow n size with
  | true => simp only [if_true, Option.some.injEq, true_or, true_and, eq_comm]
  | false =>
    cases fit : Word.fits n size true with
    | true =>
      rw [Word.signExtend_of_fits positive fit]
      simp only [Bool.false_eq_true, if_false, if_true, Option.some.injEq, or_true, true_and, eq_comm]
    | false => simp only [Bool.false_eq_true, if_false, reduceCtorEq, or_self, false_and]

private theorem IntForm.fits_of_pattern? {form : IntForm} (signed : form.isSigned = true) {size : Nat}
    (positive : 0 < size) (width : size ≤ 8) {n raw : UInt64} (taken : form.pattern? size n = some raw) :
    Word.fits raw size true = true := by
  obtain ⟨narrow | fit, rfl⟩ := (IntForm.pattern?_eq_some signed positive).mp taken
  · exact Word.fits_signExtend positive width narrow
  · rwa [Word.signExtend_of_fits positive fit]

private theorem IntForm.pattern?_of_fits {form : IntForm} {size : Nat} (positive : 0 < size) {raw : UInt64}
    (fit : Word.fits raw size form.isSigned = true) : form.pattern? size raw = some raw := by
  cases signed : form.isSigned with
  | true =>
    rw [signed] at fit
    exact (IntForm.pattern?_eq_some signed positive).mpr ⟨.inr fit, (Word.signExtend_of_fits positive fit).symm⟩
  | false => simp [IntForm.pattern?, signed]

private theorem Word.isNumber_of_isSigned {signed : Bool} {x : Int} (machine : Word.isSigned x = true)
    (accepts : signed = false → 0 ≤ x) : Word.IsNumber signed x := by
  have number : Word.minSigned ≤ x ∧ x ≤ Word.maxSigned := by simpa [Word.isSigned] using machine
  cases signed with
  | true => exact number
  | false =>
    unfold Word.maxSigned at number
    exact ⟨accepts rfl, by omega⟩

namespace Record

def filled (r : Record) : Record := ⟨r.layout, r.layout.filledSlots r.slots⟩

private theorem enters_filled {r inner : Record} {hop : Hop} (enters : Enters r hop inner) :
    Enters r.filled hop inner.filled := by
  cases enters with
  | whole nested held => exact .whole nested (Layout.getElem?_filledSlots nested held)
  | item nested held inside =>
    exact .item nested (Layout.getElem?_filledSlots nested held) (by simp [inside])

private theorem at?_filled {r : Record} {place : Location} {f : Field} {s : Slot}
    (there : r.at? place = some (f, s)) :
    ∃ all, r.filled.at? place = some (f, f.filledSlot all s) := by
  obtain ⟨hops, i⟩ := place
  induction hops generalizing r with
  | nil =>
    obtain ⟨here, held⟩ := member?_eq_some.mp there
    exact ⟨r.slots, member?_eq_some.mpr ⟨here, Layout.getElem?_filledSlots here held⟩⟩
  | cons hop hops ih =>
    rw [at?_cons] at there
    obtain ⟨inner, entered, deep⟩ := Option.bind_eq_some_iff.mp there
    have enters := enters_filled (enter_eq_some.mp entered)
    rw [at?_cons, enter_eq_some.mpr enters, Option.bind_some]
    exact ih deep

private theorem locateInt_filled {r : Record} {path : String} {place : Location} {size : Nat} {form : IntForm}
    {s : Slot}
    (located : r.locateInt path = .ok (place, size, form, s)) :
    ∃ t, r.filled.locateInt path = .ok (place, size, form, t) ∧ t.raw = s.raw := by
  obtain ⟨name, type, found⟩ := locate_of_locateInt located
  obtain ⟨resolved, there⟩ := locate_eq_ok.mp found
  obtain ⟨all, read⟩ := at?_filled there
  have again : r.filled.resolve path = .ok place := resolve_of_at? (r := r) rfl resolved read
  exact ⟨_, locateInt_of_locate (locate_eq_ok.mpr ⟨again, read⟩), rfl⟩

section Located

variable {r next : Record} {path : String} {place : Location} {size : Nat} {form : IntForm} {s : Slot}

/-- A field takes a pattern when there is something it holds for it, and then holds that. -/
theorem setUint_eq_ok (positive : 0 < size) (width : size ≤ 8)
    (located : r.locateInt path = .ok (place, size, form, s)) {n : UInt64} :
    r.setUint path n = .ok next ↔
      ∃ raw, form.pattern? size n = some raw ∧ next = r.modify place fun _ => .int raw "" := by
  rw [setUint_of_locateInt positive width located]
  cases form.pattern? size n with
  | none => simp
  | some raw => simp [eq_comm]

/-- A signed field takes exactly the patterns of its bytes and what is sign-extended from them. -/
theorem exists_setUint_iff (positive : 0 < size) (width : size ≤ 8)
    (located : r.locateInt path = .ok (place, size, form, s)) (signed : form.isSigned = true) (v : UInt64) :
    (∃ next, r.setUint path v = .ok next) ↔
      v.toNat < 2 ^ (8 * size) ∨ ∃ k < 2 ^ (8 * size), v = Word.signExtend (UInt64.ofNat k) size := by
  rw [← Word.isNarrow_iff width, ← Word.fits_iff_exists_signExtend positive width]
  constructor
  · rintro ⟨next, done⟩
    obtain ⟨raw, pattern, _⟩ := (setUint_eq_ok positive width located).mp done
    exact ((IntForm.pattern?_eq_some signed positive).mp pattern).1
  · intro either
    have pattern := (IntForm.pattern?_eq_some signed positive).mpr ⟨either, rfl⟩
    exact ⟨_, (setUint_eq_ok positive width located).mpr ⟨_, pattern, rfl⟩⟩

private theorem uint_of_setUint (positive : 0 < size) (width : size ≤ 8)
    (located : r.locateInt path = .ok (place, size, form, s)) (signed : form.isSigned = true) {v : UInt64}
    (done : r.setUint path v = .ok next) :
    ∃ raw, next.uint path = .ok raw ∧ Word.IsInRange raw size true ∧
      raw.toNat % 2 ^ (8 * size) = v.toNat % 2 ^ (8 * size) := by
  obtain ⟨raw, pattern, rfl⟩ := (setUint_eq_ok positive width located).mp done
  have fit := IntForm.fits_of_pattern? signed positive width pattern
  obtain ⟨_, rfl⟩ := (IntForm.pattern?_eq_some signed positive).mp pattern
  refine ⟨_, uint_of_locateInt (locateInt_modify _ "" located),
    (Word.fits_iff_isInRange positive width _ true).mp fit, ?_⟩
  rw [Nat.pow_mul]
  exact Word.toNat_signExtend_mod positive width v

theorem setInt_of_locateInt {n : Int} (located : r.locateInt path = .ok (place, size, form, s)) :
    r.setInt path n = .ok next ↔
      (form.isSigned = false → 0 ≤ n) ∧ next = r.modify place fun _ => .int (Word.ofInt n) "" := by
  simp only [setInt_eq, located]
  cases form.isSigned with
  | true => simp [eq_comm]
  | false =>
    by_cases negative : n < 0
    · simp [negative]
    · simp [negative, Int.not_lt.mp negative, eq_comm]

private theorem exists_unpack_of_locateInt {b : Bytes} (sound : r.layout.Sound) (anchored : r.layout.Anchored)
    (shape : r.HasShape) (packed : r.pack = .ok b) (located : r.locateInt path = .ok (place, size, form, s)) :
    ∃ copy, unpack r.layout b 0 = .ok (copy, b.length) ∧ copy.int path = .ok (Word.toSigned s.raw) := by
  obtain ⟨encoded, _⟩ := encode_of_pack sound anchored shape packed
  have inMemory := isAddressable_of_pack sound anchored shape packed
  obtain ⟨t, there, same⟩ := locateInt_filled located
  refine ⟨_, sound.unpack_encode_alone shape encoded inMemory, ?_⟩
  rw [← same]
  exact int_of_locateInt there

end Located

section Compiled

variable {document : Bytes} {m : Model} {t : Table} {l : Layout} {r : Record} {path : String} {size : Nat}
  {form : IntForm}

/-- Raw values copy faithfully. A signed field takes exactly the patterns of its bytes and their sign
extensions, and then holds a number of its range with the same low bytes. What any field holds that fits it,
a field of the same width and sign takes and holds unchanged. And where a packable record has a number that
is no counter, a number that is set there packs exactly when the field has room for it, and is read back. -/
theorem numbers_copy (parsed : Model.parse document = .ok m) (compiled : Table.compile m = .ok t)
    (listed : l ∈ t.layouts) (reached : Reachable l r) (here : r.HasIntAt path size form) :
    (form.isSigned = true → ∀ v : UInt64,
      ((∃ next, r.setUint path v = .ok next) ↔
        v.toNat < 2 ^ (8 * size) ∨ ∃ k < 2 ^ (8 * size), v = Word.signExtend (UInt64.ofNat k) size) ∧
      ∀ next, r.setUint path v = .ok next → ∃ raw, next.uint path = .ok raw ∧
        Word.IsInRange raw size true ∧ raw.toNat % 2 ^ (8 * size) = v.toNat % 2 ^ (8 * size)) ∧
    (∀ (source : Record) (origin : String) (other : IntForm) (raw : UInt64), source.HasIntAt origin size other →
      other.isSigned = form.isSigned → source.uint origin = .ok raw → Word.IsInRange raw size form.isSigned →
        ∃ next, r.setUint path raw = .ok next ∧ next.uint path = .ok raw) ∧
    (∀ b, r.pack = .ok b → form.governs = false → ∀ (x : Int) (next : Record), Word.isSigned x = true →
      r.setInt path x = .ok next →
        ((∃ more, next.pack = .ok more) ↔ Word.HasRoom size form.isSigned x) ∧
          ∀ more, next.pack = .ok more →
            ∃ copy, Record.unpack l more 0 = .ok (copy, more.length) ∧ copy.int path = .ok x) := by
  obtain ⟨place, s, located⟩ := here
  obtain ⟨rfl, shape⟩ := reached.hasShape
  have accepted := Model.isAccepted_of_parse parsed
  have sound := Table.sound_of_compile accepted compiled r.layout listed
  obtain ⟨positive, width⟩ := width_of_locateInt sound located
  refine ⟨?_, ?_, ?_⟩
  · intro signed v
    exact ⟨exists_setUint_iff positive width located signed v,
      fun _ done => uint_of_setUint positive width located signed done⟩
  · intro source origin other raw _ _ _ range
    have fit := (Word.fits_iff_isInRange positive width raw form.isSigned).mpr range
    have set := (setUint_eq_ok positive width located).mpr ⟨raw, IntForm.pattern?_of_fits positive fit, rfl⟩
    exact ⟨_, set, uint_of_locateInt (locateInt_modify raw "" located)⟩
  · intro b packed free x next machine set
    obtain ⟨accepts, rfl⟩ := (setInt_of_locateInt located).mp set
    obtain ⟨name, type, found⟩ := locate_of_locateInt located
    have anchored := Table.anchored_of_compile accepted compiled r.layout listed (fields_ne_nil_of_locate found)
    constructor
    · rw [pack_modify_isOk_iff sound anchored shape packed found free,
        Word.fits_ofInt_iff positive width (Word.isNumber_of_isSigned machine accepts)]
    · intro more again
      have changed := locateInt_modify (Word.ofInt x) "" located
      have shape' : (r.modify place fun _ => .int (Word.ofInt x) "").HasShape :=
        admits_modify shape found fun _ _ => trivial
      obtain ⟨copy, read, value⟩ := exists_unpack_of_locateInt (r := r.modify place _) sound anchored shape' again
        changed
      have number : Word.minSigned ≤ x ∧ x ≤ Word.maxSigned := by simpa [Word.isSigned] using machine
      rw [Slot.raw, Word.toSigned_ofInt number.1 number.2] at value
      exact ⟨copy, read, value⟩

end Compiled

/-- A signed byte takes the pattern of minus one as a byte, and what it is set to is read from its bytes. -/
theorem ranges_numbers_copy : ∃ m t l next again more copy, Model.parse rangesDocument = .ok m ∧
    Table.compile m = .ok t ∧ l ∈ t.layouts ∧ (Record.new l).HasIntAt "A" 1 inRangeForm ∧
      ((Record.new l).setUint "A" 255 = .ok next ∧ ∃ raw, next.uint "A" = .ok raw ∧
        Word.IsInRange raw 1 true ∧ raw.toNat % 2 ^ (8 * 1) = 255) ∧
      (Record.new l).setInt "A" 127 = .ok again ∧ again.pack = .ok more ∧
        Record.unpack l more 0 = .ok (copy, more.length) ∧ copy.int "A" = .ok 127 := by
  obtain ⟨m, t, l, place, s, _, _, _, parsed, compiled, listed, _, located, packed, _⟩ := exists_ranges
  have integer := locateInt_of_locate located
  have here : (Record.new l).HasIntAt "A" 1 inRangeForm := ⟨place, s, integer⟩
  obtain ⟨patterns, _, numbers⟩ := numbers_copy parsed compiled listed .new here
  obtain ⟨takes, holds⟩ := patterns rfl 255
  obtain ⟨next, taken⟩ := takes.mpr (.inl (by decide))
  have set : (Record.new l).setInt "A" 127 = .ok _ := (setInt_of_locateInt integer).mpr ⟨nofun, rfl⟩
  obtain ⟨packs, reads⟩ := numbers _ packed rfl 127 _ (by decide) set
  obtain ⟨more, again⟩ := packs.mpr (by decide)
  obtain ⟨copy, read, value⟩ := reads more again
  exact ⟨m, t, l, next, _, more, copy, parsed, compiled, listed, here, ⟨taken, holds next taken⟩, set, again,
    read, value⟩

end Record

end TradeWire
