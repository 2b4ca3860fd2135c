import TradeWire.Proofs.Wire.Members

/-! Decoded slots have the kinds of their fields and end where these say. -/

set_option autoImplicit false
set_option relaxedAutoImplicit false

namespace TradeWire

theorem decodeFields_append (before after : List Field) (earlier : List Slot) (buf : Bytes) (pos : Int) :
    decodeFields (before ++ after) earlier buf pos =
      (decodeFields before earlier buf pos).bind fun (slots, next) => decodeFields after slots buf next := by
  induction before generalizing earlier pos with
  | nil => simp [decodeFields]
  | cons f rest ih =>
    simp only [List.cons_append, decodeFields]
    cases f.decode earlier buf pos with
    | none => rfl
    | some out =>
      obtain ⟨s, next⟩ := out
      exact ih (earlier ++ [s]) next

theorem decodeFields_singleton (f : Field) (earlier : List Slot) (buf : Bytes) (pos : Int) :
    decodeFields [f] earlier buf pos =
      (f.decode earlier buf pos).map fun (s, stop) => (earlier ++ [s], stop) := by
  simp only [decodeFields]
  cases f.decode earlier buf pos with
  | none => rfl
  | some out => rfl

theorem decodeFields_cons_eq_some {f : Field} {rest : List Field} {earlier : List Slot} {buf : Bytes}
    {pos : Int} {out : List Slot × Int} :
    decodeFields (f :: rest) earlier buf pos = some out ↔
      ∃ s next, f.decode earlier buf pos = some (s, next) ∧
        decodeFields rest (earlier ++ [s]) buf next = some out := by
  simp only [decodeFields]
  cases f.decode earlier buf pos with
  | none => simp
  | some found =>
    obtain ⟨s, next⟩ := found
    simp

theorem Buffer.slice?_eq_some {buf data : Bytes} {start count : Int} :
    Buffer.slice? buf start count = some data ↔
      0 ≤ start ∧ 0 ≤ count ∧ start + count ≤ buf.length ∧
        data = (buf.drop start.toNat).take count.toNat := by
  by_cases inside : Buffer.isInside buf.length start count = true
  · simp only [Buffer.slice?, inside, if_true, Option.some.injEq, eq_comm (a := data)]
    simp only [Buffer.isInside, Bool.and_eq_true, decide_eq_true_eq] at inside
    exact ⟨fun same => ⟨inside.1.1, inside.1.2, inside.2, same⟩, fun all => all.2.2.2⟩
  · simp only [Buffer.slice?, inside, if_false, Bool.false_eq_true]
    simp only [Buffer.isInside, Bool.and_eq_true, decide_eq_true_eq] at inside
    refine ⟨fun absent => (by cases absent), fun all => ?_⟩
    exact absurd ⟨⟨all.1, all.2.1⟩, all.2.2.1⟩ inside

/-- An element of constant size: decoding it takes its extent. -/
def Layout.DecodesExtent (element : Layout) : Prop :=
  ∀ buf pos slots stop, element.decode buf pos = some (slots, stop) → stop = pos + element.extent

private theorem decodeTimes_stop {element : Layout} (each : element.DecodesExtent) {count : Nat} {buf : Bytes}
    {pos : Int} {items : List (List Slot)} {stop : Int}
    (decoded : decodeTimes element.decode count buf pos = some (items, stop)) :
    stop = pos + (count * element.extent : Nat) := by
  induction count generalizing pos items stop with
  | zero =>
    simp only [decodeTimes, Option.some.injEq, Prod.mk.injEq] at decoded
    simp [← decoded.2]
  | succ count ih =>
    simp only [decodeTimes] at decoded
    split at decoded
    · cases decoded
    · rename_i item next first
      obtain ⟨⟨others, behind⟩, tail, same⟩ := Option.map_eq_some_iff.mp decoded
      simp only [Prod.mk.injEq] at same
      have here := each buf pos item next first
      have there := ih tail
      rw [← same.2, there, here, Nat.add_mul, Int.natCast_add]
      omega

/-- What a member is decoded as, and where it ends, for each kind of field. -/
inductive Field.Decodes (earlier : List Slot) (buf : Bytes) (pos : Int) : Field → Slot → Int → Prop
  | int {name type : String} {size : Nat} {form : IntForm} {data : Bytes}
      (found : Buffer.slice? buf pos size = some data) :
      Decodes earlier buf pos (.primitive name type size (.int form)) (intSlot size form data) (pos + size)
  | pad {name type : String} {size : Nat} {data : Bytes} (found : Buffer.slice? buf pos size = some data) :
      Decodes earlier buf pos (.primitive name type size .pad) .pad (pos + size)
  | bytes {name type : String} {size : Nat} {initial : Option Bytes} {data : Bytes}
      (found : Buffer.slice? buf pos size = some data) :
      Decodes earlier buf pos (.primitive name type size (.bytes initial)) (.bytes data) (pos + size)
  | varBytes {name type : String} {size counter : Nat} {data : Bytes}
      (bounded : (rawAt earlier counter).toNat ≤ size)
      (found : Buffer.slice? buf pos (rawAt earlier counter).toNat = some data) :
      Decodes earlier buf pos (.primitive name type size (.varBytes counter)) (.bytes data)
        (pos + (rawAt earlier counter).toNat)
  | once {name : String} {element : Layout} {slots : List Slot} {stop : Int}
      (found : element.decode buf pos = some (slots, stop)) :
      Decodes earlier buf pos (.nested name .once element) (.struct slots) stop
  | array {name : String} {count : Nat} {element : Layout} {items : List (List Slot)} {stop : Int}
      (found : decodeTimes element.decode count buf pos = some (items, stop)) :
      Decodes earlier buf pos (.nested name (.array count) element) (.elems items) stop
  | group {name : String} {counter least most : Nat} {element : Layout} {items : List (List Slot)}
      {stop : Int} (bounded : (rawAt earlier counter).toNat ≤ most)
      (found : decodeTimes element.decode (rawAt earlier counter).toNat buf pos = some (items, stop)) :
      Decodes earlier buf pos (.nested name (.group counter least most) element) (.elems items) stop

theorem Field.decodes_of_some {f : Field} {earlier : List Slot} {buf : Bytes} {pos : Int} {s : Slot}
    {stop : Int} (decoded : f.decode earlier buf pos = some (s, stop)) :
    f.Decodes earlier buf pos s stop := by
  cases f with
  | primitive name type size kind =>
    cases kind with
    | int form =>
      obtain ⟨data, found, same⟩ := Option.map_eq_some_iff.mp decoded
      cases same
      exact .int found
    | pad =>
      obtain ⟨data, found, same⟩ := Option.map_eq_some_iff.mp decoded
      cases same
      exact .pad found
    | bytes initial =>
      obtain ⟨data, found, same⟩ := Option.map_eq_some_iff.mp decoded
      cases same
      exact .bytes found
    | varBytes counter =>
      simp only [Field.decode] at decoded
      split at decoded
      · cases decoded
      · rename_i bounded
        obtain ⟨data, found, same⟩ := Option.map_eq_some_iff.mp decoded
        cases same
        exact .varBytes (Nat.not_lt.mp bounded) found
  | nested name repetition element =>
    cases repetition with
    | once =>
      simp only [Field.decode] at decoded
      obtain ⟨⟨slots, behind⟩, found, same⟩ := Option.map_eq_some_iff.mp decoded
      cases same
      exact .once found
    | array count =>
      simp only [Field.decode] at decoded
      obtain ⟨⟨items, behind⟩, found, same⟩ := Option.map_eq_some_iff.mp decoded
      cases same
      exact .array found
    | group counter least most =>
      simp only [Field.decode] at decoded
      split at decoded
      · cases decoded
      · rename_i bounded
        obtain ⟨⟨items, behind⟩, found, same⟩ := Option.map_eq_some_iff.mp decoded
        cases same
        exact .group (Nat.not_lt.mp bounded) found

private theorem Field.decode_stop {f : Field} {earlier : List Slot} {buf : Bytes} {pos : Int} {s : Slot}
    {stop : Int} (below : ∀ element, f.element? = some element → element.DecodesExtent)
    (decoded : f.decode earlier buf pos = some (s, stop)) : stop = pos + f.reserve earlier := by
  cases Field.decodes_of_some decoded with
  | int | pad | bytes => rfl
  | varBytes bounded => rw [Field.reserve, Nat.min_eq_left bounded]
  | once found => exact below _ rfl buf pos _ stop found
  | array found => exact decodeTimes_stop (below _ rfl) found
  | group bounded found =>
    rw [Field.reserve, Nat.min_eq_left bounded]
    exact decodeTimes_stop (below _ rfl) found

section Fields

variable {fields : List Field} {earlier : List Slot} {buf : Bytes} {pos : Int} {slots : List Slot}
  {stop : Int}

theorem decodeFields_stop_le
    (below : ∀ f ∈ fields, ∀ element, f.element? = some element → element.DecodesExtent)
    (decoded : decodeFields fields earlier buf pos = some (slots, stop)) :
    pos ≤ stop ∧ stop ≤ pos + ((fields.map Field.capacity).sum : Nat) := by
  induction fields generalizing earlier pos with
  | nil =>
    simp only [decodeFields, Option.some.injEq, Prod.mk.injEq] at decoded
    simp [decoded.2]
  | cons f rest ih =>
    obtain ⟨s, next, here, tail⟩ := decodeFields_cons_eq_some.mp decoded
    have first := Field.decode_stop (below f (by simp)) here
    have bound := f.reserve_le_capacity earlier
    have others := ih (fun g later => below g (by simp [later])) tail
    simp only [List.map_cons, List.sum_cons, Int.natCast_add]
    omega

theorem decodeFields_stop_of_not_dynamic
    (below : ∀ f ∈ fields, ∀ element, f.element? = some element → element.DecodesExtent)
    (constant : ∀ f ∈ fields, f.isDynamic = false)
    (decoded : decodeFields fields earlier buf pos = some (slots, stop)) :
    stop = pos + ((fields.map Field.extent).sum : Nat) := by
  induction fields generalizing earlier pos with
  | nil =>
    simp only [decodeFields, Option.some.injEq, Prod.mk.injEq] at decoded
    simp [decoded.2]
  | cons f rest ih =>
    obtain ⟨s, next, here, tail⟩ := decodeFields_cons_eq_some.mp decoded
    have first := Field.decode_stop (below f (by simp)) here
    rw [Field.reserve_of_not_dynamic (constant f (by simp))] at first
    have others := ih (fun g later => below g (by simp [later]))
      (fun g later => constant g (by simp [later])) tail
    simp only [List.map_cons, List.sum_cons, Int.natCast_add]
    omega

end Fields

private theorem Layout.Sound.decodesExtent {l : Layout} (sound : l.Sound) (static : l.size.isStatic = true) :
    l.DecodesExtent := by
  induction sound with
  | @mk name message size fields widths counters sized below elements ih =>
    intro buf pos slots stop decoded
    simp only [Layout.decode] at decoded
    rw [Layout.extent_eq_sum]
    exact decodeFields_stop_of_not_dynamic
      (fun f member element nested => ih f member element nested (below f member element nested))
      (sized static).2 decoded

theorem Field.Sound.decodesExtent {f : Field} (sound : f.Sound) (element : Layout)
    (nested : f.element? = some element) : element.DecodesExtent :=
  (sound.element element nested).decodesExtent (sound.static element nested)

end TradeWire
