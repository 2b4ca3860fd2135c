import TradeWire.Proofs.Wire.Decoding

/-! What was decoded encodes to the bytes it was decoded from, with zeros in place of padding. -/

set_option autoImplicit false
set_option relaxedAutoImplicit false

namespace TradeWire

/-- The bytes of the buffer from `pos` to `stop`. A stretch without bytes may stand anywhere. -/
structure Buffer.Spans (buf : Bytes) (pos stop : Int) (data : Bytes) : Prop where
  stop_eq : stop = pos + data.length
  data_eq : data = (buf.drop pos.toNat).take data.length
  inside : data = [] ∨ 0 ≤ pos ∧ stop ≤ buf.length

namespace Buffer.Spans

variable {buf : Bytes} {pos mid stop : Int} {data more : Bytes}

private theorem nil (buf : Bytes) (pos : Int) : Spans buf pos pos [] :=
  ⟨by simp, by simp, Or.inl rfl⟩

theorem of_slice? {count : Nat} (found : slice? buf pos count = some data) :
    Spans buf pos (pos + count) data ∧ data.length = count := by
  obtain ⟨start, _, within, rfl⟩ := slice?_eq_some.mp found
  have length : ((buf.drop pos.toNat).take (count : Int).toNat).length = count := by
    simp only [List.length_take, List.length_drop, Int.toNat_natCast]
    omega
  refine ⟨⟨by rw [length], ?_, Or.inr ⟨start, within⟩⟩, length⟩
  rw [length, Int.toNat_natCast]

private theorem append (first : Spans buf pos mid data) (second : Spans buf mid stop more) :
    Spans buf pos stop (data ++ more) := by
  have here := first.stop_eq
  have there := second.stop_eq
  rcases second.inside with none_left | ⟨_, bound⟩
  · subst none_left
    simp only [List.length_nil, Int.natCast_zero, Int.add_zero] at there
    subst there
    simpa using first
  · rcases first.inside with none_before | ⟨start, _⟩
    · subst none_before
      simp only [List.length_nil, Int.natCast_zero, Int.add_zero] at here
      subst here
      simpa using second
    · refine ⟨?_, ?_, Or.inr ⟨start, bound⟩⟩
      · rw [List.length_append, Int.natCast_add]
        omega
      · have position : mid.toNat = pos.toNat + data.length := by omega
        have rest := second.data_eq
        rw [position, ← List.drop_drop] at rest
        rw [List.length_append, List.take_add, ← first.data_eq, ← rest]

end Buffer.Spans

private theorem blanked_append {marks more : List Bool} {data rest : Bytes} (same : marks.length = data.length) :
    blanked (marks ++ more) (data ++ rest) = blanked marks data ++ blanked more rest := by
  simp only [blanked]
  exact List.zipWith_append same

private theorem blanked_unmarked (data : Bytes) : blanked (List.replicate data.length false) data = data := by
  induction data with
  | nil => rfl
  | cons b rest ih =>
    simp only [blanked] at ih
    simp [blanked, List.replicate_succ, ih]

private theorem blanked_marked (data : Bytes) :
    blanked (List.replicate data.length true) data = List.replicate data.length 0 := by
  induction data with
  | nil => rfl
  | cons b rest ih =>
    simp only [blanked] at ih
    simp [blanked, List.replicate_succ, ih]

/-- The content is the bytes from `pos` to `stop` with the marked ones blanked. -/
def Reproduces (buf : Bytes) (pos stop : Int) (marks : List Bool) (content : Except PackError Bytes) :
    Prop :=
  ∃ data, Buffer.Spans buf pos stop data ∧ marks.length = data.length ∧ content = .ok (blanked marks data)

private theorem Reproduces.nil (buf : Bytes) (pos : Int) : Reproduces buf pos pos [] (.ok []) :=
  ⟨[], .nil buf pos, rfl, rfl⟩

private theorem Reproduces.cons {buf : Bytes} {pos mid stop : Int} {marks more : List Bool}
    {content : Except PackError Bytes} {rest : List (Except PackError Bytes)}
    (first : Reproduces buf pos mid marks content)
    (second : Reproduces buf mid stop more (joined rest)) :
    Reproduces buf pos stop (marks ++ more) (joined (content :: rest)) := by
  obtain ⟨data, spans, same, rfl⟩ := first
  obtain ⟨others, onward, alike, tail⟩ := second
  refine ⟨data ++ others, spans.append onward, by simp [same, alike], ?_⟩
  simp only [joined, tail, Except.map, blanked_append same]

/-- A layout whose instances, once decoded, encode to the bytes they came from. -/
def Layout.Reproducible (l : Layout) : Prop :=
  ∀ buf pos slots stop, l.decode buf pos = some (slots, stop) →
    Reproduces buf pos stop (l.padding slots) (l.encode slots)

private theorem reproduces_decodeTimes {element : Layout} (each : element.Reproducible) {count : Nat}
    {buf : Bytes} {pos : Int} {items : List (List Slot)} {stop : Int}
    (decoded : decodeTimes element.decode count buf pos = some (items, stop)) :
    items.length = count ∧
      Reproduces buf pos stop (items.flatMap element.padding) (joined (items.map element.encode)) := by
  induction count generalizing pos items stop with
  | zero =>
    simp only [decodeTimes, Option.some.injEq, Prod.mk.injEq] at decoded
    rw [← decoded.1, ← decoded.2]
    exact ⟨rfl, .nil buf pos⟩
  | succ count ih =>
    simp only [decodeTimes] at decoded
    split at decoded
    · cases decoded
    · rename_i item next first
      obtain ⟨⟨others, behind⟩, tail, same⟩ := Option.map_eq_some_iff.mp decoded
      simp only [Prod.mk.injEq] at same
      obtain ⟨rfl, rfl⟩ := same
      obtain ⟨number, reproduced⟩ := ih tail
      refine ⟨by simp [number], ?_⟩
      simp only [List.flatMap_cons, List.map_cons]
      exact (each buf pos item next first).cons reproduced

/-- The fault of a group that holds fewer elements than it should. -/
def IsShortGroup (owner : String) (all : List Slot) (fields : List Field) (fault : PackError) : Prop :=
  ∃ name counter least most element, Field.nested name (.group counter least most) element ∈ fields ∧
    (rawAt all counter).toNat < least ∧
      fault = ⟨owner, name, .counterOutside (rawAt all counter) least most⟩

/-- A decoded member encodes to its bytes, unless it is a group with too few elements. -/
theorem Field.encode_decode {f : Field} (owner : String) {earlier all : List Slot} {buf : Bytes}
    {pos : Int} {s : Slot} {stop : Int} (sound : f.Sound)
    (below : ∀ element, f.element? = some element → element.Reproducible)
    (counted : ∀ counter, f.counter? = some counter → rawAt all counter = rawAt earlier counter)
    (decoded : f.decode earlier buf pos = some (s, stop)) :
    Reproduces buf pos stop (f.padding s) (f.encode owner all s) ∨
      ∃ fault, f.encode owner all s = .error fault ∧ IsShortGroup owner all [f] fault := by
  cases Field.decodes_of_some decoded with
  | @int name type size form data found =>
    left
    obtain ⟨spans, length⟩ := Buffer.Spans.of_slice? found
    obtain ⟨positive, narrow⟩ := sound.width _ _ _ _ rfl
    refine ⟨data, spans, by simp [Field.padding, length], ?_⟩
    have raw : (intSlot size form data).raw = Word.ofField size form.isSigned data := rfl
    simp only [Field.encode, Field.padding, raw, Word.fits_ofField positive narrow _ length, if_true,
      Word.littleEndian_ofField positive narrow _ length]
    rw [← length, blanked_unmarked]
  | @pad name type size data found =>
    left
    obtain ⟨spans, length⟩ := Buffer.Spans.of_slice? found
    refine ⟨data, spans, by simp [Field.padding, length], ?_⟩
    simp only [Field.encode, Field.padding]
    rw [← length, blanked_marked]
  | @bytes name type size initial data found =>
    left
    obtain ⟨spans, length⟩ := Buffer.Spans.of_slice? found
    refine ⟨data, spans, by simp [Field.padding, length], ?_⟩
    simp only [Field.encode, Field.padding, Slot.data, length, Nat.le_refl, if_true, Buffer.zeroFilled,
      Nat.sub_self, List.replicate_zero, List.append_nil]
    rw [← length, blanked_unmarked]
  | @varBytes name type size counter data bounded found =>
    left
    obtain ⟨spans, length⟩ := Buffer.Spans.of_slice? found
    refine ⟨data, spans, by simp [Field.padding, Slot.data], ?_⟩
    simp only [Field.encode, Field.padding, Slot.data, counted counter rfl, Nat.not_lt.mpr bounded,
      if_false, length, Nat.lt_irrefl, Buffer.zeroFilled, Nat.sub_self, List.replicate_zero,
      List.append_nil]
    rw [← length, blanked_unmarked]
  | once found =>
    left
    simp only [Field.padding, Field.encode]
    exact below _ rfl buf pos _ stop found
  | array found =>
    left
    obtain ⟨number, reproduced⟩ := reproduces_decodeTimes (below _ rfl) found
    simp only [Field.padding, Field.encode, number, bne_self_eq_false, Bool.false_eq_true, if_false]
    exact reproduced
  | @group name counter least most element items _ bounded found =>
    have known := counted counter rfl
    obtain ⟨number, reproduced⟩ := reproduces_decodeTimes (below element rfl) found
    by_cases few : (rawAt all counter).toNat < least
    · right
      refine ⟨⟨owner, name, .counterOutside (rawAt all counter) least most⟩, ?_,
        name, counter, least, most, element, by simp, few, rfl⟩
      simp only [Field.encode, few, decide_true, Bool.or_true, if_true]
    · left
      rw [known] at few
      simp only [Field.padding, Field.encode, known, Nat.not_lt.mpr bounded, few, number, decide_false,
        Bool.or_self, bne_self_eq_false, Bool.false_eq_true, if_false]
      exact reproduced

private theorem encodings_decodeFields (owner : String) {fields : List Field} {earlier all : List Slot}
    {buf : Bytes} {pos stop : Int} (sound : ∀ f ∈ fields, f.Sound)
    (below : ∀ f ∈ fields, ∀ element, f.element? = some element → element.Reproducible)
    (counters : ∀ k f counter, fields[k]? = some f → f.counter? = some counter →
      counter < earlier.length + k)
    (decoded : decodeFields fields earlier buf pos = some (all, stop)) :
    ∃ more, all = earlier ++ more ∧
      (Reproduces buf pos stop (paddingOf fields more) (joined (encodings owner all fields more)) ∨
        ∃ fault, joined (encodings owner all fields more) = .error fault ∧
          IsShortGroup owner all fields fault) := by
  induction fields generalizing earlier pos with
  | nil =>
    simp only [decodeFields, Option.some.injEq, Prod.mk.injEq] at decoded
    refine ⟨[], by simp [decoded.1], Or.inl ?_⟩
    rw [← decoded.2]
    exact .nil buf pos
  | cons f rest ih =>
    obtain ⟨s, next, here, tail⟩ := decodeFields_cons_eq_some.mp decoded
    obtain ⟨more, whole, outcome⟩ := ih (fun g later => sound g (by simp [later]))
      (fun g later => below g (by simp [later]))
      (by
        intro k g counter there governed
        have bound := counters (k + 1) g counter (by simpa using there) governed
        rw [List.length_append, List.length_singleton]
        omega) tail
    have counted : ∀ counter, f.counter? = some counter → rawAt all counter = rawAt earlier counter := by
      intro counter governed
      have bound := counters 0 f counter (by simp) governed
      rw [whole, List.append_assoc]
      simp only [rawAt, List.getElem?_append_left (show counter < earlier.length by omega)]
    refine ⟨s :: more, by simp [whole], ?_⟩
    simp only [paddingOf, encodings]
    rcases Field.encode_decode owner (sound f (by simp)) (below f (by simp)) counted here with
      first | ⟨fault, failed, name, counter, least, most, element, group, few, same⟩
    · rcases outcome with others | ⟨fault, failed, name, counter, least, most, element, group, few, same⟩
      · exact Or.inl (first.cons others)
      · refine Or.inr ⟨fault, ?_, name, counter, least, most, element, by simp [group], few, same⟩
        obtain ⟨data, _, _, encoded⟩ := first
        rw [encoded, joined, failed]
        rfl
    · refine Or.inr ⟨fault, by rw [failed, joined], name, counter, least, most, element, ?_, few, same⟩
      simp only [List.mem_singleton] at group
      simp [group]

private theorem encode_decode_of_below {l : Layout} (sound : l.Sound)
    (below : ∀ f ∈ l.fields, ∀ element, f.element? = some element → element.Reproducible)
    {buf : Bytes} {pos : Int} {slots : List Slot} {stop : Int}
    (decoded : l.decode buf pos = some (slots, stop)) :
    Reproduces buf pos stop (l.padding slots) (l.encode slots) ∨
      ∃ fault, l.encode slots = .error fault ∧ IsShortGroup l.name slots l.fields fault := by
  have precede := sound.countersPrecede
  have field := fun f (member : f ∈ l.fields) => sound.field member
  obtain ⟨name, message, size, fields⟩ := l
  simp only [Layout.decode] at decoded
  obtain ⟨more, whole, outcome⟩ := encodings_decodeFields name field below
    (by
      intro k f counter here governed
      simpa using (precede k f counter here governed).1) decoded
  rw [List.nil_append] at whole
  subst whole
  exact outcome

private theorem Layout.Sound.reproducible {l : Layout} (sound : l.Sound) (static : l.size.isStatic = true) :
    l.Reproducible := by
  induction sound with
  | @mk name message size fields widths counters sized below elements ih =>
    intro buf pos slots stop decoded
    have whole : (Layout.mk name message size fields).Sound := .mk widths counters sized below elements
    rcases encode_decode_of_below whole
      (fun f member element nested => ih f member element nested (below f member element nested))
      decoded with again | ⟨fault, _, _, counter, least, most, element, group, _, _⟩
    · exact again
    · have fixed := (sized static).2 _ group
      simp [Field.isDynamic] at fixed

/-- A decoded instance encodes to the bytes it came from, with padding blanked, or one of its groups
holds fewer elements than it should. -/
theorem Layout.Sound.encode_decode {l : Layout} (sound : l.Sound) {buf : Bytes} {pos : Int}
    {slots : List Slot} {stop : Int} (decoded : l.decode buf pos = some (slots, stop)) :
    Reproduces buf pos stop (l.padding slots) (l.encode slots) ∨
      ∃ fault, l.encode slots = .error fault ∧ IsShortGroup l.name slots l.fields fault := by
  refine encode_decode_of_below sound ?_ decoded
  intro f member element nested
  have field := sound.field member
  exact (field.element element nested).reproducible (field.static element nested)

end TradeWire
