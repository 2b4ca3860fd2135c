import TradeWire.Proofs.Record.PathEnds

/-! A stamp is put on one number behind the message header, and nowhere else. -/

set_option autoImplicit false
set_option relaxedAutoImplicit false

namespace TradeWire

theorem Word.fits_signExtend {size : Nat} (positive : 0 < size) (width : size ≤ 8) {raw : UInt64}
    (narrow : Word.isNarrow raw size = true) : Word.fits (Word.signExtend raw size) size true = true := by
  by_cases wide : 8 ≤ size
  · simp [Word.fits, wide]
  · have small : raw.toNat < 256 ^ size := by
      rw [show (256 : Nat) = 2 ^ 8 from rfl, ← Nat.pow_mul]
      simpa [Word.isNarrow, wide, Nat.one_shiftLeft] using narrow
    have written := Word.fits_ofField positive width true (Word.length_littleEndian size raw.toNat)
    rwa [Word.ofField, Word.ofLittleEndian_littleEndian, Nat.mod_eq_of_lt small, UInt64.ofNat_toNat,
      if_pos rfl] at written

/-- The pattern in which an integer field takes a number. An unsigned field takes it as it is; a signed one
takes what has the bits of its width, widened, and what is widened already. -/
def IntForm.pattern? (form : IntForm) (size : Nat) (n : UInt64) : Option UInt64 :=
  if !form.isSigned then some n
  else if Word.isNarrow n size then some (Word.signExtend n size)
  else if Word.fits n size true then some n
  else none

/-- An integer in the structure behind the header of a message: its position there, its width and form. -/
def Layout.sessionField? (l : Layout) (name : String) : Option (Nat × Nat × IntForm) :=
  match l.fields[1]? with
  | some (Field.nested _ .once element) =>
    (element.lookup? name).bind fun j =>
      match element.fields[j]? with
      | some (Field.primitive _ _ size (.int form)) => some (j, size, form)
      | _ => none
  | _ => none

/-- The unsigned sequence number that a message carries, taken from where it stands and not by a path. -/
def Record.carriedNumber? (r : Record) : Option UInt64 :=
  (r.layout.sessionField? Record.sequenceName).bind fun (j, _, form) =>
    if form.isSigned then none else some (nestedRaw r.slots 1 j)

/-- What a session relies on in a message it sends. -/
structure Layout.IsSendable (l : Layout) : Prop where
  sound : l.Sound
  plain : ∀ f ∈ l.fields, Record.IsPlain f.name
  lookup : ∀ name i, l.lookup? name = some i ↔
    ∃ f, l.fields[i]? = some f ∧ f.isPad = false ∧ f.name = name
  header : ∃ info, l.message = some info ∧ l.NumberAt info.header.field info.header.bodyLen "BodyLen" ∧
    l.NumberAt info.header.field info.header.templateId "TemplateID"

/-- A message whose header has its length and its template id where the message says. -/
def Layout.IsHeaded (l : Layout) : Prop :=
  ∃ info, l.message = some info ∧ l.NumberAt info.header.field info.header.bodyLen "BodyLen" ∧
    l.NumberAt info.header.field info.header.templateId "TemplateID"

/-- What a stamp relies on: the structure behind the header is found by its name. -/
structure Layout.IsStampable (l : Layout) : Prop where
  sound : l.Sound
  lookup : ∀ name i, l.lookup? name = some i ↔
    ∃ f, l.fields[i]? = some f ∧ f.isPad = false ∧ f.name = name
  plain : ∀ f, l.fields[1]? = some f → Record.IsPlain f.name

theorem Layout.IsSendable.stampable {l : Layout} (good : l.IsSendable) : l.IsStampable :=
  ⟨good.sound, good.lookup, fun f second => good.plain f (List.mem_of_getElem? second)⟩

section Compiled

variable {m : Model} {t : Table} {l : Layout}

theorem Table.isHeaded_of_compile (accepted : m.IsAccepted) (compiled : Table.compile m = .ok t)
    (listed : l ∈ t.layouts) (message : l.isMessage = true) : l.IsHeaded := by
  have sound := Table.sound_of_compile accepted compiled l listed
  obtain ⟨info, carried⟩ := Option.isSome_iff_exists.mp message
  obtain ⟨name, header, nested, _, bodyLen, templateId⟩ :=
    (Table.isWellFormed_of_compile accepted compiled listed).header info carried
  exact ⟨info, carried, sound.numberAt nested bodyLen, sound.numberAt nested templateId⟩

theorem Table.isStampable_of_compile (accepted : m.IsAccepted) (compiled : Table.compile m = .ok t)
    (listed : l ∈ t.layouts) (plain : ∀ f, l.fields[1]? = some f → Record.IsPlain f.name) :
    l.IsStampable :=
  ⟨Table.sound_of_compile accepted compiled l listed,
    (Table.isWellFormed_of_compile accepted compiled listed).lookup, plain⟩

end Compiled

theorem Layout.Sound.sessionNumber {l : Layout} (sound : l.Sound) {name : String} {j size : Nat}
    {form : IntForm} (held : l.sessionField? name = some (j, size, form)) : l.NumberAt 1 j name := by
  unfold Layout.sessionField? at held
  split at held
  · rename_i outer element nested
    obtain ⟨i, found, integer⟩ := Option.bind_eq_some_iff.mp held
    split at integer
    · rename_i field type width shape here
      cases integer
      obtain ⟨f, there, _, named⟩ := Layout.lookup?_eq_some found
      obtain rfl := Option.some.inj (here.symm.trans there)
      obtain rfl : field = name := named
      exact sound.numberAt nested ⟨type, size, form, here⟩
    · cases integer
  · cases held

namespace Record

theorem setUint_of_locateInt {r : Record} {path : String} {place : Location} {size : Nat} {form : IntForm}
    {s : Slot} (positive : 0 < size) (width : size ≤ 8)
    (located : r.locateInt path = .ok (place, size, form, s)) (n : UInt64) :
    r.setUint path n =
      match form.pattern? size n with
      | some raw => .ok (r.modify place fun _ => .int raw "")
      | none => .error (.rawOutOfRange path n) := by
  rw [setUint_eq]
  unfold IntForm.pattern?
  simp only [located]
  cases signed : form.isSigned with
  | false => simp
  | true =>
    cases narrow : Word.isNarrow n size with
    | false =>
      cases fit : Word.fits n size true with
      | false => simp [fit]
      | true => simp [fit]
    | true =>
      -- a field of eight bytes has nothing to widen, and the setter does not try
      by_cases short : size < 8
      · simp [short, Word.fits_signExtend positive width narrow]
      · have wide : size = 8 := by omega
        subst wide
        simp [Word.fits, Word.signExtend]

private theorem isPlain_sequenceName : IsPlain sequenceName := by decide

private theorem isPlain_sendingTimeName : IsPlain sendingTimeName := by decide

section Stamp

variable {r : Record} {header : String} {element : Layout}

private theorem nested_of_sessionHeader? (behind : r.sessionHeader? = some (header, element)) :
    r.layout.fields[1]? = some (.nested header .once element) := by
  unfold sessionHeader? at behind
  split at behind
  · rename_i fields
    cases behind
    rw [fields]
    rfl
  · cases behind

private theorem sessionField?_of_none (none_behind : r.sessionHeader? = none) (name : String) :
    r.layout.sessionField? name = none := by
  unfold sessionHeader? at none_behind
  unfold Layout.sessionField?
  split at none_behind
  · cases none_behind
  · rename_i other
    split
    · rename_i outer element nested
      cases fields : r.layout.fields with
      | nil => simp [fields] at nested
      | cons first rest =>
        cases rest with
        | nil => simp [fields] at nested
        | cons second more =>
          have same : second = .nested outer .once element := by simpa [fields] using nested
          exact absurd (by rw [fields, same]) (other first outer element more)
    · rfl

private theorem locateInt_sessionPath (good : r.layout.IsStampable) (shape : r.HasShape) {name : String}
    (plainField : IsPlain name) (behind : r.sessionHeader? = some (header, element)) :
    match r.layout.sessionField? name with
    | some (j, size, form) => 0 < size ∧ size ≤ 8 ∧ ∃ inner s, r.slots[1]? = some (.struct inner) ∧
        inner[j]? = some s ∧
          r.locateInt (sessionPath header name) = .ok (⟨[⟨1, none⟩], j⟩, size, form, s)
    | none => ∃ fault, r.locateInt (sessionPath header name) = .error fault := by
  have nested := nested_of_sessionHeader? behind
  have plain : IsPlain header := good.plain _ nested
  have found : r.layout.lookup? header = some 1 := (good.lookup header 1).mpr ⟨_, nested, rfl, rfl⟩
  obtain ⟨s, held, kind⟩ := forall₂_getElem? (Layout.admits_iff.mp shape) nested
  cases s with
  | pad | int | bytes | elems => simp [Field.Admits] at kind
  | struct inner =>
    simp only [Field.Admits] at kind
    cases named : element.lookup? name with
    | none =>
      simp only [Layout.sessionField?, nested, named, Option.bind_none]
      simp [locateInt, locate, resolve_sessionPath plain plainField found nested held, named]
    | some j =>
      obtain ⟨f, here, _, _⟩ := Layout.lookup?_eq_some named
      obtain ⟨t, there, _⟩ := forall₂_getElem? (Layout.admits_iff.mp kind) here
      have located := locate_sessionPath plain plainField found nested held named here there
      simp only [Layout.sessionField?, nested, named, Option.bind_some, here]
      have inside := good.sound.field (List.mem_of_getElem? nested)
      have field := (inside.element element rfl).field (List.mem_of_getElem? here)
      cases f with
      | nested => simp [locateInt, located]
      | primitive own type size form =>
        cases form with
        | pad | bytes | varBytes => simp [locateInt, located]
        | int form =>
          obtain ⟨positive, width⟩ := field.width _ _ _ _ rfl
          exact ⟨positive, width, inner, t, held, there, by simp [locateInt, located]⟩

private theorem setUint_sessionPath (good : r.layout.IsStampable) (shape : r.HasShape) {name : String}
    (plainField : IsPlain name) (behind : r.sessionHeader? = some (header, element)) (n : UInt64) :
    match r.setUint (sessionPath header name) n with
    | .ok next => ∃ j size form raw, r.layout.sessionField? name = some (j, size, form) ∧
        form.pattern? size n = some raw ∧ nestedRaw next.slots 1 j = raw ∧ KeepsNumbers [name] r next
    | .error _ => ∀ j size form, r.layout.sessionField? name = some (j, size, form) →
        form.pattern? size n = none := by
  have place := locateInt_sessionPath good shape plainField behind
  cases field : r.layout.sessionField? name with
  | none =>
    rw [field] at place
    obtain ⟨fault, failed⟩ := place
    simp [setUint_eq, failed]
  | some at_ =>
    obtain ⟨j, size, form⟩ := at_
    rw [field] at place
    obtain ⟨positive, width, inner, t, held, there, located⟩ := place
    have set := setUint_of_locateInt positive width located n
    cases taken : form.pattern? size n with
    | none =>
      simp only [taken] at set
      rw [set]
      intro i other shape same
      cases same
      exact taken
    | some raw =>
      simp only [taken] at set
      rw [set]
      exact ⟨j, size, form, raw, rfl, taken, nestedRaw_modifySlots held there _,
        (setsInteger_of_setUint set).keepsNumbers (.setUint set) shape plainField
          (getLast?_sessionPath header plainField)⟩

/-- The sequence number of a message is what it has in the field for it. -/
theorem sequence?_eq (good : r.layout.IsStampable) (shape : r.HasShape) :
    r.sequence? = (r.layout.sessionField? sequenceName).map fun at_ => nestedRaw r.slots 1 at_.1 := by
  unfold sequence?
  cases behind : r.sessionHeader? with
  | none => simp [sessionField?_of_none behind]
  | some found =>
    obtain ⟨header, element⟩ := found
    have place := locateInt_sessionPath good shape isPlain_sequenceName behind
    cases field : r.layout.sessionField? sequenceName with
    | none =>
      rw [field] at place
      obtain ⟨fault, failed⟩ := place
      simp [uint, failed, Except.map]
    | some at_ =>
      obtain ⟨j, size, form⟩ := at_
      rw [field] at place
      obtain ⟨_, _, inner, s, held, there, located⟩ := place
      simp [uint, located, Except.map, nestedRaw, held, rawAt, there]

/-- A sequence number is put where there is a field that takes it, and nothing else is touched. -/
theorem stampSequence?_spec (good : r.layout.IsStampable) (shape : r.HasShape) (n : UInt64) :
    match r.stampSequence? n with
    | some next => ∃ j size form raw, r.layout.sessionField? sequenceName = some (j, size, form) ∧
        form.pattern? size n = some raw ∧ nestedRaw next.slots 1 j = raw ∧
          KeepsNumbers [sequenceName] r next
    | none => ∀ j size form, r.layout.sessionField? sequenceName = some (j, size, form) →
        form.pattern? size n = none := by
  unfold stampSequence?
  cases behind : r.sessionHeader? with
  | none =>
    intro j size form held
    rw [sessionField?_of_none behind] at held
    cases held
  | some found =>
    obtain ⟨header, element⟩ := found
    cases named : element.lookup? sequenceName with
    | none =>
      simp only [named, Option.isNone_none, if_true]
      intro j size form held
      simp [Layout.sessionField?, nested_of_sessionHeader? behind, named] at held
    | some j =>
      have set := setUint_sessionPath good shape isPlain_sequenceName behind n
      simp only [named, Option.isNone_some, Bool.false_eq_true, if_false]
      cases stamped : r.setUint (sessionPath header sequenceName) n with
      | error fault =>
        rw [stamped] at set
        exact set
      | ok next =>
        rw [stamped] at set
        exact set

theorem keepsNumbers_stampSequence? (shape : r.HasShape) {n : UInt64} {next : Record}
    (stamped : r.stampSequence? n = some next) : KeepsNumbers [sequenceName] r next := by
  unfold stampSequence? at stamped
  split at stamped
  · cases stamped
  · rename_i header element _
    split at stamped
    · cases stamped
    · split at stamped
      · rename_i next set
        cases stamped
        exact (setsInteger_of_setUint set).keepsNumbers (.setUint set) shape isPlain_sequenceName
          (getLast?_sessionPath header isPlain_sequenceName)
      · cases stamped

theorem keepsNumbers_stampTime (shape : r.HasShape) (time : UInt64) :
    KeepsNumbers [sendingTimeName] r (r.stampTime time) := by
  unfold stampTime
  split
  · exact .refl _ r
  · rename_i header element _
    split
    · exact .refl _ r
    · split
      · rename_i next set
        exact (setsInteger_of_setUint set).keepsNumbers (.setUint set) shape isPlain_sendingTimeName
          (getLast?_sessionPath header isPlain_sendingTimeName)
      · exact .refl _ r

end Stamp

end Record

end TradeWire
