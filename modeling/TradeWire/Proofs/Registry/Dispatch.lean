import Mathlib.Order.Bounds.Defs
import TradeWire.Proofs.Record.Reachable
import TradeWire.Proofs.Registry.Headers

/-! An id leads to the message that declares it, and a message read is the one its header tells. -/

set_option autoImplicit false
set_option relaxedAutoImplicit false

namespace TradeWire

open Schema

def Model.Declares (m : Model) (s : Structure) : Prop := s ∈ m.structures ∧ s.isMessage = true

def Model.templateIds (m : Model) : Set Nat := {id | ∃ s, m.Declares s ∧ s.templateId = id}

/-- The pattern in the slot of a field whose bytes read as a number. -/
def Word.inField (size : Nat) (signed : Bool) (n : Int) : UInt64 :=
  if signed then signExtend (ofInt n) size else ofInt n

private theorem Word.ofField_eq_inField (size : Nat) (signed : Bool) (data : List UInt8) :
    Word.ofField size signed data =
      Word.inField size signed (Word.toSigned (UInt64.ofNat (Word.ofLittleEndian data))) := by
  rw [Word.inField, Word.ofInt_toSigned, Word.ofField]

/-- The header of the record holds the template id of its layout. -/
def Record.IsNumbered (r : Record) : Prop :=
  r.headerRaw? (·.templateId) = some (UInt64.ofNat r.layout.templateId)

/-- The header of the record announces its encoded size. -/
def Record.IsMeasured (r : Record) : Prop := r.headerRaw? (·.bodyLen) = some (Word.ofInt r.encodedSize)

instance (r : Record) : Decidable r.IsNumbered := inferInstanceAs (Decidable (_ = _))

instance (r : Record) : Decidable r.IsMeasured := inferInstanceAs (Decidable (_ = _))

/-- The registry that a document gives rise to, if it is accepted. -/
def registryOf? (document : Bytes) : Option Registry :=
  match Model.parse document with
  | .error _ => none
  | .ok m =>
    match Table.compile m with
    | .error _ => none
    | .ok t => (Registry.ofTable t).toOption

theorem exists_of_any_registryOf? {document : Bytes} {p : Registry → Bool}
    (run : (registryOf? document).any p = true) :
    ∃ m t g, Model.parse document = .ok m ∧ Table.compile m = .ok t ∧ Registry.ofTable t = .ok g ∧
      p g = true := by
  obtain ⟨g, found, checked⟩ := (Option.any_eq_true p _).mp run
  unfold registryOf? at found
  split at found
  · cases found
  · rename_i m parsed
    split at found
    · cases found
    · rename_i t compiled
      exact ⟨m, t, g, parsed, compiled, toOption_eq_some.mp found, checked⟩

theorem registryOf?_eq {document : Bytes} {m : Model} (parsed : Model.parse document = .ok m) :
    registryOf? document = (Table.compile m).toOption.bind fun t => (Registry.ofTable t).toOption := by
  simp only [registryOf?, parsed]
  cases Table.compile m with
  | error | ok => rfl

/-- A schema with two messages: a ping that carries a text, and a pong. -/
def pingDocument : Bytes := List.flatMap Text.encodeUtf8
  ["<Model><DataTypes><DataType name='Len' rootType='int' size='4' minValue='0'/>",
    "<DataType name='Id' rootType='int' size='2'/><DataType name='N' rootType='int' size='1'/>",
    "<DataType name='T' rootType='String' size='4' variableSize='true' counter='N'/></DataTypes>",
    "<Structures><Structure name='MessageHeaderComp' type='Component'>",
    "<Member name='BodyLen' type='Len' cardinality='1'/>",
    "<Member name='TemplateID' type='Id' cardinality='1'/></Structure>",
    "<Structure name='Ping' type='Message' numericID='7'>",
    "<Member name='Header' type='MessageHeaderComp' cardinality='1'/>",
    "<Member name='N' type='N' cardinality='1'/><Member name='T' type='T' cardinality='1'/></Structure>",
    "<Structure name='Pong' type='Message' numericID='9'>",
    "<Member name='Header' type='MessageHeaderComp' cardinality='1'/></Structure>",
    "</Structures></Model>"]

def pingModel : Model where
  name := ""
  version := ""
  subVersion := ""
  build := ""
  types := [⟨"Len", "", .int, 4, "0", "", "", 0, false, "", []⟩, ⟨"Id", "", .int, 2, "", "", "", 0, false, "", []⟩,
    ⟨"N", "", .int, 1, "", "", "", 0, false, "", []⟩, ⟨"T", "", .string, 4, "", "", "", 0, true, "N", []⟩]
  structures := [
    ⟨"MessageHeaderComp", "Component", 0, [⟨"BodyLen", "Len", 1, none, ""⟩, ⟨"TemplateID", "Id", 1, none, ""⟩]⟩,
    ⟨"Ping", "Message", 7,
      [⟨"Header", "MessageHeaderComp", 1, none, ""⟩, ⟨"N", "N", 1, none, ""⟩, ⟨"T", "T", 1, none, "N"⟩]⟩,
    ⟨"Pong", "Message", 9, [⟨"Header", "MessageHeaderComp", 1, none, ""⟩]⟩]
  templates := [⟨7, "Ping"⟩, ⟨9, "Pong"⟩]
  usages := []
  flows := []

theorem parse_pingDocument : Model.parse pingDocument = .ok pingModel := by
  refine Model.parse_of_isAlike ?_
  rw [pingDocument, Text.encodeUtf8_eq]
  decide +kernel

def pingBytes : Bytes := [8, 0, 0, 0, 7, 0, 1, 65]

def pongBytes : Bytes := [6, 0, 0, 0, 9, 0]

theorem exists_ping : ∃ m t g, ∃ r s : Record, Model.parse pingDocument = .ok m ∧
    Table.compile m = .ok t ∧ Registry.ofTable t = .ok g ∧ g.least = 7 ∧ g.most = 9 ∧
      g.bodyLenAt = ⟨0, 4⟩ ∧ g.templateIdAt = ⟨4, 2⟩ ∧
        g.unpack pingBytes 0 = .ok (r, 8) ∧ r.IsNumbered ∧ r.IsMeasured ∧ r.pack = .ok pingBytes ∧
          g.unpack pongBytes 0 = .ok (s, 6) ∧ s.IsNumbered ∧ s.IsMeasured ∧ s.pack = .ok pongBytes := by
  have run : ((registryOf? pingDocument).any fun g => g.least == 7 && g.most == 9 &&
      g.bodyLenAt == ⟨0, 4⟩ && g.templateIdAt == ⟨4, 2⟩ &&
      ((g.unpack pingBytes 0).toOption.any fun (r, stop) =>
        stop == 8 && decide r.IsNumbered && decide r.IsMeasured && r.pack.toOption == some pingBytes) &&
      (g.unpack pongBytes 0).toOption.any fun (s, stop) =>
        stop == 6 && decide s.IsNumbered && decide s.IsMeasured && s.pack.toOption == some pongBytes) =
          true := by
    rw [registryOf?_eq parse_pingDocument]
    decide +kernel
  obtain ⟨m, t, g, parsed, compiled, registered, checked⟩ := exists_of_any_registryOf? run
  simp only [Bool.and_eq_true, beq_iff_eq, decide_eq_true_eq, Option.any_eq_true,
    toOption_eq_some] at checked
  obtain ⟨⟨⟨⟨⟨least, most⟩, bodyLen⟩, templateId⟩, ⟨r, _⟩, ping, ⟨⟨rfl, numbered⟩, measured⟩, packed⟩,
    ⟨s, _⟩, pong, ⟨⟨rfl, alsoNumbered⟩, alsoMeasured⟩, alsoPacked⟩ := checked
  exact ⟨m, t, g, r, s, parsed, compiled, registered, least, most, bodyLen, templateId, ping, numbered,
    measured, packed, pong, alsoNumbered, alsoMeasured, alsoPacked⟩

namespace Registry

variable {m : Model} {t : Table} {g : Registry} {l : Layout}

theorem unpack_eq_ok {buf : Bytes} {off : Int} {answer : Record × Int} :
    g.unpack buf off = .ok answer ↔ ∃ id l, g.templateId buf off = .ok id ∧ g.lookup id = .ok l ∧
      Record.unpack l buf off = .ok answer := by
  unfold Registry.unpack
  cases read : g.templateId buf off with
  | error fault => simp
  | ok id =>
    cases found : g.lookup id with
    | error fault => simp [found]
    | ok l =>
      cases unpacked : Record.unpack l buf off with
      | error fault => simp [found, unpacked]
      | ok out => simp [found, unpacked]

private theorem slots_eq_find? (g : Registry) (i : Int) :
    g.slots i = g.messages.reverse.find? fun l => (l.templateId : Int) - g.least == i := by
  have fill : ∀ (ls : List Layout) (slots : Int → Option Layout),
      ls.foldl (fun slots l (j : Int) => if j = l.templateId - g.least then some l else slots j) slots i =
        (ls.reverse.find? fun l => (l.templateId : Int) - g.least == i).or (slots i) := by
    intro ls
    induction ls with
    | nil => exact fun slots => rfl
    | cons l later ih =>
      intro slots
      rw [List.foldl_cons, ih, List.reverse_cons, List.find?_append, Option.or_assoc, List.find?_singleton]
      by_cases here : i = l.templateId - g.least
      · simp [here]
      · simp [here, Ne.symm here]
  rw [slots, fill, Option.or_none]

/-- Looking into the slot of an id is searching the messages for it. -/
theorem slots_eq_search (ascending : g.messages.Pairwise fun a b => a.templateId < b.templateId) (id : Int) :
    g.slots (id - g.least) = g.messages.find? fun l => (l.templateId : Int) == id := by
  have same : ∀ l : Layout, ((l.templateId : Int) - g.least == id - g.least) = ((l.templateId : Int) == id) := by
    intro l
    rw [Bool.eq_iff_iff, beq_iff_eq, beq_iff_eq]
    omega
  have distinct : (g.messages.map Layout.templateId).Nodup :=
    List.pairwise_map.mpr (ascending.imp fun smaller => Nat.ne_of_lt smaller)
  rw [slots_eq_find?, funext same]
  -- no two messages have one id, so that the last one put into a slot is the only one
  refine find?_reverse_of_unique ?_
  intro a first b second here there
  apply List.inj_on_of_nodup_map distinct first second
  simp only [beq_iff_eq] at here there
  omega

theorem lookup_eq_ok {id : Int} (found : g.lookup id = .ok l) :
    l ∈ g.messages ∧ (l.templateId : Int) = id := by
  unfold Registry.lookup at found
  split at found
  · cases found
  · split at found
    · rename_i k here
      cases found
      rw [slots_eq_find?] at here
      have number := List.find?_some here
      rw [beq_iff_eq] at number
      exact ⟨List.mem_reverse.mp (List.mem_of_find?_eq_some here), by omega⟩
    · cases found

theorem reachable_of_unpack {buf : Bytes} {off stop : Int} {r : Record}
    (dispatched : g.unpack buf off = .ok (r, stop)) :
    r.layout ∈ g.messages ∧ Record.Reachable r.layout r := by
  obtain ⟨_, l, _, found, unpacked⟩ := unpack_eq_ok.mp dispatched
  have reached := Record.Reachable.unpack unpacked
  obtain ⟨rfl, _⟩ := reached.hasShape
  exact ⟨(lookup_eq_ok found).1, reached⟩

namespace IsSound

/-- The least id and the greatest one belong to messages, and all others lie between. -/
theorem bounds (sound : g.IsSound m t) :
    (∃ l ∈ g.messages, l.templateId = g.least) ∧ (∃ l ∈ g.messages, l.templateId = g.most) ∧
      ∀ l ∈ g.messages, g.least ≤ l.templateId ∧ l.templateId ≤ g.most := by
  have ascending := sound.ascending
  obtain ⟨first, rest, listed⟩ := List.exists_cons_of_ne_nil sound.nonempty
  have front : g.messages.head? = some first := by simp [listed]
  have back : g.messages.getLast? = some (g.messages.getLast sound.nonempty) :=
    List.getLast?_eq_some_getLast sound.nonempty
  have least : g.least = first.templateId := by simp [Registry.least, front]
  have most : g.most = (g.messages.getLast sound.nonempty).templateId := by simp [Registry.most, back]
  refine ⟨⟨first, by simp [listed], least.symm⟩,
    ⟨g.messages.getLast sound.nonempty, List.getLast_mem sound.nonempty, most.symm⟩, ?_⟩
  intro l member
  constructor
  · rw [least]
    rw [listed] at member ascending
    rcases List.mem_cons.mp member with rfl | later
    · exact Nat.le_refl _
    · exact Nat.le_of_lt ((List.pairwise_cons.mp ascending).1 l later)
  · rw [most]
    rw [← List.dropLast_concat_getLast sound.nonempty] at member ascending
    rcases List.mem_append.mp member with before | last
    · exact Nat.le_of_lt ((List.pairwise_append.mp ascending).2.2 l before _ (by simp))
    · rw [List.mem_singleton.mp last]

private theorem lookup_of_mem (sound : g.IsSound m t) (member : l ∈ g.messages) :
    g.lookup l.templateId = .ok l := by
  obtain ⟨_, _, between⟩ := sound.bounds
  obtain ⟨above, below⟩ := between l member
  have inside : ¬((l.templateId : Int) < g.least ∨ (g.most : Int) < l.templateId) := by omega
  have distinct : (g.messages.map Layout.templateId).Nodup :=
    List.pairwise_map.mpr (sound.ascending.imp fun smaller => Nat.ne_of_lt smaller)
  unfold Registry.lookup
  rw [if_neg inside, slots_eq_search sound.ascending]
  split
  · rename_i k found
    have same : k.templateId = l.templateId := by
      have number := List.find?_some found
      simpa using number
    rw [List.inj_on_of_nodup_map distinct (List.mem_of_find?_eq_some found) member same]
  · rename_i absent
    have clash := List.find?_eq_none.mp absent l member
    simp at clash

end IsSound

/-- What the header of a packed message announces is read back, and stands inside the message. -/
theorem Serves.read_packed (serves : g.Serves l) {slots : List Slot} (shape : l.Admits slots)
    {which : HeaderLink → Nat} {place : Stretch} {form : IntForm} (at_ : l.HeaderAt which place form)
    {n : Nat} (high : (n : Int) ≤ Word.maxSigned)
    (announced : (Record.mk l slots).headerRaw? which = some (UInt64.ofNat n)) {b before after : Bytes}
    (encoded : l.encode slots = .ok b) (inMemory : Buffer.IsAddressable (before ++ b ++ after))
    (field : String) :
    place.read field (before ++ b ++ after) before.length = .ok n := by
  have bound := inMemory
  unfold Buffer.IsAddressable at bound
  simp only [List.length_append] at bound
  have least : Word.minSigned ≤ 0 := by decide
  obtain ⟨positive, narrow⟩ := at_.width serves.sound
  have unpacked := serves.sound.unpack_encode shape encoded inMemory
  obtain ⟨data, found, raw⟩ := at_.raw_of_unpack serves.sound (by omega) (by omega) unpacked
  obtain ⟨_, _, within, rfl⟩ := Buffer.slice?_eq_some.mp found
  rw [at_.headerRaw?_filled shape, announced, Option.some.injEq] at raw
  have value := Word.ofLittleEndian_of_ofField positive narrow
    (by
      rw [List.length_take, List.length_drop]
      omega) high raw.symm
  rw [Stretch.read_of_slice? inMemory found, value, Word.toSigned_ofNat high]

namespace IsSound

theorem unpack_packed (sound : g.IsSound m t) {r : Record} (member : r.layout ∈ g.messages)
    (shape : r.HasShape) (numbered : r.IsNumbered) {b before after : Bytes}
    (encoded : r.layout.encode r.slots = .ok b)
    (inMemory : Buffer.IsAddressable (before ++ b ++ after)) :
    g.unpack (before ++ b ++ after) before.length =
      .ok (⟨r.layout, r.layout.filledSlots r.slots⟩, ((before ++ b).length : Int)) := by
  have serves := sound.serves r.layout member
  obtain ⟨_, at_⟩ := serves.templateId
  have id : g.templateId (before ++ b ++ after) before.length = .ok r.layout.templateId :=
    serves.read_packed shape at_ serves.bounds.2 numbered encoded inMemory _
  exact unpack_eq_ok.mpr ⟨_, _, id, sound.lookup_of_mem member,
    serves.sound.unpack_encode shape encoded inMemory⟩

private theorem header_of_unpack (sound : g.IsSound m t) {buf : Bytes} {off stop : Int} {r : Record}
    (inMemory : Buffer.IsAddressable buf) (low : Word.minSigned ≤ off) (high : off ≤ Word.maxSigned)
    (member : r.layout ∈ g.messages) (unpacked : Record.unpack r.layout buf off = .ok (r, stop))
    {which : HeaderLink → Nat} {place : Stretch} {form : IntForm}
    (at_ : r.layout.HeaderAt which place form) (field : String) :
    ∃ n, place.read field buf off = .ok n ∧
      r.headerRaw? which = some (Word.inField place.width form.isSigned n) := by
  obtain ⟨data, found, raw⟩ := at_.raw_of_unpack (sound.serves _ member).sound low high unpacked
  exact ⟨_, Stretch.read_of_slice? inMemory found, by rw [raw, Word.ofField_eq_inField]⟩

theorem lookup_eq_ok_iff (sound : g.IsSound m t) {id : Int} :
    g.lookup id = .ok l ↔
      ∃ s, m.Declares s ∧ (s.templateId : Int) = id ∧ t.layout? s.name = some l := by
  constructor
  · intro found
    obtain ⟨member, same⟩ := lookup_eq_ok found
    obtain ⟨s, declared, message, named⟩ := (sound.listed l).mp member
    obtain ⟨k, again, number⟩ := sound.numbered s declared message
    obtain rfl : k = l := Option.some.inj (again.symm.trans named)
    exact ⟨s, ⟨declared, message⟩, by rw [← number, same], named⟩
  · rintro ⟨s, ⟨declared, message⟩, rfl, named⟩
    obtain ⟨k, again, number⟩ := sound.numbered s declared message
    obtain rfl : k = l := Option.some.inj (again.symm.trans named)
    rw [← number]
    exact sound.lookup_of_mem ((sound.listed k).mpr ⟨s, declared, message, named⟩)

private theorem mem_templateIds (sound : g.IsSound m t) {id : Nat} :
    id ∈ m.templateIds ↔ ∃ l ∈ g.messages, l.templateId = id := by
  constructor
  · rintro ⟨s, ⟨declared, message⟩, rfl⟩
    obtain ⟨l, named, number⟩ := sound.numbered s declared message
    exact ⟨l, (sound.listed l).mpr ⟨s, declared, message, named⟩, number⟩
  · rintro ⟨l, member, rfl⟩
    obtain ⟨s, declared, message, named⟩ := (sound.listed l).mp member
    obtain ⟨k, again, number⟩ := sound.numbered s declared message
    obtain rfl : k = l := Option.some.inj (again.symm.trans named)
    exact ⟨s, ⟨declared, message⟩, number.symm⟩

private theorem isLeast (sound : g.IsSound m t) : IsLeast m.templateIds g.least := by
  obtain ⟨least, _, between⟩ := sound.bounds
  refine ⟨sound.mem_templateIds.mpr least, ?_⟩
  intro id known
  obtain ⟨l, member, rfl⟩ := sound.mem_templateIds.mp known
  exact (between l member).1

private theorem isGreatest (sound : g.IsSound m t) : IsGreatest m.templateIds g.most := by
  obtain ⟨_, most, between⟩ := sound.bounds
  refine ⟨sound.mem_templateIds.mpr most, ?_⟩
  intro id known
  obtain ⟨l, member, rfl⟩ := sound.mem_templateIds.mp known
  exact (between l member).2

end IsSound

private theorem lookup_outOfRange_iff {id : Int} :
    g.lookup id = .error (.outOfRange id g.least g.most) ↔ id < g.least ∨ (g.most : Int) < id := by
  unfold Registry.lookup
  split
  · simp_all
  · rename_i inside
    split <;> simp [inside]

/-- An id is unknown when it lies in a gap between those of the messages. -/
theorem IsSound.lookup_unknown_iff (sound : g.IsSound m t) {id : Int} :
    g.lookup id = .error (.unknown id) ↔
      g.least ≤ id ∧ id ≤ g.most ∧ ∀ n ∈ m.templateIds, (n : Int) ≠ id := by
  unfold Registry.lookup
  rw [slots_eq_search sound.ascending]
  split
  · rename_i outside
    simp only [Except.error.injEq, reduceCtorEq, false_iff]
    omega
  · rename_i inside
    split
    · rename_i l found
      simp only [reduceCtorEq, false_iff, not_and, not_forall, not_not]
      intro _ _
      exact ⟨l.templateId, sound.mem_templateIds.mpr ⟨l, List.mem_of_find?_eq_some found, rfl⟩,
        by simpa using List.find?_some found⟩
    · rename_i absent
      simp only [true_iff]
      refine ⟨by omega, by omega, ?_⟩
      intro n known same
      obtain ⟨l, member, rfl⟩ := sound.mem_templateIds.mp known
      have clash := List.find?_eq_none.mp absent l member
      simp [same] at clash

/-- Dispatch by template id is exact. An id leads to the message that declares it and every message is
found by its id; other ids are out of range or, between those of messages, unknown. What is read from a
buffer is the message whose id the bytes have in the place of the header, with the header that the
registry reads there, widened where the field is signed. And what a message with its own id packs to is
read as that message, to the last byte. -/
theorem dispatch_exact {document : Bytes} (parsed : Model.parse document = .ok m)
    (compiled : Table.compile m = .ok t) (registered : Registry.ofTable t = .ok g) :
    (∀ (id : Int) (l : Layout), g.lookup id = .ok l ↔
      ∃ s, m.Declares s ∧ (s.templateId : Int) = id ∧ t.layout? s.name = some l) ∧
    (∀ s, m.Declares s → ∃ l, t.layout? s.name = some l ∧ g.lookup s.templateId = .ok l) ∧
    IsLeast m.templateIds g.least ∧ IsGreatest m.templateIds g.most ∧
    (∀ id : Int, g.lookup id = .error (.outOfRange id g.least g.most) ↔
      id < g.least ∨ (g.most : Int) < id) ∧
    (∀ id : Int, g.lookup id = .error (.unknown id) ↔
      g.least ≤ id ∧ id ≤ g.most ∧ ∀ n ∈ m.templateIds, (n : Int) ≠ id) ∧
    (∀ (buf : Bytes) (off stop : Int) (r : Record), Buffer.IsAddressable buf →
      Word.minSigned ≤ off → off ≤ Word.maxSigned → g.unpack buf off = .ok (r, stop) →
        (∃ data s, Buffer.slice? buf (Word.add off g.templateIdAt.offset) g.templateIdAt.width =
            some data ∧ m.Declares s ∧ s.templateId = Word.ofLittleEndian data ∧
              t.layout? s.name = some r.layout) ∧
        (∃ form id, r.layout.HeaderAt (·.templateId) g.templateIdAt form ∧
          g.templateId buf off = .ok id ∧
            r.headerRaw? (·.templateId) = some (Word.inField g.templateIdAt.width form.isSigned id)) ∧
        (∃ form length, r.layout.HeaderAt (·.bodyLen) g.bodyLenAt form ∧
          g.bodyLen buf off = .ok length ∧
            r.headerRaw? (·.bodyLen) = some (Word.inField g.bodyLenAt.width form.isSigned length))) ∧
    (∀ (r : Record) (b : Bytes), r.layout ∈ g.messages → Record.Reachable r.layout r →
      r.IsNumbered → r.pack = .ok b →
        g.unpack b 0 = .ok (⟨r.layout, r.layout.filledSlots r.slots⟩, b.length)) := by
  have sound := Registry.isSound_of_ofTable parsed compiled registered
  refine ⟨fun id l => sound.lookup_eq_ok_iff, ?_, sound.isLeast, sound.isGreatest,
    fun id => lookup_outOfRange_iff, fun id => sound.lookup_unknown_iff, ?_, ?_⟩
  · intro s declared
    obtain ⟨l, named, _⟩ := sound.numbered s declared.1 declared.2
    exact ⟨l, named, sound.lookup_eq_ok_iff.mpr ⟨s, declared, rfl, named⟩⟩
  · intro buf off stop r inMemory low high dispatched
    obtain ⟨id, l, read, found, unpacked⟩ := unpack_eq_ok.mp dispatched
    obtain ⟨rfl, _⟩ := (Record.Reachable.unpack unpacked).hasShape
    obtain ⟨member, _⟩ := lookup_eq_ok found
    have serves := sound.serves r.layout member
    refine ⟨?_, ?_, ?_⟩
    · obtain ⟨s, declared, rfl, named⟩ := sound.lookup_eq_ok_iff.mp found
      obtain ⟨_, at_⟩ := serves.templateId
      obtain ⟨data, stretch, value⟩ := Stretch.ofLittleEndian_of_read (at_.width serves.sound).2 read
      exact ⟨data, s, stretch, declared, value.symm, named⟩
    · obtain ⟨form, at_⟩ := serves.templateId
      obtain ⟨n, here, raw⟩ := sound.header_of_unpack inMemory low high member unpacked at_
        Layout.templateIdName
      exact ⟨form, n, at_, here, raw⟩
    · obtain ⟨form, at_⟩ := serves.bodyLen
      obtain ⟨n, here, raw⟩ := sound.header_of_unpack inMemory low high member unpacked at_
        Layout.bodyLenName
      exact ⟨form, n, at_, here, raw⟩
  · intro r b member reached numbered packed
    have serves := sound.serves r.layout member
    obtain ⟨_, shape⟩ := reached.hasShape
    obtain ⟨encoded, size⟩ := r.encode_of_pack serves.sound serves.anchored shape packed
    have inMemory : Buffer.IsAddressable ([] ++ b ++ []) := by
      simpa using r.isAddressable_of_pack serves.sound serves.anchored shape packed
    simpa using sound.unpack_packed member shape numbered encoded inMemory

theorem ping_dispatch_exact : ∃ m t g, ∃ r s : Record, Model.parse pingDocument = .ok m ∧
    Table.compile m = .ok t ∧ Registry.ofTable t = .ok g ∧ g.unpack pingBytes 0 = .ok (r, 8) ∧
      g.unpack pongBytes 0 = .ok (s, 6) ∧ g.lookup 7 = .ok r.layout ∧ g.lookup 9 = .ok s.layout ∧
        g.lookup 6 = .error (.outOfRange 6 7 9) ∧ r.IsNumbered ∧ r.pack = .ok pingBytes ∧
          g.unpack pingBytes 0 = .ok (⟨r.layout, r.layout.filledSlots r.slots⟩, 8) := by
  obtain ⟨m, t, g, r, s, parsed, compiled, registered, least, most, _, place, ping, numbered, _, packed,
    pong, _⟩ := exists_ping
  obtain ⟨found, _, _, _, outside, _, header, recovered⟩ :=
    Registry.dispatch_exact parsed compiled registered
  -- the id in the header leads to the layout of the record
  have leads : ∀ {bytes : Bytes} {q : Record} {stop : Int} (id : Nat), Buffer.IsAddressable bytes →
      g.unpack bytes 0 = .ok (q, stop) →
        (Buffer.slice? bytes (Word.add 0 4) (2 : Nat)).map Word.ofLittleEndian = some id →
          g.lookup id = .ok q.layout := by
    intro bytes q stop id inMemory unpacked there
    obtain ⟨⟨data, declared, stretch, isMessage, number, named⟩, _⟩ :=
      header bytes 0 stop q inMemory (by decide) (by decide) unpacked
    rw [place] at stretch
    rw [stretch, Option.map_some, Option.some.injEq] at there
    exact (found id q.layout).mpr ⟨declared, isMessage, by rw [number, there], named⟩
  have seven := leads 7 (by decide) ping (by decide)
  have nine := leads 9 (by decide) pong (by decide)
  obtain ⟨member, reached⟩ := reachable_of_unpack ping
  have low := (outside 6).mpr (.inl (by rw [least]; decide))
  rw [least, most] at low
  exact ⟨m, t, g, r, s, parsed, compiled, registered, ping, pong, seven, nine, low, numbered, packed,
    recovered r pingBytes member reached numbered packed⟩

end Registry

end TradeWire
