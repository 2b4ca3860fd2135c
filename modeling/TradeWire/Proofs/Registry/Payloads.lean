import TradeWire.Proofs.Registry.Dispatch
import TradeWire.Registry.Walk

/-! A walk delivers the messages that stand one behind the other, and ends on every payload. -/

set_option autoImplicit false
set_option relaxedAutoImplicit false

namespace TradeWire

open Schema

theorem Word.ofInt_natCast (n : Nat) : Word.ofInt n = UInt64.ofNat n := by
  have whole : ((n : Int) % 0x10000000000000000).toNat = n % 2 ^ 64 := by omega
  rw [Word.ofInt, whole]
  exact UInt64.ofNat_mod_size

private theorem Stretch.read_append {field : String} {place : Stretch} {buf : Bytes} {off value : Int}
    (more : Bytes) (read : place.read field buf off = .ok value) :
    place.read field (buf ++ more) off = .ok value := by
  unfold Stretch.read at read ⊢
  simp only at read ⊢
  split at read
  · cases read
  · rename_i present
    rw [if_neg (Buffer.isShort_append more present)]
    obtain ⟨data, found, same⟩ := map_eq_ok.mp read
    exact map_eq_ok.mpr ⟨data, readAt_append more found, same⟩

private theorem Stretch.stop_of_slice? {place : Stretch} {buf data : Bytes} (inMemory : Buffer.IsAddressable buf)
    (found : Buffer.slice? buf (Word.add 0 place.offset) place.width = some data) :
    place.width ≤ place.stop ∧ place.stop ≤ buf.length := by
  obtain ⟨start, _, within, _⟩ := Buffer.slice?_eq_some.mp found
  have least : Word.minSigned ≤ 0 := by decide
  unfold Buffer.IsAddressable at inMemory
  have stop : place.stop = Word.add 0 place.offset + place.width := by
    have sum : place.stop = Word.wrap (Word.add 0 place.offset + place.width) := by
      simp [Stretch.stop, Word.add]
    rw [sum]
    exact Word.wrap_eq_self (by omega) (by omega)
  omega

namespace Registry

variable {m : Model} {t : Table} {g : Registry} {buf : Bytes} {off : Int}

private theorem unpack_append {answer : Record × Int} (more : Bytes) (read : g.unpack buf off = .ok answer) :
    g.unpack (buf ++ more) off = .ok answer := by
  obtain ⟨id, l, number, found, unpacked⟩ := unpack_eq_ok.mp read
  exact unpack_eq_ok.mpr ⟨id, l, Stretch.read_append more number, found,
    Record.unpack_append more unpacked⟩

private theorem deliver_eq_ok {d : Delivery} :
    g.deliver buf off = .ok d ↔ d.offset = off ∧ g.bodyLen buf off = .ok d.length ∧
      g.headerStop ≤ d.length ∧ off + d.length ≤ buf.length ∧
        g.unpack (buf.take (off + d.length).toNat) off = .ok (d.record, off + d.length) := by
  unfold deliver
  constructor
  · intro delivered
    simp only at delivered
    split at delivered
    · cases delivered
    · split at delivered
      · cases delivered
      · rename_i length announced
        split at delivered
        · cases delivered
        · split at delivered
          · cases delivered
          · rename_i long complete
            split at delivered
            · cases delivered
            · rename_i record stop read
              split at delivered
              · cases delivered
              · rename_i agree
                cases delivered
                have same : stop = off + length := by simpa using agree
                subst same
                refine ⟨rfl, announced, ?_, ?_, read⟩
                · exact Int.not_lt.mp long
                · simp only
                  omega
  · rintro ⟨rfl, announced, room, within, read⟩
    have present : ¬(buf.length : Int) - d.offset < g.headerStop := by omega
    have long : ¬d.length < g.headerStop := by omega
    have complete : ¬(buf.length : Int) - d.offset < d.length := by omega
    simp [present, announced, long, complete, read]

/-- Why nothing is delivered from a position on: each reason where those before it do not apply. -/
inductive Refuses (g : Registry) (buf : Bytes) (off : Int) : WalkError → Prop
  | shortTail (few : buf.length - off < g.headerStop) : Refuses g buf off (.shortTail (buf.length - off) off)
  | header {fault : DecodeError} (left : g.headerStop ≤ buf.length - off)
      (unread : g.bodyLen buf off = .error fault) : Refuses g buf off (.header fault)
  | lengthTooShort {length : Int} (left : g.headerStop ≤ buf.length - off)
      (announced : g.bodyLen buf off = .ok length) (low : length < g.headerStop) :
      Refuses g buf off (.lengthTooShort length off)
  | incomplete {length : Int} (left : g.headerStop ≤ buf.length - off)
      (announced : g.bodyLen buf off = .ok length) (room : g.headerStop ≤ length)
      (few : buf.length - off < length) : Refuses g buf off (.incomplete (buf.length - off) off length)
  | message {length : Int} {fault : DispatchError} (announced : g.bodyLen buf off = .ok length)
      (room : g.headerStop ≤ length) (within : length ≤ buf.length - off)
      (unread : g.unpack (buf.take (off + length).toNat) off = .error fault) :
      Refuses g buf off (.message off fault)
  | lengthDisagrees {length stop : Int} {r : Record} (announced : g.bodyLen buf off = .ok length)
      (room : g.headerStop ≤ length) (within : length ≤ buf.length - off)
      (read : g.unpack (buf.take (off + length).toNat) off = .ok (r, stop)) (apart : stop ≠ off + length) :
      Refuses g buf off (.lengthDisagrees r.name off length (stop - off))

/-- Whatever keeps a message from being delivered is reported. -/
theorem deliver_eq_error {fault : WalkError} : g.deliver buf off = .error fault ↔ g.Refuses buf off fault := by
  constructor
  · intro failed
    unfold deliver at failed
    simp only at failed
    split at failed
    · rename_i few
      cases failed
      exact .shortTail few
    rename_i left
    rw [Int.not_lt] at left
    split at failed
    · rename_i unread
      cases failed
      exact .header left unread
    rename_i length announced
    split at failed
    · rename_i low
      cases failed
      exact .lengthTooShort left announced low
    rename_i room
    rw [Int.not_lt] at room
    split at failed
    · rename_i few
      cases failed
      exact .incomplete left announced room few
    rename_i within
    rw [Int.not_lt] at within
    split at failed
    · rename_i unread
      cases failed
      exact .message announced room within unread
    · rename_i read
      split at failed
      · rename_i apart
        cases failed
        exact .lengthDisagrees announced room within read (by simpa using apart)
      · cases failed
  · intro refuses
    unfold deliver
    cases refuses with
    | shortTail few => exact if_pos few
    | header left unread => simp [left.not_gt, unread]
    | lengthTooShort left announced low => simp [left.not_gt, announced, low]
    | incomplete left announced room few => simp [left.not_gt, announced, room.not_gt, few]
    | message announced room within unread =>
      simp [(room.trans within).not_gt, announced, room.not_gt, within.not_gt, unread]
    | lengthDisagrees announced room within read apart =>
      simp [(room.trans within).not_gt, announced, room.not_gt, within.not_gt, read, apart]

/-- The messages that stand in a buffer one behind the other, from a position to another: each has the
length that its header announces, which is the length it is read to have. -/
inductive Covers (g : Registry) (buf : Bytes) : Int → List Delivery → Int → Prop
  | nil (off : Int) : Covers g buf off [] off
  | cons {d : Delivery} {later : List Delivery} {stop : Int}
      (announced : g.bodyLen buf d.offset = .ok d.length) (room : g.headerStop ≤ d.length)
      (read : g.unpack buf d.offset = .ok (d.record, d.offset + d.length))
      (behind : Covers g buf (d.offset + d.length) later stop) : Covers g buf d.offset (d :: later) stop

/-- A walk from a position on, to whatever end. -/
inductive Walks (g : Registry) (buf : Bytes) : Int → List Delivery → Option WalkError → Prop
  | done {off : Int} (read : (buf.length : Int) ≤ off) : Walks g buf off [] none
  | stuck {off : Int} {fault : WalkError} (left : off < buf.length)
      (failed : g.deliver buf off = .error fault) : Walks g buf off [] (some fault)
  | step {off : Int} {d : Delivery} {later : List Delivery} {fault : Option WalkError}
      (left : off < buf.length) (delivered : g.deliver buf off = .ok d)
      (onward : Walks g buf (off + d.length) later fault) : Walks g buf off (d :: later) fault

private theorem Walks.unique {ds others : List Delivery} {fault other : Option WalkError}
    (walk : g.Walks buf off ds fault) (again : g.Walks buf off others other) :
    ds = others ∧ fault = other := by
  induction walk generalizing others other with
  | done read =>
    cases again with
    | done => exact ⟨rfl, rfl⟩
    | stuck left | step left => omega
  | stuck left failed =>
    cases again with
    | done => omega
    | stuck _ also =>
      rw [failed] at also
      cases also
      exact ⟨rfl, rfl⟩
    | step _ delivered =>
      rw [failed] at delivered
      cases delivered
  | step left delivered onward ih =>
    cases again with
    | done => omega
    | stuck _ failed =>
      rw [delivered] at failed
      cases failed
    | step _ also further =>
      rw [delivered] at also
      cases also
      obtain ⟨rfl, rfl⟩ := ih further
      exact ⟨rfl, rfl⟩

/-- What a walk delivers stands there, it ends without a fault only at the end of the buffer, and its fault is
why nothing more is delivered. -/
theorem Walks.covers {ds : List Delivery} {fault : Option WalkError} (walk : g.Walks buf off ds fault)
    (within : off ≤ buf.length) :
    ∃ stop, g.Covers buf off ds stop ∧ stop ≤ buf.length ∧ (fault = none ↔ stop = buf.length) ∧
      ∀ reason ∈ fault, g.Refuses buf stop reason := by
  induction walk with
  | @done off read => exact ⟨off, .nil off, within, by simp; omega, by simp⟩
  | @stuck off fault left failed =>
    refine ⟨off, .nil off, within, by simp; omega, ?_⟩
    rintro _ ⟨⟩
    exact deliver_eq_error.mp failed
  | @step off d later fault left delivered onward ih =>
    obtain ⟨rfl, announced, room, inside, read⟩ := deliver_eq_ok.mp delivered
    obtain ⟨stop, behind, bound, whole⟩ := ih inside
    -- the message was read from the buffer up to its end
    have there := unpack_append (buf.drop (d.offset + d.length).toNat) read
    rw [List.take_append_drop] at there
    exact ⟨stop, .cons announced room there behind, bound, whole⟩

private theorem headerStop_pos (positive : 0 < g.bodyLenAt.width) (inMemory : Buffer.IsAddressable buf)
    {length : Int} (read : g.bodyLen buf 0 = .ok length) : 0 < g.headerStop := by
  obtain ⟨data, found, _⟩ := Stretch.slice?_of_read read
  have stop := (Stretch.stop_of_slice? inMemory found).1
  unfold headerStop
  omega

/-- A walk goes on to its end. Every step goes forward by a header at least: the first one because the
header was read at its place, and so all others. -/
private theorem walks_walkFrom (positive : 0 < g.bodyLenAt.width) (inMemory : Buffer.IsAddressable buf)
    (fuel : Nat) (begun : off = 0 ∨ 0 < g.headerStop) (enough : (buf.length : Int) ≤ off + fuel) :
    g.Walks buf off (g.walkFrom buf fuel off).1 (g.walkFrom buf fuel off).2 := by
  induction fuel generalizing off with
  | zero =>
    exact .done (by omega)
  | succ fuel ih =>
    unfold walkFrom
    split
    · rename_i read
      exact .done read
    · rename_i left
      split
      · rename_i fault failed
        exact .stuck (by omega) failed
      · rename_i d delivered
        obtain ⟨rfl, announced, room, _⟩ := deliver_eq_ok.mp delivered
        have forward : 0 < g.headerStop := by
          rcases begun with start | forward
          · exact headerStop_pos positive inMemory (start ▸ announced)
          · exact forward
        exact .step (by omega) delivered (ih (.inr forward) (by omega))

private theorem Walks.walk_eq {ds : List Delivery} {fault : Option WalkError} (walk : g.Walks buf 0 ds fault)
    (positive : 0 < g.bodyLenAt.width) (inMemory : Buffer.IsAddressable buf) {fuel : Nat}
    (enough : buf.length ≤ fuel) : g.walkFrom buf fuel 0 = (ds, fault) := by
  have run := walks_walkFrom positive inMemory fuel (.inl rfl) (by omega)
  obtain ⟨first, second⟩ := run.unique walk
  exact Prod.ext first second

private theorem IsSound.width (sound : g.IsSound m t) : 0 < g.bodyLenAt.width := by
  obtain ⟨l, rest, listed⟩ := List.exists_cons_of_ne_nil sound.nonempty
  have serves := sound.serves l (by simp [listed])
  obtain ⟨_, at_⟩ := serves.bodyLen
  exact (at_.width serves.sound).1

private theorem Serves.stop_le_packed {l : Layout} (serves : g.Serves l) {slots : List Slot}
    (shape : l.Admits slots) {which : HeaderLink → Nat} {place : Stretch} {form : IntForm}
    (at_ : l.HeaderAt which place form) {b : Bytes} (encoded : l.encode slots = .ok b)
    (inMemory : Buffer.IsAddressable b) : place.width ≤ place.stop ∧ place.stop ≤ b.length := by
  have unpacked := serves.sound.unpack_encode_alone shape encoded inMemory
  obtain ⟨data, found, _⟩ := at_.raw_of_unpack serves.sound (by decide) (by decide) unpacked
  exact Stretch.stop_of_slice? inMemory found

/-- A record of a message of the registry whose header holds its template id and announces its length. -/
structure IsReady (g : Registry) (r : Record) : Prop where
  member : r.layout ∈ g.messages
  reached : Record.Reachable r.layout r
  numbered : r.IsNumbered
  measured : r.IsMeasured

theorem IsReady.packs {r : Record} (ready : g.IsReady r) (sound : g.IsSound m t) {b : Bytes}
    (packed : r.pack = .ok b) :
    r.HasShape ∧ r.layout.encode r.slots = .ok b ∧ r.encodedSize = b.length ∧ Buffer.IsAddressable b := by
  have serves := sound.serves r.layout ready.member
  obtain ⟨_, shape⟩ := ready.reached.hasShape
  obtain ⟨encoded, size⟩ := r.encode_of_pack serves.sound serves.anchored shape packed
  exact ⟨shape, encoded, size, r.isAddressable_of_pack serves.sound serves.anchored shape packed⟩

/-- A packed message is read back to its last byte, and announces its length. -/
theorem IsReady.reads {r : Record} (ready : g.IsReady r) (sound : g.IsSound m t) {b : Bytes}
    (packed : r.pack = .ok b) :
    g.unpack b 0 = .ok (⟨r.layout, r.layout.filledSlots r.slots⟩, b.length) ∧
      g.bodyLen b 0 = .ok b.length ∧ r.headerRaw? (·.bodyLen) = some (UInt64.ofNat b.length) := by
  obtain ⟨shape, encoded, size, inMemory⟩ := ready.packs sound packed
  have whole : [] ++ b ++ [] = b := List.append_nil b
  have announced : r.headerRaw? (·.bodyLen) = some (UInt64.ofNat b.length) := by
    rw [← Word.ofInt_natCast, ← size]
    exact ready.measured
  have serves := sound.serves r.layout ready.member
  obtain ⟨_, at_⟩ := serves.bodyLen
  have read := sound.unpack_packed ready.member shape ready.numbered encoded (whole.symm ▸ inMemory)
  have length := serves.read_packed shape at_ inMemory announced encoded (whole.symm ▸ inMemory)
    Layout.bodyLenName
  rw [whole] at read length
  exact ⟨read, length, announced⟩

private theorem IsSound.deliver_packed (sound : g.IsSound m t) {r : Record} (ready : g.IsReady r) {b : Bytes}
    (packed : r.pack = .ok b) (before after : Bytes)
    (inMemory : Buffer.IsAddressable (before ++ b ++ after)) :
    0 < b.length ∧ g.deliver (before ++ b ++ after) before.length =
      .ok ⟨before.length, b.length, ⟨r.layout, r.layout.filledSlots r.slots⟩⟩ := by
  have serves := sound.serves r.layout ready.member
  obtain ⟨shape, encoded, size, alone⟩ := ready.packs sound packed
  obtain ⟨_, lengthAt⟩ := serves.bodyLen
  obtain ⟨_, idAt⟩ := serves.templateId
  obtain ⟨_, lengthStop⟩ := serves.stop_le_packed shape lengthAt encoded alone
  obtain ⟨wide, idStop⟩ := serves.stop_le_packed shape idAt encoded alone
  obtain ⟨positive, _⟩ := idAt.width serves.sound
  have announced : (Record.mk r.layout r.slots).headerRaw? (·.bodyLen) = some (UInt64.ofNat b.length) := by
    rw [← Word.ofInt_natCast, ← size]
    exact ready.measured
  have length : g.bodyLen (before ++ b ++ after) before.length = .ok b.length :=
    serves.read_packed shape lengthAt alone announced encoded inMemory _
  have front : (before ++ b ++ after).take ((before.length : Int) + b.length).toNat = before ++ b ++ [] := by
    rw [List.append_nil]
    exact List.take_left' (by rw [List.length_append]; omega)
  have inFront : Buffer.IsAddressable (before ++ b ++ []) := by
    unfold Buffer.IsAddressable at inMemory ⊢
    simp only [List.length_append, List.length_nil] at inMemory ⊢
    omega
  refine ⟨by omega, deliver_eq_ok.mpr ⟨rfl, length, ?_, ?_, ?_⟩⟩
  · unfold headerStop
    simp only
    omega
  · simp only [List.length_append]
    omega
  · rw [front, sound.unpack_packed ready.member shape ready.numbered encoded inFront, List.length_append,
      Int.natCast_add]

/-- What a walk delivers of records that were packed one behind the other. -/
def deliveries : Int → List Record → List Delivery
  | _, [] => []
  | off, r :: later =>
    ⟨off, r.encodedSize, ⟨r.layout, r.layout.filledSlots r.slots⟩⟩ :: deliveries (off + r.encodedSize) later

private theorem IsSound.walks_packed (sound : g.IsSound m t) {records : List Record} {packings : List Bytes}
    (packed : List.Forall₂ (fun r b => g.IsReady r ∧ r.pack = .ok b) records packings)
    {fault : Option WalkError} (before after : Bytes)
    (inMemory : Buffer.IsAddressable (before ++ packings.flatten ++ after))
    (onward : g.Walks (before ++ packings.flatten ++ after) ((before ++ packings.flatten).length : Nat) []
      fault) :
    g.Walks (before ++ packings.flatten ++ after) before.length (deliveries before.length records) fault := by
  induction packed generalizing before with
  | nil => simpa [deliveries] using onward
  | @cons r b records packings here rest ih =>
    obtain ⟨ready, whole⟩ := here
    obtain ⟨_, _, size, _⟩ := ready.packs sound whole
    have ahead : before ++ (b :: packings).flatten = before ++ b ++ packings.flatten := by simp
    rw [ahead] at onward inMemory ⊢
    obtain ⟨filled, delivered⟩ := sound.deliver_packed ready whole before (packings.flatten ++ after)
      (by simpa using inMemory)
    have later := ih _ inMemory onward
    rw [List.length_append, Int.natCast_add, ← size] at later
    rw [← List.append_assoc, ← size] at delivered
    refine .step ?_ delivered later
    simp only [List.length_append]
    omega

private theorem getElem?_deliveries {records : List Record} {packings : List Bytes}
    (sizes : List.Forall₂ (fun r b => r.encodedSize = b.length) records packings) (off : Int) {i : Nat}
    {r : Record} {b : Bytes} (here : records[i]? = some r) (there : packings[i]? = some b) :
    (deliveries off records)[i]? = some ⟨off + ((packings.take i).flatten.length : Nat), b.length,
      ⟨r.layout, r.layout.filledSlots r.slots⟩⟩ := by
  induction sizes generalizing off i with
  | nil => cases here
  | @cons q c records packings size rest ih =>
    cases i with
    | zero =>
      obtain rfl : q = r := by simpa using here
      obtain rfl : c = b := by simpa using there
      simp [deliveries, size]
    | succ i =>
      have later := ih (off + c.length) (by simpa using here) (by simpa using there)
      simp only [deliveries, size, List.getElem?_cons_succ, later, List.take_succ_cons, List.flatten_cons,
        List.length_append, Int.natCast_add, Int.add_assoc]

private theorem length_deliveries (off : Int) (records : List Record) :
    (deliveries off records).length = records.length := by
  induction records generalizing off with
  | nil => rfl
  | cons r later ih => simp [deliveries, ih]

section Compiled

variable {document : Bytes}

/-- A walk is sound and ends, on whatever bytes. It needs no more steps than there are bytes; the messages
it delivers stand one behind the other from the start of the payload on, each as long as the registry reads
in its header and no shorter than the header, and each as it is read from the whole payload; and there is no
fault exactly when they cover the payload. A fault is the reason why nothing is delivered behind them. -/
theorem walk_covers (parsed : Model.parse document = .ok m) (compiled : Table.compile m = .ok t)
    (registered : Registry.ofTable t = .ok g) (inMemory : Buffer.IsAddressable buf) :
    g.Walks buf 0 (g.walk buf).1 (g.walk buf).2 ∧
    (∀ fuel, buf.length ≤ fuel → g.walkFrom buf fuel 0 = g.walk buf) ∧
    ∃ stop, g.Covers buf 0 (g.walk buf).1 stop ∧ stop ≤ buf.length ∧
      ((g.walk buf).2 = none ↔ stop = buf.length) ∧ ∀ fault ∈ (g.walk buf).2, g.Refuses buf stop fault := by
  have sound := Registry.isSound_of_ofTable parsed compiled registered
  have walk : g.Walks buf 0 (g.walk buf).1 (g.walk buf).2 :=
    walks_walkFrom sound.width inMemory buf.length (.inl rfl) (by omega)
  refine ⟨walk, ?_, walk.covers (by omega)⟩
  intro fuel enough
  exact walk.walk_eq sound.width inMemory enough

theorem ping_walk_covers : ∃ m t g, ∃ first second : Delivery, Model.parse pingDocument = .ok m ∧
    Table.compile m = .ok t ∧ Registry.ofTable t = .ok g ∧ Buffer.IsAddressable (pingBytes ++ pongBytes) ∧
      g.walk (pingBytes ++ pongBytes) = ([first, second], none) ∧ first.offset = 0 ∧ first.length = 8 ∧
        second.offset = 8 ∧ second.length = 6 ∧
          g.Covers (pingBytes ++ pongBytes) 0 [first, second] 14 := by
  have run : ((registryOf? pingDocument).any fun g =>
      (g.walk (pingBytes ++ pongBytes)).1.map (fun d => (d.offset, d.length)) == [(0, 8), (8, 6)] &&
        (g.walk (pingBytes ++ pongBytes)).2 == none) = true := by
    rw [registryOf?_eq parse_pingDocument]
    decide +kernel
  obtain ⟨m, t, g, parsed, compiled, registered, checked⟩ := exists_of_any_registryOf? run
  simp only [Bool.and_eq_true, beq_iff_eq] at checked
  obtain ⟨places, faultless⟩ := checked
  have inMemory : Buffer.IsAddressable (pingBytes ++ pongBytes) := by decide
  obtain ⟨_, _, stop, covers, _, whole, _⟩ := walk_covers parsed compiled registered inMemory
  obtain rfl : stop = 14 := whole.mp faultless
  obtain ⟨first, later, delivered, firstly, rest⟩ := List.map_eq_cons_iff.mp places
  obtain ⟨second, _, rfl, secondly, none⟩ := List.map_eq_cons_iff.mp rest
  obtain rfl := List.map_eq_nil_iff.mp none
  rw [Prod.mk.injEq] at firstly secondly
  rw [delivered] at covers
  exact ⟨m, t, g, first, second, parsed, compiled, registered, inMemory, Prod.ext delivered faultless, firstly.1,
    firstly.2, secondly.1, secondly.2, covers⟩

/-- A walk recovers what was packed. Of records of the registry whose headers hold their template ids and
announce their lengths, packed one behind the other, it delivers one message each: where the packings
before it end, as long as its own packing, and as it is read from that alone. With a few more bytes behind,
too few for a header, it delivers the same and reports the rest. -/
theorem walk_packed (parsed : Model.parse document = .ok m) (compiled : Table.compile m = .ok t)
    (registered : Registry.ofTable t = .ok g) {records : List Record} {packings : List Bytes}
    (packed : List.Forall₂ (fun r b => g.IsReady r ∧ r.pack = .ok b) records packings)
    (inMemory : Buffer.IsAddressable packings.flatten) :
    ∃ ds, g.walk packings.flatten = (ds, none) ∧
      (∀ tail : Bytes, tail ≠ [] → tail.length < g.headerStop →
        Buffer.IsAddressable (packings.flatten ++ tail) →
          g.walk (packings.flatten ++ tail) =
            (ds, some (.shortTail tail.length packings.flatten.length))) ∧
      ds.length = records.length ∧
      ∀ (i : Nat) (r : Record) (b : Bytes), records[i]? = some r → packings[i]? = some b →
        ∃ d, ds[i]? = some d ∧ d.offset = (packings.take i).flatten.length ∧ d.length = b.length ∧
          d.record.layout.templateId = r.layout.templateId ∧
            Record.unpack r.layout b 0 = .ok (d.record, b.length) := by
  have sound := Registry.isSound_of_ofTable parsed compiled registered
  refine ⟨deliveries 0 records, ?_, ?_, length_deliveries 0 records, ?_⟩
  · have walk := sound.walks_packed packed [] [] (by simpa using inMemory) (.done (by simp))
    rw [List.append_nil] at walk
    exact walk.walk_eq sound.width inMemory (Nat.le_refl _)
  · intro tail some_left few reach
    have left : 0 < tail.length := List.length_pos_iff.mpr some_left
    have length : ((packings.flatten ++ tail).length : Int) - packings.flatten.length = tail.length := by
      rw [List.length_append]
      omega
    have stuck : g.Walks (packings.flatten ++ tail) packings.flatten.length []
        (some (.shortTail tail.length packings.flatten.length)) := by
      refine .stuck (by omega) ?_
      rw [deliver, length]
      exact if_pos few
    have walk := sound.walks_packed packed [] tail reach stuck
    exact walk.walk_eq sound.width reach (Nat.le_refl _)
  · intro i r b here there
    obtain ⟨_, same, ready, whole⟩ := forall₂_getElem? packed here
    obtain rfl := Option.some.inj (there.symm.trans same)
    obtain ⟨shape, encoded, _, alone⟩ := ready.packs sound whole
    have sizes : List.Forall₂ (fun r b => r.encodedSize = b.length) records packings :=
      packed.imp fun q c here => (here.1.packs sound here.2).2.2.1
    refine ⟨_, getElem?_deliveries sizes 0 here there, by simp, rfl, rfl, ?_⟩
    exact (sound.serves r.layout ready.member).sound.unpack_encode_alone shape encoded alone

end Compiled

theorem ping_walk_packed : ∃ m t g, ∃ r s : Record, Model.parse pingDocument = .ok m ∧
    Table.compile m = .ok t ∧ Registry.ofTable t = .ok g ∧ g.IsReady r ∧ r.pack = .ok pingBytes ∧
      g.IsReady s ∧ s.pack = .ok pongBytes ∧ ∃ first second,
        g.walk (pingBytes ++ pongBytes) = ([first, second], none) ∧
          g.walk (pingBytes ++ pongBytes ++ [1]) = ([first, second], some (.shortTail 1 14)) ∧
            first.offset = 0 ∧ first.length = 8 ∧ second.offset = 8 ∧ second.length = 6 ∧
              Record.unpack s.layout pongBytes 0 = .ok (second.record, 6) := by
  obtain ⟨m, t, g, r, s, parsed, compiled, registered, _, _, lengthAt, idAt, ping, numbered, measured,
    packed, pong, alsoNumbered, alsoMeasured, alsoPacked⟩ := exists_ping
  obtain ⟨member, reached⟩ := reachable_of_unpack ping
  obtain ⟨alsoMember, alsoReached⟩ := reachable_of_unpack pong
  have ready : g.IsReady r := ⟨member, reached, numbered, measured⟩
  have alsoReady : g.IsReady s := ⟨alsoMember, alsoReached, alsoNumbered, alsoMeasured⟩
  obtain ⟨ds, whole, more, count, each⟩ := walk_packed parsed compiled registered
    (.cons ⟨ready, packed⟩ (.cons ⟨alsoReady, alsoPacked⟩ .nil)) (by decide)
  have few : (([1] : Bytes).length : Int) < g.headerStop := by
    rw [headerStop, lengthAt, idAt]
    decide
  have rest := more [1] (by decide) few (by decide)
  obtain ⟨first, firstAt, firstOffset, firstLength, _⟩ := each 0 r pingBytes rfl rfl
  obtain ⟨second, secondAt, secondOffset, secondLength, _, recovered⟩ := each 1 s pongBytes rfl rfl
  have listed : ds = [first, second] := by
    obtain ⟨a, b, rfl⟩ := List.length_eq_two.mp count
    simp only [List.getElem?_cons_zero, List.getElem?_cons_succ, Option.some.injEq] at firstAt secondAt
    rw [firstAt, secondAt]
  subst listed
  exact ⟨m, t, g, r, s, parsed, compiled, registered, ready, packed, alsoReady, alsoPacked, first, second,
    whole, rest, firstOffset, firstLength, secondOffset, secondLength, recovered⟩

end Registry

end TradeWire
