import TradeWire.Proofs.Registry.Dispatch
import TradeWire.Proofs.Wire.Inside

/-! The registry reads inside the buffer except where a place ends beyond the machine numbers. -/

set_option autoImplicit false
set_option relaxedAutoImplicit false

namespace TradeWire

/-- What comes of reading a stretch of a message that stands at `start`: the number its bytes make up, or that they
are missing. A stretch that ends beyond the machine numbers is not found to be missing. -/
inductive Stretch.Answers (field : String) (s : Stretch) (buf : Bytes) (start : Int) :
    Except DecodeError Int → Prop
  | value {data : Bytes} (found : Buffer.slice? buf start s.width = some data) :
      Answers field s buf start (.ok (Word.toSigned (UInt64.ofNat (Word.ofLittleEndian data))))
  | missing (absent : Buffer.isInside buf.length start s.width = false)
      (fits : start + s.width ≤ Word.maxSigned) :
      Answers field s buf start (.error (truncatedAt "header" field buf.length start s.width))
  | outside (exceeds : Word.maxSigned < start + s.width) :
      Answers field s buf start (.error ⟨"header", field, start, .outside⟩)

private theorem Buffer.isShort_eq_false_of_exceeds {length width : Nat} {start : Int} (high : start ≤ Word.maxSigned)
    (narrow : width ≤ 8) (exceeds : Word.maxSigned < start + width) : isShort length start width = false := by
  have wrapped : Word.add start width = start + width - 0x10000000000000000 := by
    simp only [Word.add, Word.wrap, Int.bmod_def, Word.maxSigned] at high exceeds ⊢
    omega
  simp only [isShort, wrapped, Word.maxSigned] at high exceeds ⊢
  simp only [Bool.or_eq_false_iff, decide_eq_false_iff_not]
  omega

private theorem Stretch.answers_read {s : Stretch} (narrow : s.width ≤ 8) {buf : Bytes}
    (inMemory : Buffer.IsAddressable buf) (field : String) (off : Int) :
    s.Answers field buf (Word.add off s.offset) (s.read field buf off) := by
  have low := Word.minSigned_le_wrap (off + s.offset)
  have high := Word.wrap_le_maxSigned (off + s.offset)
  unfold Stretch.read
  simp only
  change Word.minSigned ≤ Word.add off s.offset at low
  change Word.add off s.offset ≤ Word.maxSigned at high
  generalize Word.add off s.offset = start at low high ⊢
  by_cases fits : start + s.width ≤ Word.maxSigned
  · rw [Buffer.isShort_eq_not_isInside buf.length low fits]
    cases inside : Buffer.isInside buf.length start s.width with
    | false => exact .missing inside fits
    | true =>
      have found : Buffer.slice? buf start s.width = some ((buf.drop start.toNat).take (s.width : Int).toNat) := by
        rw [Buffer.slice?, if_pos inside]
      simp only [readAt, found, Bool.not_true, Bool.false_eq_true, if_false, Except.map]
      exact .value found
  · have exceeds := Int.not_le.mp fits
    have none_there : Buffer.slice? buf start s.width = none := by
      unfold Buffer.IsAddressable at inMemory
      rw [Buffer.slice?, if_neg]
      simp only [Buffer.isInside, Bool.and_eq_true, decide_eq_true_eq]
      omega
    rw [Buffer.isShort_eq_false_of_exceeds high narrow exceeds]
    simp only [readAt, none_there, Bool.false_eq_true, if_false, Except.map]
    exact .outside exceeds

private theorem extent_take_add_le {fields : List Field} {i : Nat} {f : Field} (here : fields[i]? = some f) :
    ((fields.take i).map Field.extent).sum + f.extent ≤ (fields.map Field.extent).sum := by
  obtain ⟨bound, rfl⟩ := List.getElem?_eq_some_iff.mp here
  have part := ((List.take_sublist (i + 1) fields).map Field.extent).sum_le_sum fun _ _ => Nat.zero_le _
  rwa [List.take_succ_eq_append_getElem bound, List.map_append, List.sum_append_nat, List.map_singleton,
    List.sum_singleton] at part

private theorem Layout.HeaderAt.exists_distance {l : Layout} {which : HeaderLink → Nat} {place : Stretch}
    {form : IntForm}
    (at_ : l.HeaderAt which place form) (sound : l.Sound) :
    ∃ n, place.offset = Word.wrap (n : Nat) ∧ n + place.width ≤ l.extent := by
  obtain ⟨message, nested, based, held, placed, sum⟩ := at_
  rename_i info name field type header base offset
  have inner := (sound.field (List.mem_of_getElem? nested)).element header rfl
  have outerPart := extent_take_add_le nested
  have innerPart := extent_take_add_le held
  rw [← Layout.extent_eq_sum] at outerPart innerPart
  simp only [Field.extent] at outerPart innerPart
  refine ⟨((l.fields.take info.header.field).map Field.extent).sum +
    ((header.fields.take (which info.header)).map Field.extent).sum, ?_, by omega⟩
  rw [sum, sound.fieldOffset?_eq_some based, inner.fieldOffset?_eq_some placed, Word.add_wrap_wrap]

private theorem Layout.HeaderAt.not_outside {l : Layout} {which : HeaderLink → Nat} {place : Stretch} {form : IntForm}
    (at_ : l.HeaderAt which place form) (sound : l.Sound) {buf : Bytes} (inMemory : Buffer.IsAddressable buf)
    {off : Int} (low : Word.minSigned ≤ off) (room : off + l.capacity ≤ Word.maxSigned) {field : String}
    {fault : DecodeError} (failed : place.read field buf off = .error fault) : fault.cause ≠ .outside := by
  obtain ⟨n, distance, inside⟩ := at_.exists_distance sound
  have extent := l.extent_le_capacity
  have start : Word.add off place.offset = off + n := by
    rw [distance, Word.add, Word.wrap_add_wrap]
    exact Word.wrap_eq_self (by omega) (by omega)
  have answers := Stretch.answers_read (at_.width sound).2 inMemory field off
  rw [failed, start] at answers
  cases answers with
  | missing => simp [truncatedAt]
  | outside exceeds => omega

namespace Registry

variable {m : Model} {t : Table} {g : Registry}

private theorem unpack_eq_decode {buf : Bytes} {off : Int} {fault : DecodeError}
    (failed : g.unpack buf off = .error (.decode fault)) : g.templateId buf off = .error fault ∨
      ∃ l ∈ g.messages, Record.unpack l buf off = .error fault := by
  unfold Registry.unpack at failed
  split at failed
  · rename_i other here
    cases failed
    exact .inl here
  · split at failed
    · rename_i other absent
      -- looking up an id does not read
      unfold Registry.lookup at absent
      cases failed
      split at absent
      · cases absent
      · split at absent
        · cases absent
        · cases absent
    · rename_i l found
      split at failed
      · rename_i other here
        cases failed
        exact .inr ⟨l, (lookup_eq_ok found).1, here⟩
      · cases failed

private theorem IsSound.extent_pos (sound : g.IsSound m t) {l : Layout} (member : l ∈ g.messages) : 0 < l.extent := by
  have serves := sound.serves l member
  obtain ⟨_, at_⟩ := serves.templateId
  obtain ⟨n, _, inside⟩ := at_.exists_distance serves.sound
  have width := (at_.width serves.sound).1
  omega

/-- Where an offset leads. Header fields are read at any offset as the bytes are there or missing, except where the
place ends beyond the machine numbers. A byte outside the buffer is asked for only when some message, were it to
stand at the offset, could end beyond the machine numbers; a message that is read without that is in the buffer. -/
theorem reads_inside {document : Bytes} (parsed : Model.parse document = .ok m) (compiled : Table.compile m = .ok t)
    (registered : Registry.ofTable t = .ok g) {buf : Bytes} (inMemory : Buffer.IsAddressable buf) {off : Int}
    (low : Word.minSigned ≤ off) :
    g.templateIdAt.Answers Layout.templateIdName buf (Word.add off g.templateIdAt.offset)
        (g.templateId buf off) ∧
      g.bodyLenAt.Answers Layout.bodyLenName buf (Word.add off g.bodyLenAt.offset) (g.bodyLen buf off) ∧
      (∀ fault, g.templateId buf off = .error fault ∨ g.bodyLen buf off = .error fault ∨
        g.unpack buf off = .error (.decode fault) → fault.cause = .outside →
          ∃ l ∈ g.messages, Word.maxSigned < off + l.capacity) ∧
      ∀ r stop, g.unpack buf off = .ok (r, stop) → off + r.layout.capacity ≤ Word.maxSigned →
        0 ≤ off ∧ off < stop ∧ stop ≤ buf.length := by
  have sound := Registry.isSound_of_ofTable parsed compiled registered
  obtain ⟨first, rest, listed⟩ := List.exists_cons_of_ne_nil sound.nonempty
  have member : first ∈ g.messages := by simp [listed]
  have serves := sound.serves first member
  obtain ⟨_, bodyLen⟩ := serves.bodyLen
  obtain ⟨_, templateId⟩ := serves.templateId
  refine ⟨Stretch.answers_read (templateId.width serves.sound).2 inMemory _ off,
    Stretch.answers_read (bodyLen.width serves.sound).2 inMemory _ off, ?_, ?_⟩
  · intro fault failed outside
    by_contra all
    have room : ∀ l ∈ g.messages, off + l.capacity ≤ Word.maxSigned := by
      intro l here
      by_contra beyond
      exact all ⟨l, here, Int.not_le.mp beyond⟩
    have header := room first member
    rcases failed with id | length | dispatched
    · exact templateId.not_outside serves.sound inMemory low header id outside
    · exact bodyLen.not_outside serves.sound inMemory low header length outside
    · rcases unpack_eq_decode dispatched with id | ⟨l, here, unpacked⟩
      · exact templateId.not_outside serves.sound inMemory low header id outside
      · exact (sound.serves l here).sound.read_staysInside.failed buf off fault low (room l here)
          (map_eq_error.mp unpacked) outside
  · intro r stop dispatched room
    obtain ⟨_, l, _, found, unpacked⟩ := unpack_eq_ok.mp dispatched
    obtain ⟨slots, read, same⟩ := map_eq_ok.mp unpacked
    cases same
    have here := (lookup_eq_ok found).1
    obtain ⟨forward, _, inside⟩ :=
      (sound.serves l here).sound.read_staysInside.ended buf off _ _ low room read
    have moved : off < slots.2 := by
      have some_bytes := sound.extent_pos here
      omega
    obtain ⟨begins, ends⟩ := inside moved
    exact ⟨begins, moved, ends⟩

/-- A ping behind two bytes that are none of its own is read where it stands; below the buffer and far behind it,
nothing outside the buffer is looked at. -/
theorem ping_reads_inside : ∃ m t g r, Model.parse pingDocument = .ok m ∧ Table.compile m = .ok t ∧
    Registry.ofTable t = .ok g ∧ g.unpack (0 :: 0 :: pingBytes) 2 = .ok (r, 10) ∧
      (∀ l ∈ g.messages, l.capacity ≤ 11) ∧
        (∀ fault, g.unpack (0 :: 0 :: pingBytes) (-3) = .error (.decode fault) → fault.cause ≠ .outside) ∧
          ∀ fault, g.unpack (0 :: 0 :: pingBytes) 0x7ffffffffffffff0 = .error (.decode fault) →
            fault.cause ≠ .outside := by
  have run : ((registryOf? pingDocument).any fun g =>
      ((g.unpack (0 :: 0 :: pingBytes) 2).toOption.any fun (_, stop) => stop == 10) &&
        g.messages.all fun l => l.capacity ≤ 11) = true := by
    rw [registryOf?_eq parse_pingDocument]
    decide +kernel
  obtain ⟨m, t, g, parsed, compiled, registered, checked⟩ := exists_of_any_registryOf? run
  simp only [Bool.and_eq_true, Option.any_eq_true, toOption_eq_some, Prod.exists, beq_iff_eq, List.all_eq_true,
    decide_eq_true_eq] at checked
  obtain ⟨⟨r, _, unpacked, rfl⟩, small⟩ := checked
  have inMemory : Buffer.IsAddressable (0 :: 0 :: pingBytes) := by decide
  have inside := fun {off : Int} (low : Word.minSigned ≤ off) =>
    (Registry.reads_inside parsed compiled registered inMemory low).2.2.1
  refine ⟨m, t, g, r, parsed, compiled, registered, unpacked, small, ?_, ?_⟩
  · intro fault failed outside
    obtain ⟨l, member, beyond⟩ := inside (by decide) fault (.inr (.inr failed)) outside
    have bound := small l member
    unfold Word.maxSigned at beyond
    omega
  · intro fault failed outside
    obtain ⟨l, member, beyond⟩ := inside (by decide) fault (.inr (.inr failed)) outside
    have bound := small l member
    unfold Word.maxSigned at beyond
    omega

/-- At the last offset the body length, and five bytes before it the template id, is found to be there, and bytes
outside the buffer are asked for. -/
theorem reads_outside_at_last_offset : ∃ m t g, Model.parse pingDocument = .ok m ∧ Table.compile m = .ok t ∧
    Registry.ofTable t = .ok g ∧
      g.bodyLen pingBytes Word.maxSigned =
        .error ⟨"header", "BodyLen", Word.maxSigned, .outside⟩ ∧
      g.unpack pingBytes (Word.maxSigned - 5) =
        .error (.decode ⟨"header", "TemplateID", Word.maxSigned - 1, .outside⟩) := by
  have run : ((registryOf? pingDocument).any fun g =>
      fault? (g.bodyLen pingBytes Word.maxSigned) == some ⟨"header", "BodyLen", Word.maxSigned, .outside⟩ &&
        fault? (g.unpack pingBytes (Word.maxSigned - 5)) ==
          some (.decode ⟨"header", "TemplateID", Word.maxSigned - 1, .outside⟩)) = true := by
    rw [registryOf?_eq parse_pingDocument]
    decide +kernel
  obtain ⟨m, t, g, parsed, compiled, registered, checked⟩ := exists_of_any_registryOf? run
  simp only [Bool.and_eq_true, beq_iff_eq, fault?_eq_some] at checked
  exact ⟨m, t, g, parsed, compiled, registered, checked⟩

end Registry

end TradeWire
