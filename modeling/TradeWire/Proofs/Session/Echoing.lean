import TradeWire.Proofs.Record.Equality
import TradeWire.Proofs.Record.PathEnds
import TradeWire.Proofs.Registry.Headers
import TradeWire.Proofs.Wire.Reproduction
import TradeWire.Proofs.Wire.Setting

/-! A response takes over the fields that it shares with the request and goes on packing. -/

set_option autoImplicit false
set_option relaxedAutoImplicit false

namespace TradeWire

/-- Two fields of one name that hold values of one shape: integers of one size and sign, neither of them a
counter, or byte strings of one fixed size. -/
inductive Field.Shares : Field → Field → Prop where
  | int {name type other : String} {size : Nat} {form form' : IntForm} (signs : form.isSigned = form'.isSigned)
      (free : form.governs = false) (alsoFree : form'.governs = false) :
      Shares (.primitive name type size (.int form)) (.primitive name other size (.int form'))
  | bytes {name type other : String} {size : Nat} {initial initial' : Option Bytes} :
      Shares (.primitive name type size (.bytes initial)) (.primitive name other size (.bytes initial'))

private theorem Field.shares_iff {f g : Field} : f.Shares g ↔ f.name = g.name ∧ Record.takesOver f g = true := by
  constructor
  · rintro (⟨signs, free, alsoFree⟩ | _)
    · simp [name, Record.takesOver, signs, free, alsoFree]
    · simp [name, Record.takesOver]
  · rintro ⟨named, takes⟩
    unfold Record.takesOver at takes
    split at takes
    · simp only [Bool.and_eq_true, beq_iff_eq, Bool.not_eq_true'] at takes
      obtain ⟨⟨⟨rfl, signs⟩, free⟩, alsoFree⟩ := takes
      cases named
      exact .int signs free alsoFree
    · obtain rfl := beq_iff_eq.mp takes
      cases named
      exact .bytes
    · cases takes

def Field.takenFrom (f : Field) (u : Slot) : Slot :=
  match f with
  | .primitive _ _ _ (.int _) => .int u.raw ""
  | _ => .bytes u.data

namespace Record

/-- What a field holds once it has taken over what it shares with a record. -/
def echoed (source : Record) (f : Field) (s : Slot) : Slot :=
  match source.locate f.name with
  | .ok (_, g, u) => if takesOver f g then f.takenFrom u else s
  | .error _ => s

private theorem putValue_eq {r : Record} {i : Nat} {f g : Field} {s : Slot} (plain : IsPlain f.name)
    (found : r.layout.lookup? f.name = some i) (here : r.layout.fields[i]? = some f)
    (there : r.slots[i]? = some s) (takes : takesOver f g = true) (u : Slot) :
    r.putValue f u = r.modify ⟨[], i⟩ fun _ => f.takenFrom u := by
  have located := locate_of_lookup? plain found here there
  unfold takesOver at takes
  split at takes
  · rename_i name type size form _ _ _ _
    have integer := locateInt_of_locate located
    simp only [Field.name] at integer
    cases signed : form.isSigned with
    | true =>
      simp [putValue, setInt_eq, integer, signed, Word.ofInt_toSigned, Field.takenFrom]
    | false =>
      simp [putValue, setUint_eq, integer, signed, Field.takenFrom]
  · rename_i name type size initial _ _ _ _
    have string : r.locateBytes name = .ok (⟨[], i⟩, s) := by
      simp only [Field.name] at located
      simp only [locateBytes, located]
    simp [putValue, setBytes_eq, Field.name, string, Field.takenFrom]
  · cases takes

def takeOver (source r : Record) (f : Field) : Record :=
  match source.locate f.name with
  | .ok (_, g, slot) => if takesOver f g then r.putValue f slot else r
  | .error _ => r

private theorem echo_eq_foldl (r source : Record) : r.echo source = r.layout.fields.foldl source.takeOver r := rfl

private theorem takeOver_eq {r : Record} {i : Nat} {f : Field} {s : Slot} (plain : IsPlain f.name)
    (found : f.isPad = false → r.layout.lookup? f.name = some i) (here : r.layout.fields[i]? = some f)
    (there : r.slots[i]? = some s) (source : Record) :
    source.takeOver r f = r.modify ⟨[], i⟩ (source.echoed f) := by
  have unchanged : r.modify ⟨[], i⟩ id = r := by
    simp [modify, modifySlots]
  unfold takeOver echoed
  cases source.locate f.name with
  | error fault => exact unchanged.symm
  | ok found =>
    obtain ⟨_, g, u⟩ := found
    simp only
    split
    · rename_i takes
      have solid : f.isPad = false := by
        unfold takesOver at takes
        split at takes <;> first | rfl | cases takes
      exact putValue_eq plain (found solid) here there takes u
    · exact unchanged.symm

private theorem foldl_takeOver {l : Layout} (source : Record) (plain : ∀ f ∈ l.fields, IsPlain f.name)
    {t : Table} (good : l.IsWellFormed t) (done todo : List Field) (parts : l.fields = done ++ todo)
    (before after : List Slot)
    (behind : before.length = done.length) (ahead : after.length = todo.length) :
    todo.foldl source.takeOver ⟨l, before ++ after⟩ =
      ⟨l, before ++ List.zipWith source.echoed todo after⟩ := by
  induction todo generalizing done before after with
  | nil =>
    obtain rfl := List.eq_nil_of_length_eq_zero ahead
    rfl
  | cons f rest ih =>
    cases after with
    | nil => cases ahead
    | cons s more =>
      have member : f ∈ l.fields := by simp [parts]
      have here : l.fields[before.length]? = some f := by simp [parts, behind]
      have step := takeOver_eq (r := ⟨l, before ++ s :: more⟩) (plain f member)
        (fun solid => (good.lookup f.name before.length).mpr ⟨f, here, solid, rfl⟩) here (s := s) (by simp) source
      have onward := ih (done ++ [f]) (by simp [parts]) (before ++ [source.echoed f s]) more
        (by simp [behind]) (by simpa using ahead)
      have changed : (before ++ s :: more).modify before.length (source.echoed f) =
          before ++ source.echoed f s :: more := by
        rw [List.modify_eq_take_cons_drop (by simp)]
        simp
      rw [List.foldl_cons, step]
      simpa [modify, modifySlots, changed] using onward

private theorem echo_eq {r : Record} (plain : ∀ f ∈ r.layout.fields, IsPlain f.name)
    {t : Table} (good : r.layout.IsWellFormed t) (shape : r.HasShape) (source : Record) :
    r.echo source = ⟨r.layout, List.zipWith source.echoed r.layout.fields r.slots⟩ :=
  foldl_takeOver source plain good [] r.layout.fields rfl [] r.slots rfl shape.length_eq.symm

section Members

variable {source : Record} {f g : Field} {s u : Slot}

private theorem locate_of_shares (plain : IsPlain f.name) {t : Table} (good : source.layout.IsWellFormed t) {j : Nat}
    (here : source.layout.fields[j]? = some g) (there : source.slots[j]? = some u) (shares : f.Shares g) :
    source.locate f.name = .ok (⟨[], j⟩, g, u) := by
  have solid : g.isPad = false := by cases shares <;> rfl
  have named := (Field.shares_iff.mp shares).1
  exact locate_of_lookup? plain ((good.lookup f.name j).mpr ⟨g, here, solid, named.symm⟩) here there

private theorem echoed_of_shares (plain : IsPlain f.name) {t : Table} (good : source.layout.IsWellFormed t) {j : Nat}
    (here : source.layout.fields[j]? = some g) (there : source.slots[j]? = some u) (shares : f.Shares g) :
    source.echoed f s = f.takenFrom u := by
  simp only [echoed, locate_of_shares plain good here there shares, (Field.shares_iff.mp shares).2, if_true]

private theorem echoed_of_apart (plain : IsPlain f.name) (apart : ∀ g ∈ source.layout.fields, ¬f.Shares g) :
    source.echoed f s = s := by
  unfold echoed
  cases located : source.locate f.name with
  | error fault => rfl
  | ok found =>
    obtain ⟨place, g, u⟩ := found
    obtain ⟨j, rfl, there⟩ := place_of_plain plain located
    have named : g.name = f.name := name_of_locate plain (by simp [splitDots_of_plain plain]) located
    have differ : takesOver f g ≠ true := fun takes =>
      apart g (List.mem_of_getElem? there) (Field.shares_iff.mpr ⟨named.symm, takes⟩)
    simp [differ]

end Members

end Record

/-- An integer that was read stands for as many bytes as it is wide, and a string of fixed size has this size;
nothing is said of other fields. -/
def Field.IsRead : Field → Slot → Prop
  | .primitive _ _ size (.int form), s => ∃ data : Bytes, data.length = size ∧ s = intSlot size form data
  | .primitive _ _ size (.bytes _), s => s.data.length = size
  | _, _ => True

private theorem length_of_readAt {owner field : String} {buf data : Bytes} {start : Int} {size : Nat}
    (read : readAt owner field buf start size = .ok data) : data.length = size :=
  (Buffer.Spans.of_slice? (slice?_of_readAt read)).2

private theorem Field.isRead_holdsOfReads :
    HoldsOfReads Field.IsRead fun l slots => List.Forall₂ Field.IsRead l.fields slots where
  elementary owner buf start f s elementary read := by
    match f with
    | .primitive name _ size (.int form) =>
      obtain ⟨data, found, rfl⟩ := map_eq_ok.mp read
      exact ⟨data, length_of_readAt found, rfl⟩
    | .primitive name _ size (.bytes _) =>
      obtain ⟨data, found, rfl⟩ := map_eq_ok.mp read
      exact length_of_readAt found
    | .primitive _ _ _ .pad => trivial
    | .primitive _ _ _ (.varBytes _) | .nested .. => simp [Field.isElementary] at elementary
  varBytes _ _ _ _ _ := trivial
  once _ _ _ _ := trivial
  many _ _ _ _ _ _ := trivial
  whole _ _ read := read

private theorem Record.isRead_of_unpack {l : Layout} {buf : Bytes} {off stop : Int} {r : Record}
    (unpacked : Record.unpack l buf off = .ok (r, stop)) : List.Forall₂ Field.IsRead r.layout.fields r.slots := by
  obtain ⟨⟨slots, behind⟩, read, same⟩ := map_eq_ok.mp unpacked
  obtain ⟨rfl, rfl⟩ := Prod.mk.inj same
  exact Field.isRead_holdsOfReads.of_read l _ _ _ _ read

private theorem Field.Shares.isValid_takenFrom {f g : Field} (shares : f.Shares g) (sound : f.Sound) {u : Slot}
    (read : g.IsRead u) (all : List Slot) : f.IsValid all (f.takenFrom u) := by
  cases shares with
  | @int name type other size form form' signs =>
    obtain ⟨data, length, rfl⟩ := read
    obtain ⟨positive, width⟩ := sound.width name type size form rfl
    have fits := Word.fits_ofField positive width form'.isSigned length
    rw [Word.fits_iff_isInRange positive width] at fits
    have raw : (intSlot size form' data).raw = Word.ofField size form'.isSigned data := rfl
    show Word.IsInRange (intSlot size form' data).raw size form.isSigned
    rw [raw, signs]
    exact fits
  | bytes => exact Nat.le_of_eq read

private theorem Field.Shares.same_takenFrom {f g : Field} (shares : f.Shares g) {u : Slot} (shape : g.Admits u) :
    (f.takenFrom u).same u = true := by
  cases shares with
  | int =>
    obtain ⟨raw, symbol, rfl⟩ := shape.int_inv
    simp [takenFrom, Slot.same, Slot.raw]
  | bytes =>
    cases u with
    | bytes data => simp [takenFrom, Slot.same, Slot.data]
    | pad | int | struct | elems => simp [Field.Admits] at shape

/-- The field at a position shares nothing with the fields of another layout. -/
def Layout.Apart (l other : Layout) (i : Nat) : Prop :=
  ∀ f, l.fields[i]? = some f → ∀ g ∈ other.fields, ¬f.Shares g

private theorem Layout.apart_of_nested {l : Layout} {i : Nat} {name : String} {repetition : Repetition}
    {element : Layout} (here : l.fields[i]? = some (.nested name repetition element)) (other : Layout) :
    l.Apart other i := by
  rintro f at_i g - shares
  cases here.symm.trans at_i
  cases shares

namespace Record

section Echo

variable {t t' : Table} {r source : Record} {i : Nat} {f : Field} {s : Slot}

private theorem getElem?_echo (plain : ∀ f ∈ r.layout.fields, IsPlain f.name) (good : r.layout.IsWellFormed t)
    (shape : r.HasShape) (here : r.layout.fields[i]? = some f) (there : r.slots[i]? = some s) :
    (r.echo source).slots[i]? = some (source.echoed f s) := by
  simp [echo_eq plain good shape, List.getElem?_zipWith, here, there]

private theorem getElem?_echo_of_apart (plain : ∀ f ∈ r.layout.fields, IsPlain f.name)
    (good : r.layout.IsWellFormed t)
    (shape : r.HasShape) (apart : r.layout.Apart source.layout i) :
    (r.echo source).slots[i]? = r.slots[i]? := by
  cases here : r.layout.fields[i]? with
  | none =>
    have outside : r.slots[i]? = none := by
      rw [List.getElem?_eq_none_iff] at here ⊢
      exact shape.length_eq ▸ here
    simp [echo_eq plain good shape, List.getElem?_zipWith, here, outside]
  | some f =>
    obtain ⟨s, there, _⟩ := forall₂_getElem? (Layout.admits_iff.mp shape) here
    rw [getElem?_echo plain good shape here there, there,
      echoed_of_apart (plain f (List.mem_of_getElem? here)) (apart f here)]

private theorem sameCounters_echo (plain : ∀ f ∈ r.layout.fields, IsPlain f.name) (good : r.layout.IsWellFormed t)
    (sound : r.layout.Sound) (shape : r.HasShape) :
    r.layout.SameCounters r.slots (r.echo source).slots := by
  intro f member counter governed
  obtain ⟨k, at_k⟩ := List.mem_iff_getElem?.mp member
  obtain ⟨_, _, _, _, _, marked, governs, _⟩ := sound.countersPrecede k f counter at_k governed
  have apart : r.layout.Apart source.layout counter := by
    rintro g there other - shares
    cases marked.symm.trans there
    cases shares with
    | int _ free =>
      rw [free] at governs
      cases governs
  simp only [rawAt, getElem?_echo_of_apart plain good shape apart]

private theorem isValid_echo (plain : ∀ f ∈ r.layout.fields, IsPlain f.name) (good : r.layout.IsWellFormed t)
    (sound : r.layout.Sound) (shape : r.HasShape) (good' : source.layout.IsWellFormed t')
    (read : List.Forall₂ Field.IsRead source.layout.fields source.slots) (valid : r.layout.IsValid r.slots) :
    r.layout.IsValid (r.echo source).slots := by
  refine Layout.isValid_iff.mpr ?_
  intro i f held here there
  have member := List.mem_of_getElem? here
  obtain ⟨s, before, _⟩ := forall₂_getElem? (Layout.admits_iff.mp shape) here
  obtain rfl := Option.some.inj ((getElem?_echo plain good shape here before).symm.trans there)
  by_cases shared : ∃ g ∈ source.layout.fields, f.Shares g
  · obtain ⟨g, listed, shares⟩ := shared
    obtain ⟨j, at_j⟩ := List.mem_iff_getElem?.mp listed
    obtain ⟨u, holds, found⟩ := forall₂_getElem? read at_j
    rw [echoed_of_shares (plain f member) good' at_j holds shares]
    exact shares.isValid_takenFrom (sound.field member) found _
  · rw [echoed_of_apart (plain f member) fun g listed shares => shared ⟨g, listed, shares⟩,
      Field.isValid_congr (sameCounters_echo plain good sound shape f member)]
    exact Layout.isValid_iff.mp valid i f s here before

/-- A record that packs goes on packing when it takes over what was read. The bytes of what shares nothing stay
where they are. -/
theorem pack_echo (plain : ∀ f ∈ r.layout.fields, IsPlain f.name) (good : r.layout.IsWellFormed t)
    (sound : r.layout.Sound) (anchored : r.layout.Anchored) (reached : Reachable r.layout r)
    (good' : source.layout.IsWellFormed t')
    (read : List.Forall₂ Field.IsRead source.layout.fields source.slots) {b : Bytes} (packed : r.pack = .ok b) :
    ∃ b', (r.echo source).pack = .ok b' ∧ b'.length = b.length ∧
      ∀ i, r.layout.Apart source.layout i →
        r.layout.memberBytes (r.echo source).slots i b' = r.layout.memberBytes r.slots i b := by
  have shape := reached.hasShape.2
  have whole : r.echo source = ⟨r.layout, (r.echo source).slots⟩ := by rw [echo_eq plain good shape source]
  have shape' : r.layout.Admits (r.echo source).slots := by
    have kept := ((leavesStructures_echo plain source).reachable _ reached).hasShape.2
    rw [whole] at kept
    exact kept
  obtain ⟨encoded, _⟩ := encode_of_pack sound anchored shape packed
  have valid := (sound.encode_isOk_iff shape).mp ⟨b, encoded⟩
  obtain ⟨b', again⟩ := (sound.encode_isOk_iff shape').mpr
    (isValid_echo plain good sound shape good' read valid)
  have counters : r.layout.SameCounters r.slots (r.echo source).slots :=
    sameCounters_echo plain good sound shape
  -- the echo takes as much room as the record does
  have length := sound.length_encode shape encoded
  have length' := sound.length_encode shape' again
  have room := counters.reserve_eq
  have bound := isAddressable_of_pack sound anchored shape packed
  unfold Buffer.IsAddressable at bound
  refine ⟨b', ?_, by omega, ?_⟩
  · rw [whole, pack_eq_encode_of_le (r := ⟨r.layout, (r.echo source).slots⟩) sound (by simp only; omega) shape']
    exact again
  · intro i apart
    cases here : r.layout.fields[i]? with
    | none => simp [Layout.memberBytes, here]
    | some f =>
      obtain ⟨s, there, _⟩ := forall₂_getElem? (Layout.admits_iff.mp shape) here
      have before := sound.encode_memberBytes shape encoded here there
      have after := sound.encode_memberBytes shape' again here
        ((getElem?_echo_of_apart plain good shape apart).trans there)
      rw [Field.encode_congr (counters f (List.mem_of_getElem? here)), before] at after
      exact (Except.ok.inj after).symm

end Echo

/-- An echo copies the values of the fields that a record shares with another, and leaves all other fields as
they are: counters, structures and the header among them. If what is copied was read from a buffer, a record
that packs goes on packing, to as many bytes and with the same bytes for all other fields. -/
theorem echo_copies_shared {document document' : Bytes} {m m' : Model} {t t' : Table} {l l' : Layout}
    {r source : Record} (parsed : Model.parse document = .ok m) (compiled : Table.compile m = .ok t)
    (listed : l ∈ t.layouts) (reached : Reachable l r) (plain : ∀ f ∈ l.fields, IsPlain f.name)
    (parsed' : Model.parse document' = .ok m') (compiled' : Table.compile m' = .ok t')
    (listed' : l' ∈ t'.layouts) (reached' : Reachable l' source) :
    (r.echo source).layout = l ∧
      (∀ (i j : Nat) (f g : Field) (u : Slot), l.fields[i]? = some f → l'.fields[j]? = some g →
        source.slots[j]? = some u → f.Shares g →
          ∃ s : Slot, (r.echo source).slots[i]? = some s ∧ s.same u = true) ∧
      (∀ i, l.Apart l' i → (r.echo source).slots[i]? = r.slots[i]?) ∧
      (∀ info, l.message = some info → l.Apart l' info.header.field) ∧
      ∀ buf off stop b, Record.unpack l' buf off = .ok (source, stop) → r.pack = .ok b →
        ∃ b', (r.echo source).pack = .ok b' ∧ b'.length = b.length ∧
          ∀ i, l.Apart l' i → l.memberBytes (r.echo source).slots i b' = l.memberBytes r.slots i b := by
  obtain ⟨rfl, shape⟩ := reached.hasShape
  obtain ⟨rfl, shape'⟩ := reached'.hasShape
  have accepted := Model.isAccepted_of_parse parsed
  have good := Table.isWellFormed_of_compile accepted compiled listed
  have good' := Table.isWellFormed_of_compile (Model.isAccepted_of_parse parsed') compiled' listed'
  refine ⟨(leavesStructures_echo plain source).layout, ?_, fun i => getElem?_echo_of_apart plain good shape,
    ?_, ?_⟩
  · intro i j f g u here there holds shares
    obtain ⟨s, before, _⟩ := forall₂_getElem? (Layout.admits_iff.mp shape) here
    obtain ⟨u', again, kind⟩ := forall₂_getElem? (Layout.admits_iff.mp shape') there
    obtain rfl := Option.some.inj (holds.symm.trans again)
    refine ⟨f.takenFrom u, ?_, shares.same_takenFrom kind⟩
    rw [getElem?_echo plain good shape here before,
      echoed_of_shares (plain f (List.mem_of_getElem? here)) good' there holds shares]
  · intro info message
    obtain ⟨name, header, nested, _⟩ := good.header info message
    exact Layout.apart_of_nested nested _
  · intro buf off stop b unpacked packed
    by_cases empty : r.layout.fields = []
    · have same : r.echo source = r := by rw [echo_eq_foldl, empty, List.foldl_nil]
      rw [same]
      exact ⟨b, packed, rfl, fun _ _ => rfl⟩
    · exact pack_echo plain good (Table.sound_of_compile accepted compiled r.layout listed)
        (Table.anchored_of_compile accepted compiled r.layout listed empty) reached good'
        (isRead_of_unpack unpacked) packed

/-- A schema whose response shares a size and a tag with the request, in another order, and carries a note. -/
def fillDocument : Bytes := List.flatMap Text.encodeUtf8
  ["<Model><DataTypes><DataType name='Len' rootType='int' size='4' minValue='0'/>",
    "<DataType name='Id' rootType='int' size='2'/><DataType name='N' rootType='int' size='1'/>",
    "<DataType name='Tag' rootType='String' size='2'/>",
    "<DataType name='Note' rootType='String' size='4' variableSize='true' counter='N'/></DataTypes>",
    "<Structures><Structure name='MessageHeaderComp' type='Component'>",
    "<Member name='BodyLen' type='Len' cardinality='1'/>",
    "<Member name='TemplateID' type='Id' cardinality='1'/></Structure>",
    "<Structure name='Order' type='Message' numericID='7'>",
    "<Member name='Header' type='MessageHeaderComp' cardinality='1'/>",
    "<Member name='Tag' type='Tag' cardinality='1'/><Member name='Size' type='Id' cardinality='1'/></Structure>",
    "<Structure name='Fill' type='Message' numericID='8'>",
    "<Member name='Header' type='MessageHeaderComp' cardinality='1'/>",
    "<Member name='Size' type='Id' cardinality='1'/><Member name='N' type='N' cardinality='1'/>",
    "<Member name='Note' type='Note' cardinality='1'/><Member name='Tag' type='Tag' cardinality='1'/></Structure>",
    "</Structures></Model>"]

def placedOrderBytes : Bytes := [10, 0, 0, 0, 7, 0, 65, 66, 5, 0]

theorem fill_copies_shared : ∃ m t fill order source b, Model.parse fillDocument = .ok m ∧
    Table.compile m = .ok t ∧ fill ∈ t.layouts ∧ order ∈ t.layouts ∧ (∀ f ∈ fill.fields, IsPlain f.name) ∧
      Record.unpack order placedOrderBytes 0 = .ok (source, 10) ∧ (Record.new fill).pack = .ok b ∧
        ((Record.new fill).echo source).layout = fill ∧
          (∃ size, ((Record.new fill).echo source).slots[1]? = some size ∧ size.raw = 5) ∧
          (∃ tag, ((Record.new fill).echo source).slots[4]? = some tag ∧ tag.data = [65, 66]) ∧
          ∃ b', ((Record.new fill).echo source).pack = .ok b' ∧ b'.length = b.length ∧
            fill.memberBytes ((Record.new fill).echo source).slots 0 b' =
              fill.memberBytes (Record.new fill).slots 0 b := by
  have run : ((layoutsOf fillDocument).any fun fill => fill.name == "Fill" &&
      (fill.fields.all fun f => decide (IsPlain f.name)) && (Record.new fill).pack.toOption.isSome &&
        (fill.message.map (·.header.field) == some 0) &&
      (layoutsOf fillDocument).any fun order => order.name == "Order" &&
        ((fill.fields[1]?.any fun f => order.fields[2]?.any fun g => f.name == g.name && takesOver f g) &&
          fill.fields[4]?.any fun f => order.fields[1]?.any fun g => f.name == g.name && takesOver f g) &&
        (Record.unpack order placedOrderBytes 0).toOption.any fun out => out.2 == 10 &&
          ((out.1.slots[2]?.any fun u => u.raw == 5) && out.1.slots[1]?.any fun u => u.data == [65, 66])) =
            true := by
    rw [fillDocument, Text.encodeUtf8_eq]
    decide +kernel
  obtain ⟨m, t, fill, parsed, compiled, listed, checked⟩ := exists_of_any_layoutsOf run
  simp only [Bool.and_eq_true, beq_iff_eq, List.all_eq_true, decide_eq_true_eq] at checked
  obtain ⟨⟨⟨⟨_, plain⟩, packs⟩, headed⟩, others⟩ := checked
  obtain ⟨m', t', order, parsed', compiled', listed', found⟩ := exists_of_any_layoutsOf others
  obtain rfl := Except.ok.inj (parsed.symm.trans parsed')
  obtain rfl := Except.ok.inj (compiled.symm.trans compiled')
  simp only [Bool.and_eq_true, beq_iff_eq, Option.any_eq_true, toOption_eq_some] at found
  obtain ⟨⟨_, ⟨f, size, g, asked, sized⟩, f', tag, g', given, tagged⟩, ⟨source, _⟩, unpacked, rfl,
    ⟨u, five, raw⟩, u', letters, data⟩ := found
  obtain ⟨b, packed⟩ := Option.isSome_iff_exists.mp packs
  rw [toOption_eq_some] at packed
  obtain ⟨layout, copies, _, header, packing⟩ := echo_copies_shared parsed compiled listed .new plain parsed'
    compiled' listed' (.unpack unpacked)
  obtain ⟨s, held, same⟩ := copies 1 2 f g u size asked five (Field.shares_iff.mpr sized)
  obtain ⟨s', held', same'⟩ := copies 4 1 f' g' u' tag given letters (Field.shares_iff.mpr tagged)
  obtain ⟨b', again, length, bytes⟩ := packing _ _ _ b unpacked packed
  obtain ⟨info, message, first⟩ := Option.map_eq_some_iff.mp headed
  exact ⟨m, t, fill, order, source, b, parsed, compiled, listed, listed', plain, unpacked, packed, layout,
    ⟨s, held, (Slot.raw_eq_of_same same).1.trans raw⟩, ⟨s', held', (Slot.raw_eq_of_same same').2.trans data⟩,
    b', again, length, bytes 0 (first ▸ header info message)⟩

end Record

end TradeWire
