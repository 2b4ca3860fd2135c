import TradeWire.Proofs.Layout.Soundness
import TradeWire.Proofs.Protocol.Checking
import TradeWire.Proofs.Record.Trimming

/-! Trimming a record cannot be observed but by reading its byte strings. -/

set_option autoImplicit false
set_option relaxedAutoImplicit false

namespace TradeWire

open Schema

private theorem Layout.getElem?_trimSlots {l : Layout} {i : Nat} {f : Field} (here : l.fields[i]? = some f)
    (slots : List Slot) : (l.trimSlots slots)[i]? = slots[i]?.map f.trimSlot := by
  rw [Layout.trimSlots_eq, getElem?_trimFieldSlots here]

private theorem Layout.trimSlots_nil (l : Layout) : l.trimSlots [] = [] := by
  obtain ⟨name, message, size, fields⟩ := l
  cases fields with
  | nil => rfl
  | cons f fs => rfl

private theorem Layout.getD_map_trimSlots (element : Layout) (items : List (List Slot)) (n : Nat) :
    (items.map element.trimSlots).getD n [] = element.trimSlots (items.getD n []) := by
  rw [List.getD_eq_getElem?_getD, List.getD_eq_getElem?_getD, List.getElem?_map]
  cases items[n]? with
  | none => exact element.trimSlots_nil.symm
  | some item => rfl

namespace Record

private theorem resolveParts_trimSlots (path : String) (l : Layout) (slots : List Slot)
    (parts : List (List Char)) :
    resolveParts path l (l.trimSlots slots) parts = resolveParts path l slots parts := by
  induction parts generalizing l slots with
  | nil => rfl
  | cons part rest ih =>
    unfold resolveParts
    cases parsed : parseSegment part with
    | none => rfl
    | some segment =>
      cases found : l.lookup? segment.name with
      | none => simp [found]
      | some i =>
        simp only [found]
        split
        · rfl
        · cases here : l.fields[i]? with
          | none => rfl
          | some f =>
            rw [Layout.getElem?_trimSlots here]
            cases slots[i]? with
            | none => rfl
            | some s =>
              cases f with
              | primitive => rfl
              | nested name repetition element =>
                cases s with
                | pad | int | bytes => cases repetition <;> rfl
                | struct inner =>
                  cases repetition with
                  | once =>
                    cases segment.index with
                    | none => simp only [Option.map_some, Field.trimSlot, ih]
                    | some n => rfl
                  | array | group => rfl
                | elems items =>
                  cases segment.index with
                  | none => cases repetition <;> rfl
                  | some n =>
                    simp only [Option.map_some, Field.trimSlot, List.length_map,
                      Layout.getD_map_trimSlots, ih]

private theorem follow_trimSlots (hops : List Hop) (l : Layout) (slots : List Slot) :
    follow hops l (l.trimSlots slots) =
      (follow hops l slots).map fun (owner, inner) => (owner, owner.trimSlots inner) := by
  induction hops generalizing l slots with
  | nil => rfl
  | cons hop hops ih =>
    unfold follow
    cases here : l.fields[hop.field]? with
    | none => rfl
    | some f =>
      rw [Layout.getElem?_trimSlots here]
      cases slots[hop.field]? with
      | none => cases f <;> rfl
      | some s =>
        cases f with
        | primitive => rfl
        | nested name repetition element =>
          cases s with
          | pad | int | bytes => rfl
          | struct inner =>
            cases hop.item with
            | none => exact ih element inner
            | some n => rfl
          | elems items =>
            cases hop.item with
            | none => rfl
            | some n =>
              simp only [Option.map_some, Field.trimSlot, List.getElem?_map]
              cases items[n]? with
              | none => rfl
              | some item => exact ih element item

variable {r : Record}

private theorem at?_trim (r : Record) (place : Location) :
    r.trim.at? place = (r.at? place).map fun (f, s) => (f, f.trimSlot s) := by
  unfold at? trim
  simp only [follow_trimSlots]
  cases follow place.hops r.layout r.slots with
  | none => rfl
  | some there =>
    obtain ⟨owner, inner⟩ := there
    simp only [Option.map_some, Option.bind_some]
    cases here : owner.fields[place.field]? with
    | none => rfl
    | some f =>
      rw [Layout.getElem?_trimSlots here]
      cases inner[place.field]? with
      | none => rfl
      | some s => rfl

private theorem locate_trim (r : Record) (path : String) :
    r.trim.locate path = (r.locate path).map fun (place, f, s) => (place, f, f.trimSlot s) := by
  have resolved : r.trim.resolve path = r.resolve path :=
    resolveParts_trimSlots path r.layout r.slots _
  unfold locate
  rw [resolved]
  cases r.resolve path with
  | error fault => rfl
  | ok place =>
    simp only [at?_trim]
    cases r.at? place with
    | none => rfl
    | some there => rfl

end Record

namespace Protocol

private theorem lacksValue_trimSlot (f : Field) (s : Slot) : lacksValue f (f.trimSlot s) = lacksValue f s := by
  cases f with
  | primitive name type size kind =>
    cases kind with
    | bytes initial =>
      cases s with
      | bytes data => exact all_zero_dropTrailing data
      | pad | int | struct | elems => rfl
    | int | pad | varBytes => rfl
  | nested => rfl

private theorem validateField_trim (container : String) (r : Record) (name : String) :
    validateField container r.trim name = validateField container r name := by
  unfold validateField
  have layout : r.trim.layout = r.layout := rfl
  rw [layout]
  cases fieldPath? r.layout name with
  | none => rfl
  | some path =>
    simp only [Record.locate_trim]
    cases r.locate path with
    | error fault => rfl
    | ok answer =>
      obtain ⟨place, f, s⟩ := answer
      simp only [Except.map, lacksValue_trimSlot]

private theorem validateFields_trim (container : String) (r : Record) (names : List String) :
    validateFields container r.trim names = validateFields container r names := by
  rw [validateFields_eq_checkAll, validateFields_eq_checkAll]
  exact checkAll_congr fun name _ => validateField_trim container r name

private theorem elems_trim (r : Record) (path : String) :
    r.trim.elems path = (r.elems path).map fun items => items.map Record.trim := by
  unfold Record.elems
  rw [Record.locate_trim]
  cases r.locate path with
  | error fault => rfl
  | ok answer =>
    obtain ⟨place, f, s⟩ := answer
    cases f with
    | primitive => rfl
    | nested name repetition element =>
      cases s with
      | elems items => simp [Except.map, Field.trimSlot, Record.trim]
      | pad | int | bytes | struct => rfl

private theorem validateGroup_trim {p : Protocol} {container : String} {r : Record} {f : Field} {s : Slot}
    (below : ∀ element, f.element? = some element → ∀ container slots,
      validateSlots p container element (element.trimSlots slots) = validateSlots p container element slots) :
    validateGroup p container r.trim f (f.trimSlot s) = validateGroup p container r f s := by
  cases f with
  | primitive => rfl
  | nested name repetition element =>
    cases repetition with
    | once | array => rfl
    | group counter least most =>
      cases s with
      | pad | int | bytes | struct => rfl
      | elems items =>
        simp only [Field.trimSlot, validateGroup, elems_trim]
        cases r.elems name with
        | error fault => rfl
        | ok found =>
          simp only [Except.map, checkAll_map, below element rfl, validateFields_trim]

private theorem validateGroups_trim {p : Protocol} {container : String} {r : Record} {fields : List Field}
    (below : ∀ f ∈ fields, ∀ element, f.element? = some element → ∀ container slots,
      validateSlots p container element (element.trimSlots slots) = validateSlots p container element slots)
    (slots : List Slot) :
    validateGroups p container r.trim fields (trimFieldSlots fields slots) =
      validateGroups p container r fields slots := by
  induction fields generalizing slots with
  | nil => rfl
  | cons f fs ih =>
    cases slots with
    | nil => rfl
    | cons s ss =>
      have here : validateGroup p container r.trim f (f.trimSlot s) = validateGroup p container r f s :=
        validateGroup_trim (below f (by simp))
      have others := ih (fun g later => below g (by simp [later])) ss
      simp only [trimFieldSlots, validateGroups, here, others]

private theorem validateSlots_trimSlots (p : Protocol) (l : Layout) :
    ∀ container slots, validateSlots p container l (l.trimSlots slots) = validateSlots p container l slots := by
  induction l using Layout.nesting with
  | step name message size fields ih =>
    intro container slots
    have own := validateFields_trim container ⟨.mk name message size fields, slots⟩
      (p.mandatoryFields container)
    have groups : validateGroups p container (Record.trim ⟨.mk name message size fields, slots⟩) fields
        (trimFieldSlots fields slots) =
          validateGroups p container ⟨.mk name message size fields, slots⟩ fields slots :=
      validateGroups_trim ih slots
    simp only [Record.trim, Layout.trimSlots] at own groups
    simp only [Layout.trimSlots, validateSlots, own, groups]

private theorem validate_trim (p : Protocol) (r : Record) : p.validate r.trim = p.validate r := by
  unfold validate
  have whole := validateSlots_trimSlots p r.layout r.name r.slots
  have layout : r.trim.layout = r.layout := rfl
  have slots : r.trim.slots = r.layout.trimSlots r.slots := rfl
  have name : r.trim.name = r.name := rfl
  rw [layout, slots, name, whole]

end Protocol

private theorem Field.exists_bytes_of_kindWord {f : Field} (word : f.kindWord = "bytes") :
    ∃ name type size initial, f = .primitive name type size (.bytes initial) := by
  cases f with
  | primitive name type size kind =>
    cases kind with
    | bytes initial => exact ⟨name, type, size, initial, rfl⟩
    | int | pad | varBytes => simp [kindWord] at word
  | nested name repetition element =>
    cases repetition with
    | once | array | group => simp [kindWord] at word

private theorem Field.data_trimSlot (name type : String) (size : Nat) (initial : Option Bytes) (s : Slot) :
    ((Field.primitive name type size (.bytes initial)).trimSlot s).data =
      Text.dropTrailing (· == 0) s.data := by
  cases s with
  | bytes data => rfl
  | pad | int | struct | elems => rfl

namespace Record

variable {r : Record} {path name type : String} {size : Nat}

private theorem locate_of_fieldInfo {f : Field} (info : r.fieldInfo path = .ok f) :
    ∃ place s, r.locate path = .ok (place, f, s) := by
  obtain ⟨⟨place, g, s⟩, located, same⟩ := map_eq_ok.mp info
  obtain rfl : g = f := same
  exact ⟨place, s, located⟩

private theorem bytes_trim {initial : Option Bytes}
    (info : r.fieldInfo path = .ok (.primitive name type size (.bytes initial))) :
    r.trim.bytes path = r.text path := by
  obtain ⟨place, s, located⟩ := locate_of_fieldInfo info
  have after := r.locate_trim path
  rw [located] at after
  simp only [text, bytes, locateBytes, after, located, Except.map, Field.data_trimSlot]

private theorem bytes_trim_of_varBytes {counter : Nat}
    (info : r.fieldInfo path = .ok (.primitive name type size (.varBytes counter))) :
    r.trim.bytes path = r.bytes path := by
  obtain ⟨place, s, located⟩ := locate_of_fieldInfo info
  have after := r.locate_trim path
  rw [located] at after
  simp only [bytes, locateBytes, after, located, Except.map, Field.trimSlot]

private theorem trim_of_no_fields (bare : r.layout.fields = []) : r.trim = r := by
  unfold trim
  rw [Layout.trimSlots_eq, bare]
  rfl

section Compiled

variable {document : Bytes} {m : Model} {t : Table} {l : Layout}

/-- Trimming is idempotent, and only the bytes of fixed byte strings show it, which are their texts then. A
record that packs packs to the same bytes once it has been trimmed; its encoded size and its text are the
same, and for every protocol it is as complete a message as before. -/
theorem trim_unobservable (parsed : Model.parse document = .ok m) (compiled : Table.compile m = .ok t)
    (listed : l ∈ t.layouts) (reached : Reachable l r) :
    r.trim.trim = r.trim ∧
    (∀ b, r.pack = .ok b → r.trim.pack = .ok b) ∧
    r.trim.encodedSize = r.encodedSize ∧
    r.trim.format = r.format ∧
    (∀ p : Protocol, p.validate r.trim = p.validate r) ∧
    (∀ path name type size initial, r.fieldInfo path = .ok (.primitive name type size (.bytes initial)) →
      r.trim.bytes path = r.text path) ∧
    ∀ path name type size counter, r.fieldInfo path = .ok (.primitive name type size (.varBytes counter)) →
      r.trim.bytes path = r.bytes path := by
  have accepted := Model.isAccepted_of_parse parsed
  obtain ⟨rfl, shape⟩ := reached.hasShape
  have sound := Table.sound_of_compile accepted compiled r.layout listed
  refine ⟨r.trim_trim, ?_, r.encodedSize_trim, r.format_trim, fun p => p.validate_trim r, ?_, ?_⟩
  · intro b packed
    by_cases bare : r.layout.fields = []
    · rw [trim_of_no_fields bare, packed]
    · exact pack_trim sound (Table.anchored_of_compile accepted compiled _ listed bare) shape packed
  · intro path name type size initial info
    exact bytes_trim info
  · intro path name type size counter info
    exact bytes_trim_of_varBytes info

/-- A schema with one message, which carries a text of a fixed size. -/
def memoDocument : Bytes := List.flatMap Text.encodeUtf8
  ["<Model><DataTypes><DataType name='Len' rootType='int' size='4' minValue='0'/>",
    "<DataType name='Id' rootType='int' size='2'/><DataType name='T' rootType='String' size='4'/></DataTypes>",
    "<Structures><Structure name='MessageHeaderComp' type='Component'>",
    "<Member name='BodyLen' type='Len' cardinality='1'/>",
    "<Member name='TemplateID' type='Id' cardinality='1'/></Structure>",
    "<Structure name='Memo' type='Message' numericID='7'>",
    "<Member name='Header' type='MessageHeaderComp' cardinality='1'/>",
    "<Member name='T' type='T' cardinality='1'/></Structure></Structures></Model>"]

def memoBytes : Bytes := [10, 0, 0, 0, 7, 0, 65, 0, 66, 0]

theorem memo_trim_unobservable : ∃ m t l r, Model.parse memoDocument = .ok m ∧
    Table.compile m = .ok t ∧ l ∈ t.layouts ∧ Reachable l r ∧ l.isMessage = true ∧
      r.bytes "T" = .ok [65, 0, 66, 0] ∧ r.trim.bytes "T" = .ok [65, 0, 66] ∧ r.trim.trim = r.trim ∧
        r.pack = .ok memoBytes ∧ r.trim.pack = .ok memoBytes ∧ r.trim.encodedSize = r.encodedSize ∧
          r.trim.format = r.format ∧ ∀ p : Protocol, p.validate r.trim = p.validate r := by
  have run : ((layoutsOf memoDocument).any fun l => l.isMessage &&
      (Record.unpack l memoBytes 0).toOption.any fun answer =>
        (answer.1.bytes "T").toOption == some [65, 0, 66, 0] && answer.1.pack.toOption == some memoBytes &&
          (answer.1.fieldInfo "T").toOption.any fun f => f.kindWord == "bytes") = true := by
    rw [memoDocument, Text.encodeUtf8_eq]
    decide +kernel
  obtain ⟨m, t, l, parsed, compiled, listed, checked⟩ := exists_of_any_layoutsOf run
  simp only [Bool.and_eq_true, beq_iff_eq, Option.any_eq_true, toOption_eq_some] at checked
  obtain ⟨message, ⟨r, stop⟩, unpacked, ⟨held, packed⟩, f, info, kind⟩ := checked
  have reached : Reachable l r := .unpack unpacked
  obtain ⟨twice, packs, size, format, validate, fixed, _⟩ := trim_unobservable parsed compiled listed reached
  have trimmed : r.trim.bytes "T" = .ok [65, 0, 66] := by
    obtain ⟨_, _, _, _, rfl⟩ := Field.exists_bytes_of_kindWord kind
    rw [fixed "T" _ _ _ _ info, text, held]
    rfl
  exact ⟨m, t, l, r, parsed, compiled, listed, reached, message, held, trimmed, twice, packed,
    packs memoBytes packed, size, format, validate⟩

end Compiled

end Record

end TradeWire
