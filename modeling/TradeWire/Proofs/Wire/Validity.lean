import TradeWire.Proofs.Wire.Members

/-! Exactly the valid instances have an encoding. -/

set_option autoImplicit false
set_option relaxedAutoImplicit false

namespace TradeWire

mutual

/-- Every value of an instance is one that its field can carry, at every depth. -/
def Layout.IsValid : Layout → List Slot → Prop
  | .mk _ _ _ fields, slots => FieldsAreValid slots fields slots

/-- The values of several members; `all` are the slots of the whole instance. -/
def FieldsAreValid (all : List Slot) : List Field → List Slot → Prop
  | f :: fs, s :: ss => f.IsValid all s ∧ FieldsAreValid all fs ss
  | _, _ => True

/-- The value of one member, and its counter where it has one. -/
def Field.IsValid (all : List Slot) : Field → Slot → Prop
  | .primitive _ _ size (.int form), s => Word.IsInRange s.raw size form.isSigned
  | .primitive _ _ _ .pad, _ => True
  | .primitive _ _ size (.bytes _), s => s.data.length ≤ size
  | .primitive _ _ size (.varBytes counter), s =>
    s.data.length ≤ (rawAt all counter).toNat ∧ (rawAt all counter).toNat ≤ size
  | .nested _ .once element, .struct slots => element.IsValid slots
  | .nested _ (.array count) element, .elems items =>
    items.length = count ∧ ∀ item ∈ items, element.IsValid item
  | .nested _ (.group counter least most) element, .elems items =>
    items.length = (rawAt all counter).toNat ∧ least ≤ (rawAt all counter).toNat ∧
      (rawAt all counter).toNat ≤ most ∧ ∀ item ∈ items, element.IsValid item
  | .nested .., _ => True

end

/-- The fault lies with the buffer and not with the record. -/
def PackError.Cause.blamesBuffer : PackError.Cause → Bool
  | truncated .. | outside => true
  | _ => false

private theorem joined_isOk_iff {contents : List (Except PackError Bytes)} :
    (∃ b, joined contents = .ok b) ↔ ∀ content ∈ contents, ∃ b, content = .ok b := by
  induction contents with
  | nil => simp [joined]
  | cons content rest ih =>
    rw [List.forall_mem_cons, ← ih]
    constructor
    · rintro ⟨b, whole⟩
      obtain ⟨x, y, first, others, _⟩ := joined_cons_eq_ok.mp whole
      exact ⟨⟨x, first⟩, ⟨y, others⟩⟩
    · rintro ⟨⟨x, first⟩, ⟨y, others⟩⟩
      exact ⟨x ++ y, joined_cons_eq_ok.mpr ⟨x, y, first, others, rfl⟩⟩

private theorem mem_of_joined_eq_error {contents : List (Except PackError Bytes)} {fault : PackError}
    (failed : joined contents = .error fault) : .error fault ∈ contents := by
  induction contents with
  | nil => cases failed
  | cons content rest ih =>
    cases content with
    | error first =>
      cases failed
      exact List.mem_cons_self
    | ok data =>
      cases others : joined rest with
      | ok more => simp [joined, others, Except.map] at failed
      | error later =>
        simp only [joined, others, Except.map, Except.error.injEq] at failed
        exact List.mem_cons_of_mem _ (ih (failed ▸ others))

private theorem joined_items_isOk_iff {element : Layout} {items : List (List Slot)}
    (shape : ∀ item ∈ items, element.Admits item)
    (below : ∀ slots, element.Admits slots → ((∃ b, element.encode slots = .ok b) ↔ element.IsValid slots)) :
    (∃ b, joined (items.map element.encode) = .ok b) ↔ ∀ item ∈ items, element.IsValid item := by
  rw [joined_isOk_iff, List.forall_mem_map]
  exact forall₂_congr fun item member => below item (shape item member)

private theorem Field.encode_isOk_iff {f : Field} (field : f.Sound) {s : Slot} (shape : f.Admits s)
    (below : ∀ element, f.element? = some element → ∀ slots, element.Admits slots →
      ((∃ b, element.encode slots = .ok b) ↔ element.IsValid slots)) (owner : String) (all : List Slot) :
    (∃ b, f.encode owner all s = .ok b) ↔ f.IsValid all s := by
  cases f with
  | primitive name type size kind =>
    cases kind with
    | int form =>
      obtain ⟨positive, width⟩ := field.width name type size form rfl
      rw [Field.IsValid, ← Word.fits_iff_isInRange positive width, Field.encode]
      split <;> simp_all
    | pad => simp [Field.encode, Field.IsValid]
    | bytes initial =>
      rw [Field.IsValid, Field.encode]
      split <;> simp_all
    | varBytes counter =>
      simp only [Field.IsValid, Field.encode]
      split
      · simp only [reduceCtorEq, exists_false, false_iff]
        omega
      · split
        · simp only [reduceCtorEq, exists_false, false_iff]
          omega
        · simp only [Except.ok.injEq, exists_eq', true_iff]
          omega
  | nested name repetition element =>
    cases repetition with
    | once =>
      cases s with
      | struct slots =>
        simp only [Field.Admits] at shape
        simp only [Field.encode, Field.IsValid]
        exact below element rfl slots shape
      | pad | int | bytes | elems => simp [Field.Admits] at shape
    | array count =>
      cases s with
      | elems items =>
        simp only [Field.Admits] at shape
        have each := joined_items_isOk_iff shape (below element rfl)
        simp only [Field.encode, Field.IsValid, ← each]
        split <;> simp_all
      | pad | int | bytes | struct => simp [Field.Admits] at shape
    | group counter least most =>
      cases s with
      | elems items =>
        simp only [Field.Admits] at shape
        have each := joined_items_isOk_iff shape (below element rfl)
        simp only [Field.encode, Field.IsValid, ← each]
        simp only [Bool.or_eq_true, decide_eq_true_eq, bne_iff_ne]
        split
        · simp only [reduceCtorEq, exists_false, false_iff]
          omega
        · split <;> simp_all
      | pad | int | bytes | struct => simp [Field.Admits] at shape

theorem Layout.Sound.encode_isOk_iff {l : Layout} (sound : l.Sound) {slots : List Slot}
    (shape : l.Admits slots) : (∃ b, l.encode slots = .ok b) ↔ l.IsValid slots := by
  induction sound generalizing slots with
  | @mk name message size fields widths counters sized static elements ih =>
    have whole : (Layout.mk name message size fields).Sound := .mk widths counters sized static elements
    have each : ∀ fs ss, List.Forall₂ Field.Admits fs ss → (∀ f ∈ fs, f ∈ fields) →
        ((∃ b, joined (encodings name slots fs ss) = .ok b) ↔ FieldsAreValid slots fs ss) := by
      intro fs ss kinds
      induction kinds with
      | nil => simp [encodings, joined, FieldsAreValid]
      | @cons f s fs ss first rest tail =>
        intro inside
        have member := inside f (by simp)
        have here := Field.encode_isOk_iff (whole.field member) first
          (fun element nested _ holds => ih f member element nested holds) name slots
        have others := tail fun g later => inside g (by simp [later])
        simp only [encodings, FieldsAreValid, ← here, ← others]
        simp only [joined_isOk_iff, List.forall_mem_cons]
    simp only [Layout.encode, Layout.IsValid]
    exact each fields slots (Layout.admits_iff.mp shape) fun _ => id

private theorem Field.not_blamesBuffer_of_encode {f : Field} {owner : String} {all : List Slot} {s : Slot}
    {fault : PackError}
    (below : ∀ element, f.element? = some element → ∀ slots fault,
      element.encode slots = .error fault → fault.cause.blamesBuffer = false)
    (failed : f.encode owner all s = .error fault) : fault.cause.blamesBuffer = false := by
  cases f with
  | primitive name type size kind =>
    cases kind with
    | pad => cases failed
    | int | bytes =>
      simp only [Field.encode] at failed
      split at failed
      · cases failed
      · cases failed
        rfl
    | varBytes counter =>
      simp only [Field.encode] at failed
      split at failed
      · cases failed
        rfl
      · split at failed
        · cases failed
          rfl
        · cases failed
  | nested name repetition element =>
    have one := below element rfl
    have several : ∀ items : List (List Slot), joined (items.map element.encode) = .error fault →
        fault.cause.blamesBuffer = false := by
      intro items wrong
      obtain ⟨slots, _, same⟩ := List.mem_map.mp (mem_of_joined_eq_error wrong)
      exact one slots fault same
    cases repetition with
    | once =>
      cases s with
      | struct slots => exact one slots fault failed
      | pad | int | bytes | elems => cases failed
    | array count =>
      cases s with
      | elems items =>
        simp only [Field.encode] at failed
        split at failed
        · cases failed
          rfl
        · exact several items failed
      | pad | int | bytes | struct => cases failed
    | group counter least most =>
      cases s with
      | elems items =>
        simp only [Field.encode] at failed
        split at failed
        · cases failed
          rfl
        · split at failed
          · cases failed
            rfl
          · exact several items failed
      | pad | int | bytes | struct => cases failed

private theorem exists_of_mem_encodings {owner : String} {all : List Slot} {fields : List Field}
    {slots : List Slot} {content : Except PackError Bytes}
    (member : content ∈ encodings owner all fields slots) :
    ∃ f ∈ fields, ∃ s, f.encode owner all s = content := by
  induction fields generalizing slots with
  | nil => simp [encodings] at member
  | cons f fs ih =>
    cases slots with
    | nil => simp [encodings] at member
    | cons s ss =>
      simp only [encodings, List.mem_cons] at member
      rcases member with rfl | later
      · exact ⟨f, by simp, s, rfl⟩
      · obtain ⟨g, inside, t, same⟩ := ih later
        exact ⟨g, by simp [inside], t, same⟩

/-- When an instance cannot be encoded, one of its values is the reason. -/
theorem Layout.not_blamesBuffer_of_encode (l : Layout) :
    ∀ slots fault, l.encode slots = .error fault → fault.cause.blamesBuffer = false := by
  induction l using Layout.nesting with
  | step name message size fields ih =>
    intro slots fault failed
    simp only [Layout.encode] at failed
    obtain ⟨f, member, s, wrong⟩ := exists_of_mem_encodings (mem_of_joined_eq_error failed)
    exact Field.not_blamesBuffer_of_encode (ih f member) wrong

end TradeWire
