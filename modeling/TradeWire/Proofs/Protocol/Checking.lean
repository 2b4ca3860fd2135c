import TradeWire.Protocol.Validate

/-! Checks along a list pass when each does; else the first one that fails says why. -/

set_option autoImplicit false
set_option relaxedAutoImplicit false

namespace TradeWire.Protocol

variable {α β ε : Type} {check : α → Except ε Unit} {items : List α}

theorem checkAll_map (check : β → Except ε Unit) (g : α → β) (items : List α) :
    checkAll check (items.map g) = checkAll (fun item => check (g item)) items := by
  induction items with
  | nil => rfl
  | cons item rest ih => simp only [List.map_cons, checkAll, ih]

theorem checkAll_congr {other : α → Except ε Unit} (same : ∀ item ∈ items, check item = other item) :
    checkAll check items = checkAll other items := by
  induction items with
  | nil => rfl
  | cons item rest ih =>
    obtain ⟨here, later⟩ := List.forall_mem_cons.mp same
    simp only [checkAll, here, ih later]

theorem checkAll_append (check : α → Except ε Unit) (first second : List α) :
    checkAll check (first ++ second) =
      match checkAll check first with
      | .error fault => .error fault
      | .ok () => checkAll check second := by
  induction first with
  | nil => rfl
  | cons item rest ih =>
    simp only [List.cons_append, checkAll, ih]
    cases check item with
    | error fault => rfl
    | ok => rfl

/-- Where each check either passes for good items or fails for bad ones, all items are good, or the first one
that is not is reported. -/
theorem checkAll_cases {good : α → Prop} {bad : α → ε → Prop}
    (each : ∀ item ∈ items,
      (check item = .ok () ∧ good item) ∨ ∃ fault, check item = .error fault ∧ bad item fault) :
    (checkAll check items = .ok () ∧ ∀ item ∈ items, good item) ∨
      ∃ before item after fault, items = before ++ item :: after ∧ checkAll check items = .error fault ∧
        bad item fault ∧ ∀ earlier ∈ before, good earlier := by
  induction items with
  | nil => exact .inl ⟨rfl, by simp⟩
  | cons first rest ih =>
    obtain ⟨here, later⟩ := List.forall_mem_cons.mp each
    rcases here with ⟨passed, fine⟩ | ⟨fault, failed, poor⟩
    · have onward : checkAll check (first :: rest) = checkAll check rest := by rw [checkAll, passed]
      rcases ih later with ⟨done, all⟩ | ⟨before, item, after, fault, rfl, failed, poor, all⟩
      · exact .inl ⟨onward.trans done, List.forall_mem_cons.mpr ⟨fine, all⟩⟩
      · exact .inr ⟨first :: before, item, after, fault, rfl, onward.trans failed, poor,
          List.forall_mem_cons.mpr ⟨fine, all⟩⟩
    · exact .inr ⟨[], first, rest, fault, rfl, by rw [checkAll, failed], poor, by simp⟩

theorem validateFields_eq_checkAll (container : String) (r : Record) (names : List String) :
    validateFields container r names = checkAll (validateField container r) names := by
  induction names with
  | nil => rfl
  | cons name rest ih =>
    rw [validateFields, checkAll, ih]
    cases validateField container r name with
    | error fault => rfl
    | ok => rfl

end TradeWire.Protocol
