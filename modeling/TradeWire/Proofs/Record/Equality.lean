import TradeWire.Record.Access

/-! Records are equal when they differ in nothing but the symbols that they remember. -/

set_option autoImplicit false
set_option relaxedAutoImplicit false

namespace TradeWire

mutual

/-- A slot without the symbols that it remembers, at any depth. -/
def Slot.nameless : Slot → Slot
  | .pad => .pad
  | .int raw _ => .int raw ""
  | .bytes data => .bytes data
  | .struct slots => .struct (namelessSlots slots)
  | .elems items => .elems (namelessItems items)

def namelessSlots : List Slot → List Slot
  | [] => []
  | s :: ss => s.nameless :: namelessSlots ss

def namelessItems : List (List Slot) → List (List Slot)
  | [] => []
  | slots :: items => namelessSlots slots :: namelessItems items

end

mutual

private theorem Slot.same_iff (a b : Slot) : a.same b = true ↔ a.nameless = b.nameless := by
  cases a with
  | pad => cases b <;> simp [Slot.same, Slot.nameless]
  | int raw symbol => cases b <;> simp [Slot.same, Slot.nameless]
  | bytes data => cases b <;> simp [Slot.same, Slot.nameless]
  | struct slots =>
    cases b with
    | struct others => simpa [Slot.same, Slot.nameless] using sameSlots_iff slots others
    | pad | int | bytes | elems => simp [Slot.same, Slot.nameless]
  | elems items =>
    cases b with
    | elems others => simpa [Slot.same, Slot.nameless] using sameItems_iff items others
    | pad | int | bytes | struct => simp [Slot.same, Slot.nameless]

private theorem sameSlots_iff (as bs : List Slot) : sameSlots as bs = true ↔ namelessSlots as = namelessSlots bs := by
  cases as with
  | nil => cases bs <;> simp [sameSlots, namelessSlots]
  | cons a as =>
    cases bs with
    | nil => simp [sameSlots, namelessSlots]
    | cons b bs => simp [sameSlots, namelessSlots, a.same_iff b, sameSlots_iff as bs]

private theorem sameItems_iff (as bs : List (List Slot)) :
    sameItems as bs = true ↔ namelessItems as = namelessItems bs := by
  cases as with
  | nil => cases bs <;> simp [sameItems, namelessItems]
  | cons a as =>
    cases bs with
    | nil => simp [sameItems, namelessItems]
    | cons b bs => simp [sameItems, namelessItems, sameSlots_iff a b, sameItems_iff as bs]

end

theorem Slot.raw_eq_of_same {a b : Slot} (same : a.same b = true) : a.raw = b.raw ∧ a.data = b.data := by
  have raw : ∀ s : Slot, s.nameless.raw = s.raw ∧ s.nameless.data = s.data := by
    intro s
    cases s <;> exact ⟨rfl, rfl⟩
  rw [same_iff] at same
  rw [← (raw a).1, ← (raw a).2, ← (raw b).1, ← (raw b).2, same]
  exact ⟨rfl, rfl⟩

/-- Equal records are of one structure and hold the same raw values, whatever symbols they remember. -/
theorem Record.equal_iff {r other : Record} : r.equal other = true ↔
    r.layout.name = other.layout.name ∧ namelessSlots r.slots = namelessSlots other.slots := by
  rw [equal, Bool.and_eq_true, beq_iff_eq, sameSlots_iff]

end TradeWire
