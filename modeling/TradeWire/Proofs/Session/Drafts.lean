import TradeWire.Proofs.Registry.Payloads
import TradeWire.Proofs.Session.Stamps
import TradeWire.Session.Serve

/-! Messages before they are sent: settling a draft makes its header tell the truth. -/

set_option autoImplicit false
set_option relaxedAutoImplicit false

namespace TradeWire

/-- A message of the registry on its way out. -/
structure Registry.IsDraft (g : Registry) (r : Record) : Prop where
  member : r.layout ∈ g.messages
  reached : Record.Reachable r.layout r
  numbered : r.IsNumbered
  measured : r.layout.size.isStatic = true →
    r.headerRaw? (·.bodyLen) = some (Word.ofInt r.layout.size.fixed)

/-- What a session relies on: every message of its registry can be sent. -/
structure Registry.IsSendable (g : Registry) (m : Model) (t : Table) : Prop where
  sound : g.IsSound m t
  sendable : ∀ l ∈ g.messages, l.IsSendable

/-- Every message of the registry has its header where it says. -/
def Registry.IsHeaded (g : Registry) : Prop := ∀ l ∈ g.messages, l.IsHeaded

theorem Registry.IsSendable.headed {g : Registry} {m : Model} {t : Table} (good : g.IsSendable m t) :
    g.IsHeaded := fun l member => (good.sendable l member).header

namespace Record

variable {r next : Record}

private theorem headerRaw?_of_message {info : MessageInfo} (message : r.layout.message = some info)
    (which : HeaderLink → Nat) :
    r.headerRaw? which = some (nestedRaw r.slots info.header.field (which info.header)) := by
  simp [headerRaw?, message]

theorem encodedSize_setNestedRaw (l : Layout) (slots : List Slot) (i j : Nat) (raw : UInt64) :
    (Record.mk l (setNestedRaw slots i j raw)).encodedSize = (Record.mk l slots).encodedSize :=
  encodedSize_congr fun k => rawAt_setNestedRaw slots i j k raw

theorem updateLength_of_static (static : r.layout.size.isStatic = true) : r.updateLength = r := by
  unfold updateLength
  split
  · rfl
  · rw [if_pos static]

theorem updateLength_of_message {info : MessageInfo} (message : r.layout.message = some info)
    (varies : r.layout.size.isStatic = false) :
    r.updateLength =
      ⟨r.layout, setNestedRaw r.slots info.header.field info.header.bodyLen (Word.ofInt r.encodedSize)⟩ := by
  simp [updateLength, message, varies]

/-- A record whose length has been updated announces it, if its size was not constant. -/
theorem isMeasured_updateLength {info : MessageInfo} (shape : r.HasShape)
    (message : r.layout.message = some info)
    (at_ : r.layout.NumberAt info.header.field info.header.bodyLen "BodyLen")
    (measured : r.layout.size.isStatic = true →
      r.headerRaw? (·.bodyLen) = some (Word.ofInt r.layout.size.fixed)) : r.updateLength.IsMeasured := by
  cases static : r.layout.size.isStatic with
  | true =>
    rw [updateLength_of_static static, IsMeasured, measured static, encodedSize, if_pos static]
  | false =>
    obtain ⟨inner, old, symbol, there, here⟩ := at_.slot shape
    rw [updateLength_of_message message static, IsMeasured, encodedSize_setNestedRaw]
    simp [headerRaw?, message, nestedRaw_setNestedRaw there here]

private theorem KeepsNumbers.isNumbered {except : List String} (keeps : KeepsNumbers except r next)
    {info : MessageInfo} (message : r.layout.message = some info)
    (at_ : r.layout.NumberAt info.header.field info.header.templateId "TemplateID")
    (id : "TemplateID" ∉ except) (numbered : r.IsNumbered) : next.IsNumbered := by
  have also : next.layout.message = some info := keeps.layout ▸ message
  rw [IsNumbered, headerRaw?_of_message message] at numbered
  rw [IsNumbered, headerRaw?_of_message also, keeps.numbers _ _ _ at_ id, keeps.layout]
  exact numbered

/-- Settling a record changes no number in its structures but the body length. -/
theorem keepsNumbers_settled (shape : r.HasShape) (headed : r.layout.isMessage = true → r.layout.IsHeaded) :
    KeepsNumbers ["BodyLen"] r r.settled := by
  have synced : KeepsNumbers [] r r.syncCounters := keepsNumbers_syncCounters shape
  refine synced.trans ?_
  cases message : r.layout.message with
  | none =>
    have same : r.syncCounters.updateLength = r.syncCounters := by simp [updateLength, syncCounters, message]
    rw [settled, same]
    exact .refl _ _
  | some info =>
    obtain ⟨other, again, lengthAt, _⟩ := headed (by simp [Layout.isMessage, message])
    exact keepsNumbers_updateLength again lengthAt

end Record

/-- A fresh message has its own template id and announces the length of a fresh message. -/
theorem Layout.IsHeaded.new {l : Layout} (headed : l.IsHeaded) :
    (Record.new l).IsNumbered ∧
      (Record.new l).headerRaw? (·.bodyLen) = some (Word.ofInt l.initialBodyLen) := by
  obtain ⟨info, message, lengthAt, idAt⟩ := headed
  -- writing the id must not undo the length, so the two must not be one field
  have apart : info.header.templateId ≠ info.header.bodyLen := by
    intro same
    have clash : "TemplateID" = "BodyLen" := (same ▸ idAt).name_eq lengthAt
    exact absurd clash (by decide)
  have fresh := l.admits_initialFieldSlots
  obtain ⟨name, whole, size, fields⟩ := l
  obtain rfl : whole = some info := message
  simp only [Layout.fields] at fresh
  obtain ⟨_, _, _, lengthThere, lengthHere⟩ := lengthAt.slot fresh
  obtain ⟨_, _, _, idThere, idHere⟩ := idAt.slot
    (Layout.admits_setNestedRaw fresh info.header.field info.header.bodyLen
      (Word.ofInt (Layout.mk name (some info) size fields).initialBodyLen))
  constructor
  · rw [Record.IsNumbered, Record.headerRaw?_of_message rfl]
    simp only [Record.new, Layout.initialSlots]
    rw [nestedRaw_setNestedRaw idThere idHere]
    rfl
  · rw [Record.headerRaw?_of_message rfl]
    simp only [Record.new, Layout.initialSlots]
    rw [nestedRaw_setNestedRaw_of_ne fun both => apart both.2, nestedRaw_setNestedRaw lengthThere lengthHere]

namespace Registry.IsDraft

variable {g : Registry} {r next : Record}

theorem shape (draft : g.IsDraft r) : r.HasShape := draft.reached.hasShape.2

theorem new (headed : g.IsHeaded) {l : Layout} (member : l ∈ g.messages) : g.IsDraft (Record.new l) := by
  obtain ⟨numbered, announced⟩ := (headed l member).new
  refine ⟨member, .new, numbered, ?_⟩
  intro static
  have length : l.initialBodyLen = l.size.fixed := by
    simp only [Record.new, Size.isStatic, Bool.and_eq_true] at static
    simp [Layout.initialBodyLen, static.1]
  rw [announced, length]
  rfl

theorem keep (headed : g.IsHeaded) (draft : g.IsDraft r) {except : List String}
    (keeps : Record.KeepsNumbers except r next) (length : "BodyLen" ∉ except) (id : "TemplateID" ∉ except) :
    g.IsDraft next := by
  obtain ⟨info, message, lengthAt, idAt⟩ := headed _ draft.member
  have also : next.layout.message = some info := keeps.layout ▸ message
  refine ⟨keeps.layout ▸ draft.member, keeps.layout ▸ keeps.reachable _ draft.reached,
    keeps.isNumbered message idAt id draft.numbered, ?_⟩
  · intro static
    rw [keeps.layout] at static ⊢
    have measured := draft.measured static
    rw [Record.headerRaw?_of_message message] at measured
    rw [Record.headerRaw?_of_message also, keeps.numbers _ _ _ lengthAt length]
    exact measured

theorem keepStructures (headed : g.IsHeaded) (draft : g.IsDraft r)
    (leaves : Record.LeavesStructures r next) : g.IsDraft next :=
  draft.keep headed leaves.keepsNumbers (by simp) (by simp)

theorem settle (headed : g.IsHeaded) (draft : g.IsDraft r) : g.IsReady r.settled := by
  have synced := draft.keep headed (Record.keepsNumbers_syncCounters draft.shape) (by simp) (by simp)
  obtain ⟨info, message, lengthAt, idAt⟩ := headed _ synced.member
  have updated := Record.keepsNumbers_updateLength message lengthAt
  exact ⟨updated.layout ▸ synced.member, updated.layout ▸ updated.reachable _ synced.reached,
    updated.isNumbered message idAt (by decide) synced.numbered,
    Record.isMeasured_updateLength synced.shape message lengthAt synced.measured⟩

end Registry.IsDraft

end TradeWire
