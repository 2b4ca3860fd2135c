import TradeWire.Proofs.Registry.Dispatch
import TradeWire.Protocol.Basic

/-! What a protocol holds was compiled from the model that its document gives. -/

set_option autoImplicit false
set_option relaxedAutoImplicit false

namespace TradeWire.Protocol

variable {document : Bytes} {p : Protocol}

theorem steps_of_parse (parsed : Protocol.parse document = .ok p) :
    Model.parse document = .ok p.model ∧ Table.compile p.model = .ok p.table ∧
      Registry.ofTable p.table = .ok p.registry ∧ Flows.ofModel p.model = .ok p.flows ∧
        p.mandatory = mandatoryOf p.model := by
  unfold Protocol.parse at parsed
  split at parsed
  · cases parsed
  · rename_i m read
    unfold Protocol.ofModel at parsed
    split at parsed
    · cases parsed
    · rename_i table compiled
      unfold Protocol.ofTable at parsed
      split at parsed
      · cases parsed
      · rename_i registry registered
        split at parsed
        · cases parsed
        · rename_i flows reflected
          cases parsed
          obtain ⟨same, _⟩ := Table.isSound_of_compile compiled
          rw [same] at reflected
          rw [Protocol.model, same]
          exact ⟨read, compiled, registered, reflected, rfl⟩

theorem parse_eq_ok (parsed : Protocol.parse document = .ok p) :
    Model.parse document = .ok p.model ∧ Table.compile p.model = .ok p.table ∧
      Registry.ofTable p.table = .ok p.registry := by
  obtain ⟨read, compiled, registered, _⟩ := steps_of_parse parsed
  exact ⟨read, compiled, registered⟩

theorem isSound_of_parse (parsed : Protocol.parse document = .ok p) :
    p.registry.IsSound p.model p.table := by
  obtain ⟨read, compiled, registered⟩ := Protocol.parse_eq_ok parsed
  exact Registry.isSound_of_ofTable read compiled registered

/-- A declared message is found in the registry by the id of its structure. -/
theorem lookup_of_declares (parsed : Protocol.parse document = .ok p) {s : Schema.Structure}
    (declared : p.model.Declares s) : ∃ l, p.registry.lookup s.templateId = .ok l ∧ l.name = s.name := by
  have sound := isSound_of_parse parsed
  obtain ⟨l, named, _⟩ := sound.numbered s declared.1 declared.2
  have found := sound.lookup_eq_ok_iff.mpr ⟨s, declared, rfl, named⟩
  exact ⟨l, found, by simpa using List.find?_some named⟩

end TradeWire.Protocol
