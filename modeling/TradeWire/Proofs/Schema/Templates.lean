import TradeWire.Proofs.Data.Sorting
import TradeWire.Proofs.Number.Words
import TradeWire.Proofs.Schema.Accepted

/-! The messages of an accepted schema have different positive template ids. -/

set_option autoImplicit false
set_option relaxedAutoImplicit false

namespace TradeWire

open Schema
open Markup (Element)

private theorem Literal.le_maxSigned_of_signed {negative : Bool} {magnitude : Except Literal.Fault Nat} {n : Int}
    (read : Literal.signed negative magnitude = .ok n) : n ≤ Word.maxSigned := by
  unfold Literal.signed at read
  unfold Word.maxSigned
  split at read
  · cases read
  · split at read
    · split at read
      · cases read
        omega
      · cases read
    · split at read
      · cases read
        omega
      · cases read

structure Schema.AreNumbered (structures : List Structure) : Prop where
  distinct : ((structures.filter (·.isMessage)).map (·.templateId)).Nodup
  bounds : ∀ s ∈ structures, s.isMessage = true →
    0 < s.templateId ∧ (s.templateId : Int) ≤ Word.maxSigned

namespace Schema

private theorem requiredNat?_le {raw : String} {n : Nat} (read : requiredNat? raw = some n) :
    (n : Int) ≤ Word.maxSigned := by
  unfold requiredNat? at read
  split at read
  · rename_i value decimal
    split at read
    · cases read
      unfold Literal.decimal at decimal
      simp only at decimal
      split at decimal
      · cases decimal
      · have bound := Literal.le_maxSigned_of_signed decimal
        omega
    · cases read
  · cases read

theorem optionalNat?_le {raw : String} {n : Nat} (read : optionalNat? raw = some n) :
    (n : Int) ≤ Word.maxSigned := by
  unfold optionalNat? at read
  simp only at read
  split at read
  · cases read
    decide
  · rename_i written
    have required : requiredNat? raw = some n := by simpa only [requiredNat?] using read
    exact requiredNat?_le required

private theorem isStableSort_templatesOf (structures : List Structure) :
    IsStableSort (·.id) ((structures.filter (·.isMessage)).map fun s => ⟨s.templateId, s.name⟩)
      (templatesOf structures) := by
  refine isStableSort_sortBy ?_ _
  intro a b
  exact decide_eq_true_iff

theorem mem_templatesOf {structures : List Structure} {template : Template} :
    template ∈ templatesOf structures ↔
      ∃ s ∈ structures, s.isMessage = true ∧ ⟨s.templateId, s.name⟩ = template := by
  rw [(isStableSort_templatesOf structures).perm.mem_iff]
  simp [and_assoc]

theorem AreNumbered.ascending {structures : List Structure} (good : AreNumbered structures) :
    (templatesOf structures).Pairwise fun a b => a.id < b.id := by
  have sorted := isStableSort_templatesOf structures
  have ids : ((templatesOf structures).map (·.id)).Nodup := by
    refine (sorted.perm.map (·.id)).nodup_iff.mpr ?_
    rw [List.map_map]
    exact good.distinct
  have apart : (templatesOf structures).Pairwise fun a b => a.id ≠ b.id := List.pairwise_map.mp ids
  refine (sorted.ascending.and apart).imp ?_
  intro a b both
  omega

end Schema

/-- The messages that a document declares keep their numbers when the structures are resolved. -/
theorem Model.ReadFrom.areNumbered {root : Element} {declared : List Structure} {m : Model}
    (reads : Model.ReadFrom root declared m) : AreNumbered m.structures := by
  have numbers : (m.structures.filter (·.isMessage)).map (·.templateId) =
      (declared.filter (·.isMessage)).map (·.templateId) := by
    have kinds : m.structures.map (fun s => (s.isMessage, s.templateId)) =
        declared.map fun s => (s.isMessage, s.templateId) := by
      refine map_eq_of_forall₂ reads.resolved ?_
      intro old s resolved
      obtain ⟨_, rfl, _⟩ := resolveStructure_eq_ok resolved
      rfl
    have kept := congrArg (fun pairs => (pairs.filter (·.1)).map (·.2)) kinds
    simpa [List.filter_map, Function.comp_def] using kept
  constructor
  · rw [numbers]
    exact reads.structures.numbers
  · intro s member message
    obtain ⟨_, old, _, source, resolved⟩ := reads.exists_declared member
    obtain ⟨_, rfl, _⟩ := resolveStructure_eq_ok resolved
    obtain ⟨number, positive⟩ := source.numbered message
    exact ⟨positive, requiredNat?_le number⟩

/-- The messages of an accepted schema are numbered, and its templates list them. -/
theorem Model.areNumbered_of_parse {document : Bytes} {m : Model} (read : Model.parse document = .ok m) :
    m.templates = templatesOf m.structures ∧ AreNumbered m.structures := by
  obtain ⟨_, _, _, reads⟩ := Model.readFrom_of_parse read
  exact ⟨reads.templates, reads.areNumbered⟩

end TradeWire
