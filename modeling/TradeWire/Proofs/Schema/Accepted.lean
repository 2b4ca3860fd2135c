import TradeWire.Proofs.Schema.Reading

/-! What an accepted schema document guarantees of its integer types and names. -/

set_option autoImplicit false
set_option relaxedAutoImplicit false

namespace TradeWire

open Schema
open Markup (Element)

/-- What compiling relies on in a model. -/
structure Model.IsAccepted (m : Model) : Prop where
  widths : ∀ t ∈ m.types, t.isInteger = true → t.size ∈ integerWidths
  members : ∀ s ∈ m.structures, (s.members.map (·.name)).Nodup
  structures : (m.structures.map (·.name)).Nodup
  apart : ∀ s ∈ m.structures, m.type? s.name = none

namespace Model.ReadFrom

variable {root : Element} {declared : List Structure} {m : Model}

/-- Each structure of the model is one that was read, with its members resolved. -/
theorem exists_declared (reads : Model.ReadFrom root declared m) {s : Structure} (member : s ∈ m.structures) :
    ∃ e, ∃ old ∈ declared, ReadsStructure e old ∧ resolveStructure m.types declared old = .ok s := by
  obtain ⟨old, known, resolved⟩ := exists_of_forall₂_right reads.resolved member
  obtain ⟨e, _, source⟩ := exists_of_forall₂_right reads.structures.each known
  exact ⟨e, old, known, source, resolved⟩

theorem structureNames (reads : Model.ReadFrom root declared m) :
    m.structures.map (·.name) = declared.map (·.name) := by
  refine map_eq_of_forall₂ reads.resolved ?_
  intro old s resolved
  obtain ⟨_, rfl, _⟩ := resolveStructure_eq_ok resolved
  rfl

theorem apart (reads : Model.ReadFrom root declared m) {s : Structure} (member : s ∈ m.structures)
    {t : DataType} (listed : t ∈ m.types) : t.name ≠ s.name := by
  obtain ⟨_, old, known, _, resolved⟩ := reads.exists_declared member
  obtain ⟨_, rfl, _⟩ := resolveStructure_eq_ok resolved
  exact reads.structures.apart old known t listed

theorem name_ne_empty (reads : Model.ReadFrom root declared m) {s : Structure} (member : s ∈ m.structures) :
    s.name ≠ "" := by
  obtain ⟨_, old, _, source, resolved⟩ := reads.exists_declared member
  obtain ⟨_, rfl, _⟩ := resolveStructure_eq_ok resolved
  exact source.named

private theorem memberNames_nodup (reads : Model.ReadFrom root declared m) {s : Structure}
    (member : s ∈ m.structures) : (s.members.map (·.name)).Nodup := by
  obtain ⟨_, old, _, source, resolved⟩ := reads.exists_declared member
  rw [resolveStructure_memberNames resolved]
  exact source.members.distinct

theorem isAccepted (reads : Model.ReadFrom root declared m) : m.IsAccepted := by
  refine ⟨?_, fun _ => reads.memberNames_nodup, ?_, ?_⟩
  · intro t listed
    obtain ⟨_, _, source⟩ := exists_of_forall₂_right reads.types.each listed
    exact source.width
  · rw [reads.structureNames]
    exact reads.structures.distinct
  · intro s member
    refine List.find?_eq_none.mpr ?_
    intro t listed
    simpa using reads.apart member listed

end Model.ReadFrom

theorem Model.isAccepted_of_parse {document : Bytes} {m : Model} (read : Model.parse document = .ok m) :
    m.IsAccepted := by
  obtain ⟨_, _, _, reads⟩ := Model.readFrom_of_parse read
  exact reads.isAccepted

end TradeWire
