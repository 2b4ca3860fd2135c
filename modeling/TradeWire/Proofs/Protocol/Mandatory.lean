import TradeWire.Proofs.Protocol.Compiled
import TradeWire.Proofs.Schema.Usages
import TradeWire.Proofs.Text.ByteOrder
import TradeWire.Protocol.Validate

/-! The mandatory fields of a container, in the order of the bytes of their names. -/

set_option autoImplicit false
set_option relaxedAutoImplicit false

namespace TradeWire

open Schema

private theorem Text.isAtMost_iff {a b : String} : Text.isAtMost a b = true ↔ a ≤ b := by
  have order : compare a b = compareOfLessAndEq a b := rfl
  rw [isAtMost, order, ← String.not_lt]
  unfold compareOfLessAndEq
  by_cases smaller : a < b
  · simp [smaller, String.lt_asymm smaller]
  · by_cases same : a = b
    · simp [same]
    · have greater : b < a := lt_of_le_of_ne (String.not_lt.mp smaller) (Ne.symm same)
      simp [smaller, same, greater]

private theorem lookup_map_of_mem {κ ν : Type} [BEq κ] [LawfulBEq κ] {keys : List κ} {key : κ} (known : key ∈ keys)
    (value : κ → ν) : (keys.map fun key => (key, value key)).lookup key = some (value key) := by
  induction keys with
  | nil => cases known
  | cons first rest ih =>
    rw [List.map_cons]
    by_cases same : key = first
    · rw [same, List.lookup_cons_self]
    · rw [lookup_cons_of_ne same]
      exact ih (List.mem_of_ne_of_mem same known)

private theorem lookup_map_of_not_mem {κ ν : Type} [BEq κ] [LawfulBEq κ] {keys : List κ} {key : κ}
    (unknown : key ∉ keys) (value : κ → ν) : (keys.map fun key => (key, value key)).lookup key = none :=
  lookup_of_not_mem (by simpa using unknown)

namespace Protocol

/-- The usages of the model make a field of a container mandatory. -/
def IsMandatory (p : Protocol) (container field : String) : Prop :=
  p.model.usages.lookup ⟨container, field⟩ = some .mandatory

/-- The keys that some usages make mandatory, in their order. -/
def mandatoryKeys (usages : List (UsageKey × Usage)) : List UsageKey :=
  (usages.filter fun (_, usage) => usage == .mandatory).map (·.1)

/-- The fields of a container that some usages make mandatory, in their order. -/
def mandatoryIn (usages : List (UsageKey × Usage)) (container : String) : List String :=
  ((mandatoryKeys usages).filter (·.container == container)).map (·.field)

private theorem mem_mandatoryKeys {usages : List (UsageKey × Usage)} {key : UsageKey} :
    key ∈ mandatoryKeys usages ↔ (key, .mandatory) ∈ usages := by
  simp [mandatoryKeys]

private theorem mem_mandatoryIn {usages : List (UsageKey × Usage)} {container field : String} :
    field ∈ mandatoryIn usages container ↔ ⟨container, field⟩ ∈ mandatoryKeys usages := by
  simp only [mandatoryIn, List.mem_map, List.mem_filter, beq_iff_eq]
  constructor
  · rintro ⟨key, ⟨listed, rfl⟩, rfl⟩
    exact listed
  · intro listed
    exact ⟨_, ⟨listed, rfl⟩, rfl⟩

private theorem lookup_mandatoryOf (m : Model) (container : String) :
    ((mandatoryOf m).lookup container).getD [] = (mandatoryIn m.usages container).mergeSort Text.isAtMost := by
  have table : mandatoryOf m = ((mandatoryKeys m.usages).map (·.container)).eraseDups.map fun container =>
      (container, (mandatoryIn m.usages container).mergeSort Text.isAtMost) := rfl
  rw [table]
  by_cases known : container ∈ ((mandatoryKeys m.usages).map (·.container)).eraseDups
  · rw [lookup_map_of_mem known, Option.getD_some]
  · have bare : mandatoryIn m.usages container = [] := by
      refine List.eq_nil_iff_forall_not_mem.mpr ?_
      intro field member
      exact known (List.mem_eraseDups.mpr (List.mem_map.mpr ⟨_, mem_mandatoryIn.mp member, rfl⟩))
    rw [lookup_map_of_not_mem known, bare, List.mergeSort_nil, Option.getD_none]

variable {document : Bytes} {p : Protocol}

theorem mandatoryFields_of_parse (parsed : Protocol.parse document = .ok p) (container : String) :
    p.mandatoryFields container = (mandatoryIn p.model.usages container).mergeSort Text.isAtMost := by
  obtain ⟨_, _, _, _, listed⟩ := steps_of_parse parsed
  rw [mandatoryFields, listed, lookup_mandatoryOf]

theorem mem_mandatoryFields (parsed : Protocol.parse document = .ok p) {container field : String} :
    field ∈ p.mandatoryFields container ↔ p.IsMandatory container field := by
  obtain ⟨read, _⟩ := steps_of_parse parsed
  obtain ⟨distinct, _⟩ := Model.usages_of_parse read
  rw [mandatoryFields_of_parse parsed, List.mem_mergeSort, mem_mandatoryIn, mem_mandatoryKeys,
    mem_iff_lookup_eq_some distinct, IsMandatory]

/-- The mandatory fields of a container are sorted by the bytes of their names. -/
theorem pairwise_mandatoryFields (parsed : Protocol.parse document = .ok p) (container : String) :
    (p.mandatoryFields container).Pairwise fun a b => Text.encodeUtf8 a ≤ Text.encodeUtf8 b := by
  rw [mandatoryFields_of_parse parsed]
  have transitive : ∀ a b c,
      Text.isAtMost a b = true → Text.isAtMost b c = true → Text.isAtMost a c = true := by
    intro a b c
    simp only [Text.isAtMost_iff]
    exact String.le_trans
  have total : ∀ a b, (Text.isAtMost a b || Text.isAtMost b a) = true := by
    intro a b
    rw [Bool.or_eq_true, Text.isAtMost_iff, Text.isAtMost_iff]
    exact String.le_total a b
  refine (List.pairwise_mergeSort transitive total _).imp ?_
  intro a b ordered
  exact Text.encodeUtf8_le_iff.mpr (Text.isAtMost_iff.mp ordered)

end Protocol

end TradeWire
