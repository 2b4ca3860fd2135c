import TradeWire.Proofs.Layout.Soundness
import TradeWire.Proofs.Wire.Validity

/-! The encodings of valid instances lie between the least and the largest size of their structure. -/

set_option autoImplicit false
set_option relaxedAutoImplicit false

namespace TradeWire

open Schema

/-- A fixed size is the least and the largest size as well. -/
def Size.IsUniform (s : Size) : Prop := s.fixed ≠ 0 → s.least = s.fixed ∧ s.most = s.fixed

private theorem Size.isUniform_default : (default : Size).IsUniform := fun fixed => absurd rfl fixed

theorem Size.IsUniform.isStatic_iff {s : Size} (uniform : s.IsUniform) :
    s.isStatic = true ↔ s.fixed ≠ 0 := by
  simp only [Size.isStatic, Bool.and_eq_true, bne_iff_ne, beq_iff_eq]
  constructor
  · exact And.left
  · intro fixed
    exact ⟨fixed, (uniform fixed).2.symm⟩

private theorem Schema.DataType.isUniform_wireSize (type : DataType) : type.wireSize.IsUniform := by
  intro fixed
  cases varies : type.variableSize with
  | true => simp [DataType.wireSize, varies] at fixed
  | false => simp [DataType.wireSize, varies]

def Totals.IsUniform (t : Totals) : Prop := t.isVariable = false → t.least = t.fixed ∧ t.most = t.fixed

private theorem Totals.IsUniform.size {t : Totals} (uniform : t.IsUniform) : t.size.IsUniform := by
  intro fixed
  cases varies : t.isVariable with
  | true => simp [Totals.size, varies] at fixed
  | false => simpa [Totals.size, varies] using uniform varies

private theorem Totals.IsUniform.addMember {t : Totals} (uniform : t.IsUniform) {member : Member}
    (counted : member.cardinality ≠ 0) {s : Size} (sized : s.IsUniform) :
    (t.addMember member s).IsUniform := by
  intro constant
  simp only [Totals.addMember, Bool.or_eq_false_iff, beq_eq_false_iff_ne, ne_eq,
    Option.isSome_eq_false_iff, Option.isNone_iff_eq_none] at constant
  obtain ⟨before, fixed, plain⟩ := constant
  obtain ⟨least, most⟩ := uniform before
  obtain ⟨leastHere, mostHere⟩ := sized fixed
  -- with a cardinality and no lower bound, all three sums count the member equally often
  have count := Totals.repeatCount_of_plain plain counted
  simp only [Totals.addMember, plain, Option.getD_none, count, least, most, leastHere, mostHere,
    beq_eq_false_iff_ne.mpr fixed, Option.isSome_none, Bool.or_self, Bool.false_eq_true, if_false,
    and_self]

namespace SizeTable

private theorem isUniform_totalsOf {m : Model} {sized : SizeTable} {members : List Member}
    (each : ∀ member ∈ members,
      member.cardinality ≠ 0 ∧ (sizeOf m sized member.type).IsUniform)
    {totals : Totals} (start : totals.IsUniform) : (totalsOf m sized totals members).IsUniform := by
  induction members generalizing totals with
  | nil => exact start
  | cons member rest ih =>
    obtain ⟨counted, uniform⟩ := each member (by simp)
    exact ih (fun next later => each next (by simp [later])) (start.addMember counted uniform)

private theorem Settled.isUniform_sizeOf {m : Model} {sized : SizeTable} (settled : Settled m sized) :
    ∀ name, (sizeOf m sized name).IsUniform := by
  induction settled with
  | nil =>
    intro name
    rw [sizeOf]
    cases m.type? name with
    | some type => exact type.isUniform_wireSize
    | none => exact Size.isUniform_default
  | @snoc sized new s before found covers ih =>
    intro name
    have earlier := ih name
    rw [sizeOf] at earlier ⊢
    cases kind : m.type? name with
    | some type => exact type.isUniform_wireSize
    | none =>
      simp only [kind] at earlier
      by_cases old : name ∈ names sized
      · rw [find?_append_of_mem old]
        exact earlier
      · have absent := find?_eq_none old
        simp only [find?, Option.map_eq_none_iff] at absent
        simp only [find?, List.find?_append, absent, Option.none_or]
        by_cases same : new = name
        · have sums : (totalsOf m sized .zero s.members).IsUniform :=
            isUniform_totalsOf (fun member listed => ⟨(covers member listed).1, ih member.type⟩)
              fun _ => ⟨rfl, rfl⟩
          simpa [same] using sums.size
        · simpa [same] using Size.isUniform_default

end SizeTable

/-- The number of bytes that a field of a valid instance takes at least. -/
def Field.floor : Field → Nat
  | .nested _ (.group _ least _) element => least * element.extent
  | f => f.extent

/-- What a field adds to the least size of its structure: nothing where its type is of variable size. -/
def Field.leastShare (m : Model) (f : Field) : Nat :=
  if (m.type? f.type).any (·.variableSize) then 0 else f.floor

theorem Field.leastShare_le_floor (m : Model) (f : Field) : f.leastShare m ≤ f.floor := by
  unfold Field.leastShare
  split <;> omega

private theorem Field.Stems.least_mul {m : Model} {sized : SizeTable} {compiled : List Layout} {member : Member}
    {f : Field} (stems : f.Stems m compiled member) (settled : f.HasSettledElements m sized)
    (uniform : (sized.sizeOf m member.type).IsUniform) :
    Word.mul (sized.sizeOf m member.type).least
      (member.minCardinality.getD (Totals.repeatCount member)) = Word.wrap (f.leastShare m) := by
  cases stems with
  | @primitive type kind known once suits =>
    have size : sized.sizeOf m member.type = type.wireSize := by simp [SizeTable.sizeOf, known]
    have one := Totals.repeatCount_of_le_one once.2
    have share : (Field.primitive member.name member.type type.size kind).leastShare m =
        if type.variableSize then 0 else type.size := by
      simp only [Field.leastShare, Field.type, known, Option.any_some]
      cases kind with
      | int | pad | bytes => rfl
      | varBytes counter =>
        simp only [Primitive.Suits] at suits
        simp [suits]
    rw [size, once.1, one, share]
    cases varies : type.variableSize <;> simp [DataType.wireSize, varies, Word.mul]
  | @nested element repetition other present named static suits =>
    obtain ⟨sound, size⟩ := settled element rfl
    have width : (sized.sizeOf m member.type).least = Word.wrap element.extent := by
      rw [(uniform ?_).1, ← named, ← size]
      · exact sound.fixed_eq static
      · rw [← named, ← size]
        simp only [Size.isStatic, Bool.and_eq_true, bne_iff_ne] at static
        exact static.1
    have share : (Field.nested member.name repetition element).leastShare m =
        (Field.nested member.name repetition element).floor := by
      simp [Field.leastShare, Field.type, named, other]
    rw [width, Word.mul_wrap_left, share]
    cases repetition with
    | once =>
      have one := Totals.repeatCount_of_le_one suits.2
      simp [suits.1, one, Field.floor, Field.extent]
    | array count =>
      obtain ⟨plain, many, rfl⟩ := suits
      have several := Totals.repeatCount_of_plain plain (by omega)
      rw [plain, Option.getD_none, several, Field.floor, Field.extent, Int.natCast_mul, Int.mul_comm]
      simp
    | group counter least most =>
      obtain ⟨counted, _⟩ := suits
      rw [counted, Option.getD_some, Field.floor, Int.natCast_mul, Int.mul_comm]

private theorem Field.Stems.most_mul {m : Model} {sized : SizeTable} {compiled : List Layout} {member : Member}
    {f : Field} (stems : f.Stems m compiled member) (settled : f.HasSettledElements m sized)
    (counted : member.cardinality ≠ 0) :
    Word.mul (sized.sizeOf m member.type).most member.cardinality = Word.wrap f.capacity := by
  cases stems with
  | @primitive type kind known once suits =>
    have size : sized.sizeOf m member.type = type.wireSize := by simp [SizeTable.sizeOf, known]
    have one : member.cardinality = 1 := by omega
    have whole : (Field.primitive member.name member.type type.size kind).capacity = type.size := by
      cases kind with
      | int | pad | bytes | varBytes => rfl
    rw [size, one, whole]
    simp [DataType.wireSize, Word.mul]
  | @nested element repetition other present named static suits =>
    obtain ⟨sound, size⟩ := settled element rfl
    have width : (sized.sizeOf m member.type).most = Word.wrap element.extent := by
      rw [← named, ← size, ← sound.fixed_eq static]
      simp only [Size.isStatic, Bool.and_eq_true, beq_iff_eq] at static
      exact static.2.symm
    rw [width, Word.mul_wrap_left, Field.capacity_nested, suits.most_eq counted, Int.natCast_mul, Int.mul_comm]

private theorem totalsOf_bounds {m : Model} {sized : SizeTable} {compiled : List Layout} {members : List Member}
    {fields : List Field} (related : List.Forall₂ (Field.Stems m compiled) members fields)
    (settled : ∀ f ∈ fields, f.HasSettledElements m sized)
    (each : ∀ member ∈ members,
      member.cardinality ≠ 0 ∧ (sized.sizeOf m member.type).IsUniform)
    {totals : Totals} {low high : Nat} (least : totals.least = Word.wrap low)
    (most : totals.most = Word.wrap high) :
    (SizeTable.totalsOf m sized totals members).least =
      Word.wrap ((low + (fields.map (Field.leastShare m)).sum : Nat) : Int) ∧
    (SizeTable.totalsOf m sized totals members).most =
      Word.wrap ((high + (fields.map Field.capacity).sum : Nat) : Int) := by
  induction related generalizing totals low high with
  | nil => exact ⟨least, most⟩
  | @cons member f members fields stems rest ih =>
    obtain ⟨counted, uniform⟩ := each member (by simp)
    have smallest := stems.least_mul (settled f (by simp)) uniform
    have largest := stems.most_mul (settled f (by simp)) counted
    have leastHere : (totals.addMember member (sized.sizeOf m member.type)).least =
        Word.wrap ((low + f.leastShare m : Nat) : Int) := by
      simp only [Totals.addMember, smallest, least]
      exact Word.add_wrap_wrap low (f.leastShare m)
    have mostHere : (totals.addMember member (sized.sizeOf m member.type)).most =
        Word.wrap ((high + f.capacity : Nat) : Int) := by
      simp only [Totals.addMember, largest, most]
      exact Word.add_wrap_wrap high f.capacity
    obtain ⟨sum, total⟩ := ih (fun g later => settled g (by simp [later]))
      (fun next later => each next (by simp [later])) leastHere mostHere
    simp only [List.map_cons, List.sum_cons, ← Nat.add_assoc]
    exact ⟨sum, total⟩

/-- The least and the largest size of a layout are sums over its fields, as machine words. -/
theorem Table.sums_of_compile {m : Model} {t : Table} (accepted : m.IsAccepted)
    (compiled : Table.compile m = .ok t) {l : Layout} (listed : l ∈ t.layouts) :
    l.size.least = Word.wrap ((l.fields.map (Field.leastShare m)).sum : Nat) ∧
      l.size.most = Word.wrap l.capacity := by
  obtain ⟨_, sizes, sound⟩ := Table.isSound_of_compile compiled
  obtain ⟨_, settled, _⟩ := sizeAll_settles .nil sizes
  obtain ⟨s, found, stem, sizeEq, _⟩ := sound.stems l listed
  have named : s.name = l.name := by simpa using List.find?_some found
  have entry := Model.entry_of_sizes sizes found
  have unshadowed : m.type? l.name = none := named ▸ accepted.apart s (List.mem_of_find?_eq_some found)
  have whole : l.size = (SizeTable.totalsOf m t.sizes .zero s.members).size := by
    rw [sizeEq, SizeTable.sizeOf, unshadowed, entry.size]
    rfl
  have elements : ∀ f ∈ l.fields, f.HasSettledElements m t.sizes := by
    intro f member element nested
    obtain ⟨source, _, stems⟩ := stem.of_mem member
    cases stems with
    | primitive known once suits => cases nested
    | nested other present same static suits =>
      cases nested
      obtain ⟨_, inner⟩ := sound.stems _ present
      exact ⟨Table.sound_of_compile accepted compiled _ present, inner.size⟩
  have sums := totalsOf_bounds stem.related elements
    (fun member owned => ⟨(entry.covers member owned).1, settled.isUniform_sizeOf member.type⟩)
    (show Totals.zero.least = Word.wrap (0 : Nat) by simp [Totals.zero])
    (show Totals.zero.most = Word.wrap (0 : Nat) by simp [Totals.zero])
  rw [Nat.zero_add, Nat.zero_add] at sums
  rw [whole]
  exact sums

/-- What the computed sizes of a layout say about its fields. -/
structure Layout.IsSized (l : Layout) : Prop where
  uniform : l.size.IsUniform
  least : ∃ n ≤ (l.fields.map Field.floor).sum, l.size.least = Word.wrap (n : Nat)
  most : l.size.most = Word.wrap l.capacity

theorem Table.isSized_of_compile {m : Model} {t : Table} (accepted : m.IsAccepted)
    (compiled : Table.compile m = .ok t) : ∀ l ∈ t.layouts, l.IsSized := by
  obtain ⟨_, sizes, sound⟩ := Table.isSound_of_compile compiled
  obtain ⟨_, settled, _⟩ := sizeAll_settles .nil sizes
  intro l listed
  obtain ⟨s, _, _, sizeEq, _⟩ := sound.stems l listed
  obtain ⟨least, most⟩ := Table.sums_of_compile accepted compiled listed
  refine ⟨?_, ⟨_, List.sum_le_sum fun f _ => f.leastShare_le_floor m, least⟩, most⟩
  rw [sizeEq]
  exact settled.isUniform_sizeOf l.name

private theorem Field.floor_le_reserve {f : Field} {all : List Slot} {s : Slot} (shape : f.Admits s)
    (valid : f.IsValid all s) : f.floor ≤ f.reserve all := by
  match f, s with
  | .primitive _ _ _ (.int _), _ | .primitive _ _ _ .pad, _ | .primitive _ _ _ (.bytes _), _
  | .nested _ .once _, _ | .nested _ (.array _) _, _ => exact Nat.le_refl _
  | .primitive _ _ _ (.varBytes _), _ => exact Nat.zero_le _
  | .nested _ (.group counter least most) element, .elems items =>
    simp only [Field.IsValid] at valid
    obtain ⟨_, enough, bounded, _⟩ := valid
    simp only [Field.floor, Field.reserve, Nat.min_eq_left bounded]
    exact Nat.mul_le_mul_right _ enough
  | .nested _ (.group ..) _, .pad | .nested _ (.group ..) _, .int .. | .nested _ (.group ..) _, .bytes _
  | .nested _ (.group ..) _, .struct _ => simp [Field.Admits] at shape

private theorem sum_floor_le_reserve {all : List Slot} {fields : List Field} {slots : List Slot}
    (shape : List.Forall₂ Field.Admits fields slots) (valid : FieldsAreValid all fields slots) :
    (fields.map Field.floor).sum ≤ (fields.map (Field.reserve all)).sum := by
  induction shape with
  | nil => exact Nat.le_refl _
  | cons first rest ih =>
    simp only [FieldsAreValid] at valid
    have here := Field.floor_le_reserve first valid.1
    have others := ih valid.2
    simp only [List.map_cons, List.sum_cons]
    omega

/-- The encoding of an instance is no shorter and no longer than the sizes of its layout say. -/
theorem Layout.IsSized.length_encode {l : Layout} (sized : l.IsSized) (sound : l.Sound)
    (addressable : l.IsAddressable) {slots : List Slot} (shape : l.Admits slots) {b : Bytes}
    (encoded : l.encode slots = .ok b) : l.size.least ≤ b.length ∧ b.length ≤ l.size.most := by
  have valid := (sound.encode_isOk_iff shape).mp ⟨b, encoded⟩
  have length := sound.length_encode shape encoded
  have bound := l.reserve_le_capacity slots
  have floor : (l.fields.map Field.floor).sum ≤ l.reserve slots := by
    obtain ⟨name, message, size, fields⟩ := l
    exact sum_floor_le_reserve (Layout.admits_iff.mp shape) valid
  obtain ⟨n, small, least⟩ := sized.least
  unfold Layout.IsAddressable at addressable
  rw [least, sized.most, Word.wrap_natCast addressable, Word.wrap_natCast (by omega)]
  omega

end TradeWire
