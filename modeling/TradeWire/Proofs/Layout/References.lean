import Mathlib.Logic.Relation
import TradeWire.Proofs.Layout.WellFormed
import TradeWire.Proofs.Schema.Closed

/-!
References between structures, and what they have to do with sizes. Settling goes from a structure to those
its members refer to. It cannot run out of fuel, because it goes on only from structures that are not on the
path yet; and it comes to an end without a fault just when no structure contains itself, members are proper
and the sizes of each structure, which do not depend on the order of settling, are in order.
-/

set_option autoImplicit false
set_option relaxedAutoImplicit false

namespace TradeWire

open Schema

/-- The sums over some members whose types have these sizes. -/
def Totals.of (size : Member → Size) (members : List Member) : Totals :=
  members.foldl (fun totals member => totals.addMember member (size member)) .zero

private theorem Totals.of_congr {size other : Member → Size} {members : List Member}
    (same : ∀ member ∈ members, size member = other member) : Totals.of size members = Totals.of other members := by
  apply List.foldl_ext
  intro totals member listed
  rw [same member listed]

namespace Model

variable {m : Model}

/-- A structure has a member whose type is the other one. -/
def References (m : Model) (a b : String) : Prop :=
  (m.structure? b).isSome = true ∧ ∃ s, m.structure? a = some s ∧ ∃ member ∈ s.members, member.type = b

/-- No structure contains itself, at any depth. -/
def IsAcyclic (m : Model) : Prop := ∀ name, ¬Relation.TransGen m.References name name

/-- The size of a data type, or of a structure as it is computed from those of its members' types. -/
inductive Rates (m : Model) : String → Size → Prop
  | ofType {name : String} {t : DataType} (found : m.type? name = some t) : Rates m name t.wireSize
  | ofStructure {name : String} {s : Structure} {size : Member → Size} (found : m.structure? name = some s)
      (each : ∀ member ∈ s.members, Rates m member.type (size member)) :
      Rates m name (Totals.of size s.members).size

/-- A model in which every name of a type is declared, and means one thing. -/
structure IsRegular (m : Model) : Prop where
  distinct : (m.structures.map (·.name)).Nodup
  apart : ∀ name s, m.structure? name = some s → m.type? name = none
  known : ∀ name s, m.structure? name = some s → ∀ member ∈ s.members,
    (m.type? member.type).isSome = true ∨ (m.structure? member.type).isSome = true

structure IsSizable (m : Model) : Prop where
  acyclic : m.IsAcyclic
  components : ∀ name s, m.structure? name = some s → ∀ member ∈ s.members, ∀ sub,
    m.structure? member.type = some sub → sub.isMessage = false
  counted : ∀ name s, m.structure? name = some s → ∀ member ∈ s.members, member.cardinality ≠ 0
  ordered : ∀ name s, m.structure? name = some s → ∀ size, m.Rates name size → size.isOrdered = true

/-- A path of different structures, each of which contains the structure it leads to. -/
structure Leads (m : Model) (path : List String) (name : String) : Prop where
  distinct : path.Nodup
  above : ∀ other ∈ path, other ∈ m.structures.map (·.name) ∧ Relation.TransGen m.References other name

theorem name_of_structure? {name : String} {s : Structure} (found : m.structure? name = some s) :
    s.name = name := by
  simpa using List.find?_some found

theorem IsRegular.structure?_iff (regular : m.IsRegular) {s : Structure} :
    m.structure? s.name = some s ↔ s ∈ m.structures :=
  ⟨List.mem_of_find?_eq_some, find?_of_nodup regular.distinct⟩

theorem isRegular_of_parse {document : Bytes} (parsed : Model.parse document = .ok m) : m.IsRegular := by
  have accepted := Model.isAccepted_of_parse parsed
  obtain ⟨_, _, _, reads⟩ := Model.readFrom_of_parse parsed
  refine ⟨accepted.structures, ?_, ?_⟩
  · intro name s found
    rw [← name_of_structure? found]
    exact accepted.apart s (List.mem_of_find?_eq_some found)
  · intro name s found member listed
    have declared := reads.memberType_mem (List.mem_of_find?_eq_some found) listed
    rcases List.mem_append.mp declared with type | structure_
    · left
      simpa [Model.type?] using type
    · right
      simpa [Model.structure?] using structure_

private theorem length_le_of_nodup {path : List String} (distinct : path.Nodup)
    (known : ∀ name ∈ path, name ∈ m.structures.map (·.name)) : path.length ≤ m.structures.length := by
  have bound := (List.subperm_of_subset distinct known).length_le
  rwa [List.length_map] at bound

private theorem mem_names_of_structure? {name : String} {s : Structure} (found : m.structure? name = some s) :
    name ∈ m.structures.map (·.name) :=
  List.mem_map.mpr ⟨s, List.mem_of_find?_eq_some found, name_of_structure? found⟩

namespace Leads

variable {path : List String} {name : String}

theorem nil (m : Model) (name : String) : m.Leads [] name := ⟨List.nodup_nil, by simp⟩

theorem length_le (leads : m.Leads path name) : path.length ≤ m.structures.length :=
  length_le_of_nodup leads.distinct fun other listed => (leads.above other listed).1

private theorem fresh (leads : m.Leads path name) (acyclic : m.IsAcyclic) : name ∉ path :=
  fun listed => acyclic name (leads.above name listed).2

theorem cons (leads : m.Leads path name) (acyclic : m.IsAcyclic) {s : Structure}
    (found : m.structure? name = some s) {member : Member} (listed : member ∈ s.members)
    (inside : (m.structure? member.type).isSome = true) : m.Leads (name :: path) member.type := by
  have refers : m.References name member.type := ⟨inside, s, found, member, listed, rfl⟩
  refine ⟨List.nodup_cons.mpr ⟨leads.fresh acyclic, leads.distinct⟩, ?_⟩
  intro other here
  rcases List.mem_cons.mp here with rfl | higher
  · exact ⟨mem_names_of_structure? found, .single refers⟩
  · exact ⟨(leads.above other higher).1, (leads.above other higher).2.tail refers⟩

end Leads

theorem Rates.unique (regular : m.IsRegular) {name : String} {size other : Size} (rates : m.Rates name size)
    (again : m.Rates name other) : other = size := by
  induction rates generalizing other with
  | ofType found =>
    cases again with
    | ofType also =>
      rw [found] at also
      cases also
      rfl
    | ofStructure also =>
      rw [regular.apart _ _ also] at found
      cases found
  | ofStructure found each ih =>
    cases again with
    | ofType also =>
      rw [regular.apart _ _ found] at also
      cases also
    | ofStructure also others =>
      rw [found] at also
      cases also
      apply congrArg Totals.size
      apply Totals.of_congr
      intro member listed
      exact ih member listed (others member listed)

end Model

section Fuel

variable {m : Model}

/-- Settling a structure goes on only below structures that are not on the path yet. While there is fuel for
as many more of them as there can be, more fuel changes nothing. -/
theorem sizeStructure_fuel {fuel more : Nat} {path : List String} (distinct : path.Nodup)
    (known : ∀ name ∈ path, name ∈ m.structures.map (·.name))
    (enough : m.structures.length < fuel + path.length) (also : m.structures.length < more + path.length) :
    sizeStructure m fuel path = sizeStructure m more path := by
  have short := Model.length_le_of_nodup distinct known
  induction fuel generalizing more path with
  | zero => omega
  | succ fuel ih =>
    cases more with
    | zero => omega
    | succ more =>
      funext name sized
      simp only [sizeStructure]
      by_cases onPath : path.contains name = true
      · simp only [onPath, if_true]
      · cases found : m.structure? name with
        | none => rfl
        | some s =>
          have longer : ∀ other ∈ name :: path, other ∈ m.structures.map (·.name) := by
            intro other listed
            rcases List.mem_cons.mp listed with rfl | above
            · exact Model.mem_names_of_structure? found
            · exact known other above
          have apart : (name :: path).Nodup := List.nodup_cons.mpr ⟨by simpa using onPath, distinct⟩
          have below : sizeStructure m fuel (name :: path) = sizeStructure m more (name :: path) := by
            apply ih apart longer
            · rw [List.length_cons]
              omega
            · rw [List.length_cons]
              omega
            · exact Model.length_le_of_nodup apart longer
          rw [below]

end Fuel

namespace SizeTable

variable {m : Model}

private theorem sizeOf_append_of_mem {sized : SizeTable} {name : String} (known : name ∈ names sized)
    (more : SizeTable) : sizeOf m (sized ++ more) name = sizeOf m sized name := by
  simp only [sizeOf, find?_append_of_mem known]

private theorem sizeOf_snoc {sized : SizeTable} {name : String} (type : m.type? name = none)
    (new : name ∉ names sized) (size : Size) : sizeOf m (sized ++ [(name, size)]) name = size := by
  have absent := find?_eq_none new
  simp only [find?, Option.map_eq_none_iff] at absent
  simp [sizeOf, type, find?, List.find?_append, absent]

private theorem rates_sizeOf_of_type? (sized : SizeTable) {name : String} {t : DataType}
    (found : m.type? name = some t) : m.Rates name (sizeOf m sized name) := by
  rw [sizeOf, found]
  exact .ofType found

private theorem Covers.known (regular : m.IsRegular) {sized : SizeTable} {name : String} {s : Structure}
    (covers : Covers m sized s.members) (found : m.structure? name = some s) {member : Member}
    (listed : member ∈ s.members) : (m.type? member.type).isSome = true ∨ member.type ∈ names sized := by
  rcases regular.known name s found member listed with type | structure_
  · exact .inl type
  · obtain ⟨sub, inside⟩ := Option.isSome_iff_exists.mp structure_
    exact .inr ((covers member listed).2 sub inside).2

private theorem Settled.rates_sizeOf (regular : m.IsRegular) {sized : SizeTable} (settled : Settled m sized)
    {name : String} (known : (m.type? name).isSome = true ∨ name ∈ names sized) :
    m.Rates name (sizeOf m sized name) := by
  induction settled generalizing name with
  | nil =>
    rcases known with type | listed
    · obtain ⟨t, found⟩ := Option.isSome_iff_exists.mp type
      exact rates_sizeOf_of_type? _ found
    · simp [names] at listed
  | @snoc sized new s before found covers ih =>
    cases type : m.type? name with
    | some t => exact rates_sizeOf_of_type? _ type
    | none =>
      by_cases old : name ∈ names sized
      · rw [sizeOf_append_of_mem old]
        exact ih (.inr old)
      · obtain rfl : name = new := by
          rcases known with absurdity | listed
          · simp [type] at absurdity
          · simp only [names, List.map_append, List.mem_append] at listed old
            simpa [old] using listed
        rw [sizeOf_snoc type old]
        refine .ofStructure found ?_
        intro member listed
        exact ih (covers.known regular found listed)

end SizeTable

open SizeTable

section Settling

variable {m : Model}

private theorem sizeMembers_keeps {P : SizeTable → Prop} {settle : String → SizeTable → Except SchemaError SizeTable}
    (one : ∀ name sized next, P sized → settle name sized = .ok next → P next) {owner : String}
    {members : List Member} {sized next : SizeTable} {totals sums : Totals} (before : P sized)
    (done : sizeMembers m settle owner members sized totals = .ok (next, sums)) : P next := by
  induction members generalizing sized totals with
  | nil =>
    cases done
    exact before
  | cons member rest ih =>
    obtain ⟨middle, _, ⟨_, rfl⟩ | ⟨_, _, _, settledTo⟩, tail⟩ := sizeMembers_cons_eq_ok.mp done
    · exact ih before tail
    · exact ih (one _ _ _ before settledTo) tail

def SizeTable.IsOrdered (sized : SizeTable) : Prop := ∀ entry ∈ sized, entry.2.isOrdered = true

private theorem sizeStructure_ordered {fuel : Nat} {path : List String} {name : String} {sized next : SizeTable}
    (before : sized.IsOrdered) (done : sizeStructure m fuel path name sized = .ok next) : next.IsOrdered := by
  induction fuel generalizing path name sized next with
  | zero => cases done
  | succ fuel ih =>
    obtain ⟨_, rfl⟩ | ⟨s, middle, sums, _, members, inOrder, rfl⟩ := sizeStructure_cases done
    · exact before
    · intro entry listed
      rcases List.mem_append.mp listed with old | new
      · exact sizeMembers_keeps (fun _ _ _ good one => ih good one) before members entry old
      · obtain rfl : entry = (name, sums.size) := by simpa using new
        exact inOrder

private theorem sizeAll_ordered {structures : List Structure} {sized next : SizeTable} (before : sized.IsOrdered)
    (done : sizeAll m structures sized = .ok next) : next.IsOrdered := by
  induction structures generalizing sized with
  | nil =>
    cases done
    exact before
  | cons s rest ih =>
    simp only [sizeAll] at done
    split at done
    · cases done
    · rename_i middle settledTo
      exact ih (sizeStructure_ordered before settledTo) done

private theorem exists_sizeMembers {settle : String → SizeTable → Except SchemaError SizeTable} {owner : String}
    {members : List Member}
    (proper : ∀ member ∈ members, member.cardinality ≠ 0 ∧ ∀ sub, m.structure? member.type = some sub →
      sub.isMessage = false ∧ ∀ sized, Settled m sized →
        ∃ next, settle member.type sized = .ok next ∧ Settled m next)
    {sized : SizeTable} (before : Settled m sized) (totals : Totals) :
    ∃ next sums, sizeMembers m settle owner members sized totals = .ok (next, sums) := by
  induction members generalizing sized totals with
  | nil => exact ⟨sized, totals, rfl⟩
  | cons member rest ih =>
    obtain ⟨counted, below⟩ := proper member (by simp)
    have onward := @ih fun other later => proper other (by simp [later])
    cases found : m.structure? member.type with
    | none =>
      obtain ⟨next, sums, done⟩ := onward before (totals.addMember member (sizeOf m sized member.type))
      exact ⟨next, sums, sizeMembers_cons_eq_ok.mpr ⟨sized, counted, .inl ⟨found, rfl⟩, done⟩⟩
    | some sub =>
      obtain ⟨component, settles⟩ := below sub found
      obtain ⟨middle, settledTo, settled⟩ := settles sized before
      obtain ⟨next, sums, done⟩ := onward settled (totals.addMember member (sizeOf m middle member.type))
      exact ⟨next, sums,
        sizeMembers_cons_eq_ok.mpr ⟨middle, counted, .inr ⟨sub, found, component, settledTo⟩, done⟩⟩

private theorem exists_sizeStructure (regular : m.IsRegular) (sizable : m.IsSizable) {fuel : Nat} {path : List String}
    {name : String} {sized : SizeTable} (leads : m.Leads path name)
    (enough : m.structures.length < fuel + path.length) (before : Settled m sized) :
    ∃ next, sizeStructure m fuel path name sized = .ok next := by
  induction fuel generalizing path name sized with
  | zero =>
    have bound := leads.length_le
    omega
  | succ fuel ih =>
    simp only [sizeStructure]
    split
    · exact ⟨sized, rfl⟩
    · split
      · rename_i onPath
        exact absurd (by simpa using onPath) (leads.fresh sizable.acyclic)
      · split
        · exact ⟨sized, rfl⟩
        · rename_i s found
          have proper : ∀ member ∈ s.members, member.cardinality ≠ 0 ∧
              ∀ sub, m.structure? member.type = some sub → sub.isMessage = false ∧
                ∀ sized, Settled m sized →
                  ∃ next, sizeStructure m fuel (name :: path) member.type sized = .ok next ∧ Settled m next := by
            intro member listed
            refine ⟨sizable.counted name s found member listed, ?_⟩
            intro sub inside
            refine ⟨sizable.components name s found member listed sub inside, ?_⟩
            intro sized settled
            have further := leads.cons sizable.acyclic found listed (by simp [inside])
            obtain ⟨next, done⟩ := ih further (by rw [List.length_cons]; omega) settled
            exact ⟨next, done, (sizeStructure_settles settled done).settled⟩
          obtain ⟨next, sums, members⟩ :
              ∃ next sums, sizeMembers m (sizeStructure m fuel (name :: path)) name s.members sized .zero =
                .ok (next, sums) := exists_sizeMembers proper before .zero
          obtain ⟨_, settled, covers, rfl⟩ := sizeMembers_settles
            (fun _ _ _ good one => sizeStructure_settles good one) before members
          have rates : m.Rates name (totalsOf m next .zero s.members).size := by
            refine .ofStructure found ?_
            intro member listed
            exact settled.rates_sizeOf regular (covers.known regular found listed)
          have inOrder := sizable.ordered name s found _ rates
          refine ⟨next ++ [(name, (totalsOf m next .zero s.members).size)], ?_⟩
          simp only [members, inOrder, if_true]

private theorem exists_sizeAll (regular : m.IsRegular) (sizable : m.IsSizable) {structures : List Structure}
    {sized : SizeTable} (before : Settled m sized) : ∃ next, sizeAll m structures sized = .ok next := by
  induction structures generalizing sized with
  | nil => exact ⟨sized, rfl⟩
  | cons s rest ih =>
    have enough : m.structures.length < m.structures.length + 1 + ([] : List String).length := by simp
    obtain ⟨middle, settledTo⟩ := exists_sizeStructure regular sizable (.nil m s.name) enough before
    simp only [sizeAll, settledTo]
    exact ih (sizeStructure_settles before settledTo).settled

end Settling

namespace Model

variable {m : Model}

private theorem rank_lt_of_references {sized : SizeTable} (done : m.sizes = .ok sized) {a b : String}
    (refers : Relation.TransGen m.References a b) : sized.rank b < sized.rank a := by
  have step : ∀ {a b : String}, m.References a b → sized.rank b < sized.rank a := by
    rintro a b ⟨inside, s, found, member, listed, rfl⟩
    obtain ⟨sub, held⟩ := Option.isSome_iff_exists.mp inside
    exact (Model.entry_of_sizes done found).below member listed sub held
  induction refers with
  | single first => exact step first
  | tail _ last ih => exact Nat.lt_trans (step last) ih

theorem rates_of_sizes (regular : m.IsRegular) {sized : SizeTable} (done : m.sizes = .ok sized) {name : String}
    {s : Structure} (found : m.structure? name = some s) : m.Rates name (sizeOf m sized name) := by
  obtain ⟨_, settled, _⟩ := sizeAll_settles .nil done
  refine settled.rates_sizeOf regular (.inr ?_)
  apply find?_isSome.mp
  rw [(Model.entry_of_sizes done found).size]
  rfl

theorem exists_sizes_iff (regular : m.IsRegular) : (∃ sized, m.sizes = .ok sized) ↔ m.IsSizable := by
  constructor
  · rintro ⟨sized, done⟩
    refine ⟨?_, ?_, ?_, ?_⟩
    · intro name circle
      exact Nat.lt_irrefl _ (rank_lt_of_references done circle)
    · intro name s found member listed sub inside
      exact ((Model.entry_of_sizes done found).covers member listed).2 sub inside |>.1
    · intro name s found member listed
      exact ((Model.entry_of_sizes done found).covers member listed).1
    · intro name s found size rates
      have entry := (Model.entry_of_sizes done found).size
      have inTable : sizeOf m sized name = (totalsOf m sized .zero s.members).size := by
        rw [SizeTable.sizeOf, regular.apart name s found, entry]
        rfl
      have same := (rates_of_sizes regular done found).unique regular rates
      obtain ⟨found_entry, here, same_size⟩ := Option.map_eq_some_iff.mp entry
      have inOrder := sizeAll_ordered (by simp [SizeTable.IsOrdered]) done found_entry
        (List.mem_of_find?_eq_some here)
      rw [same, inTable, ← same_size]
      exact inOrder
  · intro sizable
    exact exists_sizeAll regular sizable .nil

end Model

end TradeWire
