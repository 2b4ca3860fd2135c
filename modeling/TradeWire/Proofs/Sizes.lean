import TradeWire.Proofs.Layout.Building
import TradeWire.Proofs.Layout.Measured
import TradeWire.Proofs.Registry.Dispatch

/-! Sizes and layouts do not depend on the order of declarations. -/

set_option autoImplicit false
set_option relaxedAutoImplicit false

namespace TradeWire

open Schema

/-- The other model declares the same, its structures maybe in another order. -/
structure Model.Rearranges (m other : Model) : Prop where
  structures : other.structures.Perm m.structures
  types : other.types = m.types
  version : other.version = m.version
  subVersion : other.subVersion = m.subVersion

namespace Model.Rearranges

variable {m other : Model}

private theorem type?_eq (rearranges : m.Rearranges other) (name : String) : other.type? name = m.type? name := by
  rw [Model.type?, rearranges.types, Model.type?]

private theorem distinct (rearranges : m.Rearranges other) (regular : m.IsRegular) :
    (other.structures.map (·.name)).Nodup :=
  (rearranges.structures.map _).nodup_iff.mpr regular.distinct

private theorem structure?_eq (rearranges : m.Rearranges other) (regular : m.IsRegular) (name : String) :
    other.structure? name = m.structure? name := by
  have distinct := rearranges.distinct regular
  cases found : m.structure? name with
  | some s =>
    have named := name_of_structure? found
    have inside := rearranges.structures.mem_iff.mpr (List.mem_of_find?_eq_some found)
    rw [← named]
    exact find?_of_nodup distinct inside
  | none =>
    apply List.find?_eq_none.mpr
    intro s inside
    exact List.find?_eq_none.mp found s (rearranges.structures.mem_iff.mp inside)

private theorem isRegular (rearranges : m.Rearranges other) (regular : m.IsRegular) : other.IsRegular := by
  have types := rearranges.type?_eq
  have structures := rearranges.structure?_eq regular
  refine ⟨rearranges.distinct regular, ?_, ?_⟩
  · intro name s found
    rw [types]
    exact regular.apart name s (structures name ▸ found)
  · intro name s found member listed
    rw [types, structures]
    exact regular.known name s (structures name ▸ found) member listed

private theorem symm (rearranges : m.Rearranges other) : other.Rearranges m :=
  ⟨rearranges.structures.symm, rearranges.types.symm, rearranges.version.symm, rearranges.subVersion.symm⟩

private theorem references_eq (rearranges : m.Rearranges other) (regular : m.IsRegular) :
    other.References = m.References := by
  funext a b
  simp only [Model.References, rearranges.structure?_eq regular]

private theorem rates (rearranges : m.Rearranges other) (regular : m.IsRegular) {name : String} {size : Size}
    (rates : m.Rates name size) : other.Rates name size := by
  induction rates with
  | ofType found => exact .ofType ((rearranges.type?_eq _).trans found)
  | ofStructure found each ih => exact .ofStructure ((rearranges.structure?_eq regular _).trans found) ih

private theorem isSizable (rearranges : m.Rearranges other) (regular : m.IsRegular) (sizable : m.IsSizable) :
    other.IsSizable := by
  have structures := rearranges.structure?_eq regular
  refine ⟨?_, ?_, ?_, ?_⟩
  · intro name circle
    rw [rearranges.references_eq regular] at circle
    exact sizable.acyclic name circle
  · intro name s found member listed sub also
    exact sizable.components name s (structures name ▸ found) member listed sub (structures _ ▸ also)
  · intro name s found member listed
    exact sizable.counted name s (structures name ▸ found) member listed
  · intro name s found size rates
    have back := rearranges.symm.rates (rearranges.isRegular regular) rates
    exact sizable.ordered name s (structures name ▸ found) size back

private theorem exists_sizes_iff (rearranges : m.Rearranges other) (regular : m.IsRegular) :
    (∃ sized, other.sizes = .ok sized) ↔ ∃ sized, m.sizes = .ok sized := by
  have again := rearranges.isRegular regular
  rw [Model.exists_sizes_iff regular, Model.exists_sizes_iff again]
  constructor
  · exact rearranges.symm.isSizable again
  · exact rearranges.isSizable regular

private theorem sizeOf_eq (rearranges : m.Rearranges other) (regular : m.IsRegular) {sized others : SizeTable}
    (done : m.sizes = .ok sized) (also : other.sizes = .ok others) (name : String) :
    others.sizeOf other name = sized.sizeOf m name := by
  have again := rearranges.isRegular regular
  have structures := rearranges.structure?_eq regular name
  cases found : m.structure? name with
  | some s =>
    have there := rates_of_sizes again also (structures.trans found)
    have here := rearranges.rates regular (rates_of_sizes regular done found)
    exact here.unique again there
  | none =>
    -- a name that is no structure has the size of a type, or none
    have absent : ∀ {model : Model} {table : SizeTable}, model.sizes = .ok table →
        model.structure? name = none → table.find? name = none := by
      intro model table settled unknown
      obtain ⟨_, good, _⟩ := sizeAll_settles .nil settled
      apply SizeTable.find?_eq_none
      intro known
      obtain ⟨s, present⟩ := good.structure_of_mem known
      rw [unknown] at present
      cases present
    simp only [SizeTable.sizeOf, rearranges.type?_eq, absent done found,
      absent also (structures.trans found)]

private theorem addPrimitive_eq (rearranges : m.Rearranges other) (owner : String) (member : Member) (type : DataType)
    (earlier : List Field) : Layout.addPrimitive other owner member type earlier =
      Layout.addPrimitive m owner member type earlier := by
  simp only [Layout.addPrimitive, Layout.versionBytes?, rearranges.version, rearranges.subVersion]

private theorem assemble_eq (rearranges : m.Rearranges other) (element : String → Layout) (owner : String)
    (members : List Member) (fields : List Field) :
    Layout.assemble other element owner members fields = Layout.assemble m element owner members fields := by
  induction members generalizing fields with
  | nil => rfl
  | cons member rest ih => simp only [Layout.assemble, rearranges.type?_eq, rearranges.addPrimitive_eq, ih]

private theorem builds (rearranges : m.Rearranges other) (regular : m.IsRegular) {size : String → Size}
    {name : String}
    {l : Layout} (builds : Layout.Builds m size name l) : Layout.Builds other size name l := by
  induction builds with
  | intro found each assembled finished ih =>
    refine .intro ((rearranges.structure?_eq regular _).trans found) ?_
      ((rearranges.assemble_eq _ _ _ _).trans assembled) finished
    intro member listed nested
    rw [rearranges.type?_eq] at nested
    exact ih member listed nested

private theorem exists_compile (rearranges : m.Rearranges other) (regular : m.IsRegular) {t : Table}
    (compiled : Table.compile m = .ok t) : ∃ t, Table.compile other = .ok t := by
  have again := rearranges.isRegular regular
  obtain ⟨sized, done, each⟩ := (Table.exists_compile_iff regular).mp ⟨t, compiled⟩
  obtain ⟨others, also⟩ := (rearranges.exists_sizes_iff regular).mpr ⟨sized, done⟩
  have sizes : others.sizeOf other = sized.sizeOf m := funext (rearranges.sizeOf_eq regular done also)
  apply (Table.exists_compile_iff again).mpr
  refine ⟨others, also, ?_⟩
  intro s inside
  obtain ⟨l, builds⟩ := each s (rearranges.structures.mem_iff.mp inside)
  refine ⟨l, ?_⟩
  rw [sizes]
  exact rearranges.builds regular builds

private theorem layout?_eq (rearranges : m.Rearranges other) (regular : m.IsRegular) {t others : Table}
    (compiled : Table.compile m = .ok t) (also : Table.compile other = .ok others) (name : String) :
    others.layout? name = t.layout? name := by
  have again := rearranges.isRegular regular
  have done := (Table.compile_eq_ok.mp compiled).1
  have alsoDone := (Table.compile_eq_ok.mp also).1
  have sizes : others.sizes.sizeOf other = t.sizes.sizeOf m :=
    funext (rearranges.sizeOf_eq regular done alsoDone)
  apply Option.ext
  intro l
  rw [Table.layout?_eq_some_iff compiled, Table.layout?_eq_some_iff also, sizes]
  constructor
  · exact rearranges.symm.builds again
  · exact rearranges.builds regular

end Model.Rearranges

/-- Sizing ends on every model: no structure needs more fuel than there are structures. A model that is read
and whose sums are machine numbers is sized just when no structure contains itself, no member is a message,
every member has a cardinality and no structure is larger at least than at most, in whole numbers, which are
the sizes then. Whether a model is sized and compiled, and all sizes and layouts, are the same for every
order of its structures. -/
theorem Model.sizes_iff_wellFounded :
    (∀ (m : Model) (fuel : Nat), m.structures.length < fuel → ∀ (name : String) (sized : SizeTable),
      sizeStructure m fuel [] name sized = sizeStructure m (m.structures.length + 1) [] name sized) ∧
    ∀ (document : Bytes) (m : Model), Model.parse document = .ok m →
      (m.SumsFit → ((∃ sized, m.sizes = .ok sized) ↔ m.IsWellFounded) ∧
        ∀ sized, m.sizes = .ok sized → ∀ s ∈ m.structures,
          ∃ x, m.Measures s.name x ∧ sized.sizeOf m s.name = x.size) ∧
      ∀ other, m.Rearranges other →
        ((∃ sized, other.sizes = .ok sized) ↔ ∃ sized, m.sizes = .ok sized) ∧
        (∀ sized others, m.sizes = .ok sized → other.sizes = .ok others →
          ∀ name, others.sizeOf other name = sized.sizeOf m name) ∧
        ((∃ t, Table.compile other = .ok t) ↔ ∃ t, Table.compile m = .ok t) ∧
        ∀ t others, Table.compile m = .ok t → Table.compile other = .ok others →
          ∀ name, others.layout? name = t.layout? name := by
  constructor
  · intro m fuel enough name sized
    rw [sizeStructure_fuel List.nodup_nil (by simp) (by simpa using enough)
      (show m.structures.length < m.structures.length + 1 + ([] : List String).length by simp)]
  · intro document m parsed
    have regular := Model.isRegular_of_parse parsed
    constructor
    · intro fits
      constructor
      · rw [Model.exists_sizes_iff regular, Model.isSizable_iff regular fits]
      · intro sized done s inside
        exact Model.exists_measures_of_sizes regular fits done inside
    · intro other rearranges
      refine ⟨rearranges.exists_sizes_iff regular, ?_, ⟨?_, ?_⟩, ?_⟩
      · intro sized others done also
        exact rearranges.sizeOf_eq regular done also
      · rintro ⟨t, compiled⟩
        exact rearranges.symm.exists_compile (rearranges.isRegular regular) compiled
      · rintro ⟨t, compiled⟩
        exact rearranges.exists_compile regular compiled
      · intro t others compiled also
        exact rearranges.layout?_eq regular compiled also

theorem Model.ping_sizes_wellFounded : ∃ m other sized t u, Model.parse pingDocument = .ok m ∧ m.SumsFit ∧
    m.IsWellFounded ∧ m.sizes = .ok sized ∧ m.Rearranges other ∧ other.structures ≠ m.structures ∧
      (∀ name sized, sizeStructure m 9 [] name sized = sizeStructure m 4 [] name sized) ∧
        (∀ s ∈ m.structures, ∃ x, m.Measures s.name x ∧ SizeTable.sizeOf m sized s.name = x.size) ∧
          Table.compile m = .ok t ∧ Table.compile other = .ok u ∧ ∀ name, u.layout? name = t.layout? name := by
  have run : ((Model.parse pingDocument).toOption.any fun m => m.structures.length == 3 &&
      m.structures.reverse != m.structures && (Table.compile m).toOption.isSome &&
        m.sizes.toOption.any fun sized => m.structures.all fun s => decide (m.sizedSpan sized s.name).Fits &&
          m.sizedSpan sized s.name == Span.of (fun member => m.sizedSpan sized member.type) s.members) =
            true := by
    rw [parse_pingDocument]
    decide +kernel
  simp only [Option.any_eq_true, toOption_eq_some, Bool.and_eq_true, beq_iff_eq, bne_iff_ne,
    Option.isSome_iff_exists, List.all_eq_true, decide_eq_true_eq] at run
  obtain ⟨m, parsed, ⟨⟨three, turned⟩, t, compiled⟩, sized, done, solves⟩ := run
  have fits : m.SumsFit := sumsFit_of_solves solves
  have rearranges : m.Rearranges { m with structures := m.structures.reverse } :=
    ⟨m.structures.reverse_perm, rfl, rfl, rfl⟩
  obtain ⟨ends, orders⟩ := Model.sizes_iff_wellFounded
  obtain ⟨whole, order⟩ := orders pingDocument m parsed
  obtain ⟨founded, measured⟩ := whole fits
  obtain ⟨_, _, compiles, same⟩ := order _ rearranges
  obtain ⟨u, also⟩ := compiles.mpr ⟨t, compiled⟩
  refine ⟨m, _, sized, t, u, parsed, fits, founded.mp ⟨sized, done⟩, done, rearranges, turned, ?_,
    measured sized done, compiled, also, same t u compiled also⟩
  intro name sized
  rw [ends m 9 (by omega), three]

end TradeWire
