import TradeWire.Layout.Size

/-! A size table grows at its end, each structure behind those of its members. -/

set_option autoImplicit false
set_option relaxedAutoImplicit false

namespace TradeWire

namespace SizeTable

def names (sized : SizeTable) : List String := sized.map (·.1)

theorem find?_isSome {sized : SizeTable} {name : String} :
    (find? sized name).isSome = true ↔ name ∈ names sized := by
  simp [find?, names]

theorem find?_append_of_mem {sized : SizeTable} {name : String} (known : name ∈ names sized)
    (more : SizeTable) : find? (sized ++ more) name = find? sized name := by
  obtain ⟨size, found⟩ := Option.isSome_iff_exists.mp (find?_isSome.mpr known)
  obtain ⟨entry, here, same⟩ := Option.map_eq_some_iff.mp found
  simp [find?, List.find?_append, here]

def rank (sized : SizeTable) (name : String) : Nat := (names sized).idxOf name

private theorem rank_append_of_mem {sized : SizeTable} {name : String} (known : name ∈ names sized)
    (more : SizeTable) : rank (sized ++ more) name = rank sized name := by
  simp only [names] at known
  simp only [rank, names, List.map_append, List.idxOf_append, known, if_true]

/-- The members of a structure have a cardinality, and the structures among their types have sizes and
are no messages. -/
def Covers (m : Model) (sized : SizeTable) (members : List Schema.Member) : Prop :=
  ∀ member ∈ members, member.cardinality ≠ 0 ∧ ∀ sub, m.structure? member.type = some sub →
    sub.isMessage = false ∧ member.type ∈ names sized

private theorem Covers.append {m : Model} {sized : SizeTable} {members : List Schema.Member}
    (covers : Covers m sized members) (more : SizeTable) : Covers m (sized ++ more) members := by
  intro member listed
  obtain ⟨counted, known⟩ := covers member listed
  refine ⟨counted, ?_⟩
  intro sub found
  obtain ⟨component, settled⟩ := known sub found
  refine ⟨component, ?_⟩
  simp only [names, List.map_append, List.mem_append]
  exact Or.inl settled

def totalsOf (m : Model) (sized : SizeTable) (totals : Totals) (members : List Schema.Member) : Totals :=
  members.foldl (fun totals member => totals.addMember member (sizeOf m sized member.type)) totals

/-- A table in which every structure was entered behind those of its members. -/
inductive Settled (m : Model) : SizeTable → Prop
  | nil : Settled m []
  | snoc {sized : SizeTable} {name : String} {s : Schema.Structure} (before : Settled m sized)
      (found : m.structure? name = some s) (covers : Covers m sized s.members) :
      Settled m (sized ++ [(name, (totalsOf m sized .zero s.members).size)])

theorem Settled.structure_of_mem {m : Model} {sized : SizeTable} (settled : Settled m sized)
    {name : String} (known : name ∈ names sized) : ∃ s, m.structure? name = some s := by
  induction settled with
  | nil => simp [names] at known
  | @snoc sized new s before found covers ih =>
    simp only [names, List.map_append, List.mem_append] at known
    rcases known with old | last
    · exact ih old
    · obtain rfl : name = new := by simpa using last
      exact ⟨s, found⟩

theorem find?_eq_none {sized : SizeTable} {name : String} (absent : name ∉ names sized) :
    find? sized name = none := by
  cases found : find? sized name with
  | none => rfl
  | some size => exact absurd (find?_isSome.mp (by simp [found])) absent

private theorem Covers.sizeOf_append {m : Model} {sized more : SizeTable} {members : List Schema.Member}
    (covers : Covers m sized members) (settled : Settled m (sized ++ more)) {member : Schema.Member}
    (listed : member ∈ members) : sizeOf m (sized ++ more) member.type = sizeOf m sized member.type := by
  simp only [sizeOf]
  cases m.type? member.type with
  | some type => rfl
  | none =>
    cases found : m.structure? member.type with
    | some sub => simp only [find?_append_of_mem ((covers member listed).2 sub found).2]
    | none =>
      have absent : member.type ∉ names (sized ++ more) := by
        intro known
        obtain ⟨s, present⟩ := settled.structure_of_mem known
        rw [found] at present
        cases present
      have before : member.type ∉ names sized := by
        intro known
        refine absent ?_
        simp only [names, List.map_append, List.mem_append]
        exact Or.inl known
      simp only [find?_eq_none absent, find?_eq_none before]

private theorem totalsOf_congr {m : Model} {sized other : SizeTable} {members : List Schema.Member}
    (same : ∀ member ∈ members, sizeOf m sized member.type = sizeOf m other member.type)
    (totals : Totals) : totalsOf m sized totals members = totalsOf m other totals members := by
  induction members generalizing totals with
  | nil => rfl
  | cons member rest ih =>
    have here := same member (by simp)
    have others := ih fun next later => same next (by simp [later])
    simp only [totalsOf, List.foldl_cons, here] at others ⊢
    exact others _

/-- What a table says about a structure with a size. -/
structure Entry (m : Model) (sized : SizeTable) (name : String) (s : Schema.Structure) : Prop where
  size : find? sized name = some (totalsOf m sized .zero s.members).size
  covers : Covers m sized s.members
  below : ∀ member ∈ s.members, ∀ sub, m.structure? member.type = some sub →
    rank sized member.type < rank sized name

private theorem Settled.entry {m : Model} {sized : SizeTable} (settled : Settled m sized) {name : String}
    {s : Schema.Structure} (known : name ∈ names sized) (found : m.structure? name = some s) :
    Entry m sized name s := by
  induction settled with
  | nil => simp [names] at known
  | @snoc sized new last before lastFound covers ih =>
    have whole := Settled.snoc before lastFound covers
    by_cases old : name ∈ names sized
    · -- an entry made before stays as it is
      obtain ⟨size, oldCovers, below⟩ := ih old
      refine ⟨?_, oldCovers.append _, ?_⟩
      · rw [find?_append_of_mem old, size]
        congr 2
        exact totalsOf_congr (fun member listed => (oldCovers.sizeOf_append whole listed).symm) .zero
      · intro member listed sub present
        rw [rank_append_of_mem ((oldCovers member listed).2 sub present).2, rank_append_of_mem old]
        exact below member listed sub present
    · have same : name = new := by
        simp only [names, List.map_append, List.mem_append] at known
        rcases known with present | only
        · exact absurd present old
        · simpa using only
      subst same
      obtain rfl : s = last := Option.some.inj (found.symm.trans lastFound)
      have position : rank (sized ++ [(name, (totalsOf m sized .zero s.members).size)]) name =
          sized.length := by
        simp only [names] at old
        simp [rank, names, List.idxOf_append, old]
      refine ⟨?_, covers.append _, ?_⟩
      · have absent := find?_eq_none old
        simp only [find?, Option.map_eq_none_iff] at absent
        have last : ∀ size, find? (sized ++ [(name, size)]) name = some size := by
          intro size
          simp [find?, List.find?_append, absent]
        have totals := totalsOf_congr (fun member listed => (covers.sizeOf_append whole listed).symm) .zero
        exact (last _).trans (congrArg (fun sums => some sums.size) totals)
      · intro member listed sub present
        have settledBefore := ((covers member listed).2 sub present).2
        rw [rank_append_of_mem settledBefore, position]
        simpa [rank, names] using List.idxOf_lt_length_of_mem settledBefore

end SizeTable

open SizeTable

/-- What settling one structure does to a table. -/
structure Settles (m : Model) (name : String) (sized next : SizeTable) : Prop where
  grows : ∃ more, next = sized ++ more
  settled : Settled m next
  entered : ∀ s, m.structure? name = some s → name ∈ names next

/-- Members are settled one after the other: the type of the first one, if it is a structure, and then the
others with the sizes after that. -/
theorem sizeMembers_cons_eq_ok {m : Model} {settle : String → SizeTable → Except SchemaError SizeTable}
    {owner : String} {member : Schema.Member} {rest : List Schema.Member} {sized : SizeTable} {totals : Totals}
    {done : SizeTable × Totals} :
    sizeMembers m settle owner (member :: rest) sized totals = .ok done ↔
      ∃ middle, member.cardinality ≠ 0 ∧
        (m.structure? member.type = none ∧ middle = sized ∨
          ∃ sub, m.structure? member.type = some sub ∧ sub.isMessage = false ∧
            settle member.type sized = .ok middle) ∧
        sizeMembers m settle owner rest middle (totals.addMember member (sizeOf m middle member.type)) =
          .ok done := by
  simp only [sizeMembers, throw, throwThe, MonadExceptOf.throw, pure, Except.pure, bind, Except.bind]
  cases found : m.structure? member.type with
  | none => by_cases counted : member.cardinality = 0 <;> simp [counted]
  | some sub =>
    have named : sub.name = member.type := by simpa using List.find?_some found
    simp only [named]
    cases component : sub.isMessage with
    | true => simp [component]
    | false =>
      cases settle member.type sized with
      | error => simp
      | ok middle => by_cases counted : member.cardinality = 0 <;> simp [component, counted]

/-- A structure with a size, and one that the model does not have, are left alone; another one enters the
table behind its members. -/
theorem sizeStructure_cases {m : Model} {fuel : Nat} {path : List String} {name : String}
    {sized next : SizeTable} (done : sizeStructure m (fuel + 1) path name sized = .ok next) :
    (name ∈ names sized ∨ m.structure? name = none) ∧ next = sized ∨
      ∃ s middle sums, m.structure? name = some s ∧
        sizeMembers m (sizeStructure m fuel (name :: path)) name s.members sized .zero = .ok (middle, sums) ∧
        sums.size.isOrdered = true ∧ next = middle ++ [(name, sums.size)] := by
  simp only [sizeStructure] at done
  split at done
  · rename_i known
    cases done
    exact .inl ⟨.inl (find?_isSome.mp known), rfl⟩
  · split at done
    · cases done
    · split at done
      · rename_i absent
        cases done
        exact .inl ⟨.inr absent, rfl⟩
      · rename_i s found
        split at done
        · cases done
        · rename_i middle sums members
          split at done
          · rename_i inOrder
            cases done
            exact .inr ⟨s, middle, sums, found, members, inOrder, rfl⟩
          · cases done

private theorem sizeMembers_cons {m : Model} {settle : String → SizeTable → Except SchemaError SizeTable}
    (one : ∀ name sized next, Settled m sized → settle name sized = .ok next → Settles m name sized next)
    {owner : String} {member : Schema.Member} {rest : List Schema.Member} {sized next : SizeTable}
    {totals sums : Totals} (before : Settled m sized)
    (done : sizeMembers m settle owner (member :: rest) sized totals = .ok (next, sums)) :
    ∃ more, Settled m (sized ++ more) ∧ Covers m (sized ++ more) [member] ∧
      sizeMembers m settle owner rest (sized ++ more)
        (totals.addMember member (sizeOf m (sized ++ more) member.type)) = .ok (next, sums) := by
  obtain ⟨middle, counted, ⟨found, rfl⟩ | ⟨sub, found, component, settledTo⟩, tail⟩ :=
    sizeMembers_cons_eq_ok.mp done
  · refine ⟨[], by simpa using before, ?_, by simpa using tail⟩
    intro only listed
    obtain rfl : only = member := by simpa using listed
    exact ⟨by simpa using counted, by simp [found]⟩
  · obtain ⟨⟨more, rfl⟩, settled, entered⟩ := one _ _ _ before settledTo
    refine ⟨more, settled, ?_, tail⟩
    intro only listed
    obtain rfl : only = member := by simpa using listed
    refine ⟨counted, ?_⟩
    intro other same
    obtain rfl := Option.some.inj (found.symm.trans same)
    exact ⟨component, entered _ found⟩

theorem sizeMembers_settles {m : Model} {settle : String → SizeTable → Except SchemaError SizeTable}
    (one : ∀ name sized next, Settled m sized → settle name sized = .ok next → Settles m name sized next)
    {owner : String} {members : List Schema.Member} {sized next : SizeTable} {totals sums : Totals}
    (before : Settled m sized)
    (done : sizeMembers m settle owner members sized totals = .ok (next, sums)) :
    (∃ more, next = sized ++ more) ∧ Settled m next ∧ Covers m next members ∧
      sums = totalsOf m next totals members := by
  induction members generalizing sized totals with
  | nil =>
    simp only [sizeMembers, Except.ok.injEq, Prod.mk.injEq] at done
    obtain ⟨rfl, rfl⟩ := done
    exact ⟨⟨[], by simp⟩, before, by simp [Covers], rfl⟩
  | cons member rest ih =>
    obtain ⟨more, settled, here, tail⟩ := sizeMembers_cons one before done
    obtain ⟨⟨others, rfl⟩, last, covers, sum⟩ := ih settled tail
    refine ⟨⟨more ++ others, by simp⟩, last, ?_, ?_⟩
    · intro other listed
      rcases List.mem_cons.mp listed with rfl | later
      · exact here.append others other (by simp)
      · exact covers other later
    · rw [sum, ← here.sizeOf_append last (by simp)]
      rfl

theorem sizeStructure_settles {m : Model} {fuel : Nat} {path : List String} {name : String}
    {sized next : SizeTable} (before : Settled m sized)
    (done : sizeStructure m fuel path name sized = .ok next) : Settles m name sized next := by
  induction fuel generalizing path name sized next with
  | zero => cases done
  | succ fuel ih =>
    obtain ⟨known | absent, rfl⟩ | ⟨s, middle, sums, found, members, _, rfl⟩ := sizeStructure_cases done
    · exact ⟨⟨[], by simp⟩, before, fun _ _ => known⟩
    · exact ⟨⟨[], by simp⟩, before, fun s present => by simp [absent] at present⟩
    · obtain ⟨⟨more, rfl⟩, settled, covers, rfl⟩ := sizeMembers_settles
        (fun _ _ _ good one => ih good one) before members
      refine ⟨⟨more ++ [(name, (totalsOf m (sized ++ more) .zero s.members).size)], by simp⟩,
        .snoc settled found covers, ?_⟩
      intro _ _
      simp [names]

theorem sizeAll_settles {m : Model} {structures : List Schema.Structure} {sized next : SizeTable}
    (before : Settled m sized) (done : sizeAll m structures sized = .ok next) :
    (∃ more, next = sized ++ more) ∧ Settled m next ∧
      ∀ s ∈ structures, (m.structure? s.name).isSome = true → s.name ∈ names next := by
  induction structures generalizing sized with
  | nil =>
    cases done
    exact ⟨⟨[], by simp⟩, before, by simp⟩
  | cons s rest ih =>
    simp only [sizeAll] at done
    split at done
    · cases done
    · rename_i middle settledTo
      obtain ⟨⟨more, rfl⟩, settled, entered⟩ := sizeStructure_settles before settledTo
      obtain ⟨⟨others, rfl⟩, last, known⟩ := ih settled done
      refine ⟨⟨more ++ others, by simp⟩, last, ?_⟩
      intro other listed present
      rcases List.mem_cons.mp listed with rfl | later
      · obtain ⟨found, here⟩ := Option.isSome_iff_exists.mp present
        have inside := entered found here
        simp only [names, List.map_append, List.mem_append] at inside ⊢
        exact Or.inl inside
      · exact known other later present

theorem Model.entry_of_sizes {m : Model} {sized : SizeTable} (done : m.sizes = .ok sized) {name : String}
    {s : Schema.Structure} (found : m.structure? name = some s) : Entry m sized name s := by
  obtain ⟨_, settled, known⟩ := sizeAll_settles .nil done
  have listed : s ∈ m.structures := List.mem_of_find?_eq_some found
  have named : s.name = name := by simpa using List.find?_some found
  refine settled.entry (named ▸ known s ?_ ?_) found
  · rw [List.mem_append, List.mem_filter, List.mem_filter]
    cases s.isMessage with
    | false => exact Or.inl ⟨listed, rfl⟩
    | true => exact Or.inr ⟨listed, rfl⟩
  · rw [named, found]
    rfl

end TradeWire
