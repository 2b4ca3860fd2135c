import TradeWire.Proofs.Layout.References

/-! Layouts built by recursion on the model, and the fuel that is always enough for it. -/

set_option autoImplicit false
set_option relaxedAutoImplicit false

namespace TradeWire

open Schema

namespace Layout

/-- Add members to the earlier fields, with the layouts of the structures among their types at hand. -/
def assemble (m : Model) (element : String → Layout) (owner : String) :
    List Member → List Field → Except SchemaError (List Field)
  | [], fields => .ok fields
  | member :: rest, fields =>
    match m.type? member.type with
    | some type =>
      match addPrimitive m owner member type fields with
      | .error fault => .error fault
      | .ok more => assemble m element owner rest more
    | none =>
      match addNested owner member (element member.type) fields with
      | .error fault => .error fault
      | .ok more => assemble m element owner rest more

/-- A structure is built to a layout, where all have these sizes. -/
inductive Builds (m : Model) (size : String → Size) : String → Layout → Prop
  | intro {name : String} {s : Structure} {element : String → Layout} {fields : List Field} {l : Layout}
      (found : m.structure? name = some s)
      (each : ∀ member ∈ s.members, m.type? member.type = none →
        Builds m size member.type (element member.type))
      (assembled : assemble m element name s.members [] = .ok fields)
      (finished : finish s (size name) fields = .ok l) : Builds m size name l

variable {m : Model} {size : String → Size}

private theorem assemble_congr {element other : String → Layout} {owner : String} {members : List Member}
    (same : ∀ member ∈ members, m.type? member.type = none → element member.type = other member.type)
    (fields : List Field) : assemble m element owner members fields = assemble m other owner members fields := by
  induction members generalizing fields with
  | nil => rfl
  | cons member rest ih =>
    have others := ih fun next later => same next (by simp [later])
    cases kind : m.type? member.type with
    | some type => simp only [assemble, kind, others]
    | none => simp only [assemble, kind, same member (by simp) kind, others]

private theorem Builds.structure? {name : String} {l : Layout} (builds : Builds m size name l) :
    ∃ s, m.structure? name = some s := by
  obtain ⟨found, _, _, _⟩ := builds
  exact ⟨_, found⟩

private theorem Builds.unique {name : String} {l other : Layout} (builds : Builds m size name l)
    (again : Builds m size name other) : other = l := by
  induction builds generalizing other with
  | @intro name s element fields l found each assembled finished ih =>
    obtain ⟨also, others, alsoAssembled, alsoFinished⟩ := again
    cases found.symm.trans also
    rw [assemble_congr fun member listed nested => ih member listed nested (others member listed nested),
      assembled] at alsoAssembled
    cases alsoAssembled
    rw [finished] at alsoFinished
    exact (Except.ok.inj alsoFinished).symm

/-- The layout that a structure is built to, if it is built at all. -/
noncomputable def built (m : Model) (size : String → Size) (name : String) : Layout :=
  Classical.epsilon (Builds m size name)

private theorem Builds.eq_built {name : String} {l : Layout} (builds : Builds m size name l) :
    built m size name = l :=
  builds.unique (Classical.epsilon_spec ⟨l, builds⟩)

private theorem name_of_finish {s : Structure} {own : Size} {fields : List Field} {l : Layout}
    (done : finish s own fields = .ok l) : l.name = s.name := by
  unfold finish at done
  split at done
  · split at done
    · cases done
    · cases done
      rfl
  · cases done
    rfl

/-- Everything that is compiled is what it is built to. -/
def Compiled.IsBuilt (m : Model) (size : String → Size) (compiled : Compiled) : Prop :=
  ∀ l ∈ compiled, Builds m size l.name l

section Soundness

variable {compiled next : Compiled}

private theorem compileMembers_builds {compile : String → Compiled → Except SchemaError (Compiled × Layout)}
    (one : ∀ name compiled next l, compiled.IsBuilt m size → compile name compiled = .ok (next, l) →
      next.IsBuilt m size ∧ Builds m size name l)
    {owner : String} {members : List Member} {earlier fields : List Field} (before : compiled.IsBuilt m size)
    (done : compileMembers m compile owner members compiled earlier = .ok (next, fields)) :
    next.IsBuilt m size ∧
      (∀ member ∈ members, m.type? member.type = none → Builds m size member.type (built m size member.type)) ∧
      assemble m (built m size) owner members earlier = .ok fields := by
  induction members generalizing compiled earlier with
  | nil =>
    cases done
    exact ⟨before, by simp, rfl⟩
  | cons member rest ih =>
    simp only [compileMembers] at done
    split at done
    · rename_i type kind
      split at done
      · cases done
      · rename_i more added
        obtain ⟨after, others, assembled⟩ := ih before done
        refine ⟨after, ?_, by simp only [assemble, kind, added, assembled]⟩
        intro other listed nested
        rcases List.mem_cons.mp listed with rfl | later
        · rw [kind] at nested
          cases nested
        · exact others other later nested
    · rename_i kind
      split at done
      · cases done
      · rename_i middle element found
        split at done
        · cases done
        · rename_i more added
          obtain ⟨good, builds⟩ := one _ _ _ _ before found
          obtain ⟨after, others, assembled⟩ := ih good done
          refine ⟨after, ?_, by simp only [assemble, kind, builds.eq_built, added, assembled]⟩
          intro other listed nested
          rcases List.mem_cons.mp listed with rfl | later
          · rw [builds.eq_built]
            exact builds
          · exact others other later nested

private theorem compileStructure_builds {sized : SizeTable} {fuel : Nat} {name : String} {l : Layout}
    (before : compiled.IsBuilt m (sized.sizeOf m))
    (done : compileStructure m sized fuel name compiled = .ok (next, l)) :
    next.IsBuilt m (sized.sizeOf m) ∧ Builds m (sized.sizeOf m) name l := by
  induction fuel generalizing name compiled next l with
  | zero => cases done
  | succ fuel ih =>
    simp only [compileStructure] at done
    split at done
    · rename_i known found
      cases done
      have named : l.name = name := by simpa using List.find?_some found
      have builds := before l (List.mem_of_find?_eq_some found)
      rw [named] at builds
      exact ⟨before, builds⟩
    · split at done
      · cases done
      · rename_i s found
        split at done
        · cases done
        · rename_i middle fields members
          split at done
          · cases done
          · rename_i new finished
            cases done
            obtain ⟨good, each, assembled⟩ :=
              compileMembers_builds (fun _ _ _ _ good one => ih good one) before members
            have builds : Builds m (sized.sizeOf m) name l := .intro found each assembled finished
            have named : l.name = name := (name_of_finish finished).trans (Model.name_of_structure? found)
            refine ⟨?_, builds⟩
            intro other listed
            rcases List.mem_append.mp listed with old | last
            · exact good other old
            · obtain rfl : other = l := by simpa using last
              rw [named]
              exact builds

private theorem compileAll_builds {sized : SizeTable} {structures : List Structure}
    (before : compiled.IsBuilt m (sized.sizeOf m))
    (done : compileAll m sized structures compiled = .ok next) : next.IsBuilt m (sized.sizeOf m) := by
  induction structures generalizing compiled with
  | nil =>
    cases done
    exact before
  | cons s rest ih =>
    simp only [compileAll] at done
    split at done
    · cases done
    · rename_i middle l first
      exact ih (compileStructure_builds before first).1 done

end Soundness

section Completeness

variable {compiled : Compiled}

private theorem exists_compileMembers {compile : String → Compiled → Except SchemaError (Compiled × Layout)}
    {element : String → Layout} {owner : String} {members : List Member} {earlier fields : List Field}
    (one : ∀ member ∈ members, m.type? member.type = none → ∀ compiled : Compiled, compiled.IsBuilt m size →
      ∃ next, compile member.type compiled = .ok (next, element member.type) ∧ next.IsBuilt m size)
    (assembled : assemble m element owner members earlier = .ok fields) (before : compiled.IsBuilt m size) :
    ∃ next, compileMembers m compile owner members compiled earlier = .ok (next, fields) := by
  induction members generalizing compiled earlier with
  | nil =>
    cases assembled
    exact ⟨compiled, rfl⟩
  | cons member rest ih =>
    simp only [assemble] at assembled
    split at assembled
    · rename_i type kind
      split at assembled
      · cases assembled
      · rename_i more added
        simp only [compileMembers, kind, added]
        exact ih (fun other later => one other (by simp [later])) assembled before
    · rename_i kind
      split at assembled
      · cases assembled
      · rename_i more added
        obtain ⟨middle, found, good⟩ := one member (by simp) kind compiled before
        simp only [compileMembers, kind, found, added]
        exact ih (fun other later => one other (by simp [later])) assembled good

private theorem exists_compileStructure (regular : m.IsRegular) (acyclic : m.IsAcyclic) {sized : SizeTable}
    {fuel : Nat}
    {path : List String} {name : String} {l : Layout} (leads : m.Leads path name)
    (enough : m.structures.length < fuel + path.length) (builds : Builds m (sized.sizeOf m) name l)
    (before : compiled.IsBuilt m (sized.sizeOf m)) :
    ∃ next, compileStructure m sized fuel name compiled = .ok (next, l) := by
  induction fuel generalizing path name compiled l with
  | zero =>
    have bound := leads.length_le
    omega
  | succ fuel ih =>
    simp only [compileStructure]
    cases known : compiled.find? name with
    | some other =>
      have named : other.name = name := by simpa using List.find?_some known
      have also := before other (List.mem_of_find?_eq_some known)
      rw [named] at also
      obtain rfl := builds.unique also
      exact ⟨compiled, rfl⟩
    | none =>
      obtain ⟨found, each, assembled, finished⟩ := builds
      rename_i s element fields
      have members : ∃ next, compileMembers m (compileStructure m sized fuel) name s.members compiled [] =
          .ok (next, fields) := by
        refine exists_compileMembers ?_ assembled before
        intro member listed nested compiled good
        have inside : (m.structure? member.type).isSome = true := by
          rcases regular.known name s found member listed with type | structure_
          · simp [nested] at type
          · exact structure_
        have further := leads.cons acyclic found listed inside
        have builds := each member listed nested
        obtain ⟨next, done⟩ := ih further (by rw [List.length_cons]; omega) builds good
        exact ⟨next, done, (compileStructure_builds good done).1⟩
      obtain ⟨middle, done⟩ := members
      exact ⟨middle ++ [l], by simp only [found, done, finished]⟩

private theorem exists_compileAll (regular : m.IsRegular) (acyclic : m.IsAcyclic) {sized : SizeTable}
    {structures : List Structure} (each : ∀ s ∈ structures, ∃ l, Builds m (sized.sizeOf m) s.name l)
    (before : compiled.IsBuilt m (sized.sizeOf m)) :
    ∃ next, compileAll m sized structures compiled = .ok next := by
  induction structures generalizing compiled with
  | nil => exact ⟨compiled, rfl⟩
  | cons s rest ih =>
    obtain ⟨l, builds⟩ := each s (by simp)
    have enough : m.structures.length < m.structures.length + 1 + ([] : List String).length := by simp
    obtain ⟨middle, first⟩ := exists_compileStructure regular acyclic (.nil m s.name) enough builds before
    simp only [compileAll, first]
    exact ih (fun other later => each other (by simp [later])) (compileStructure_builds before first).1

end Completeness

end Layout

namespace Table

variable {m : Model} {t : Table}

theorem compile_eq_ok : Table.compile m = .ok t ↔
    m.sizes = .ok t.sizes ∧ Layout.compileAll m t.sizes m.structures [] = .ok t.layouts ∧ t.model = m := by
  unfold Table.compile
  cases sized : m.sizes with
  | error fault => simp
  | ok sizes =>
    cases compiled : Layout.compileAll m sizes m.structures [] with
    | error fault =>
      simp only [compiled, reduceCtorEq, Except.ok.injEq, false_iff]
      rintro ⟨rfl, again, _⟩
      rw [compiled] at again
      cases again
    | ok layouts =>
      obtain ⟨model, own, all⟩ := t
      simp only [compiled, Except.ok.injEq, Table.mk.injEq]
      constructor
      · rintro ⟨rfl, rfl, rfl⟩
        exact ⟨rfl, compiled, rfl⟩
      · rintro ⟨rfl, again, rfl⟩
        rw [compiled] at again
        exact ⟨rfl, rfl, Except.ok.inj again⟩

theorem layout?_eq_some_iff (compiled : Table.compile m = .ok t) {name : String} {l : Layout} :
    t.layout? name = some l ↔ Layout.Builds m (t.sizes.sizeOf m) name l := by
  obtain ⟨_, layouts, _⟩ := compile_eq_ok.mp compiled
  obtain ⟨_, _, sound⟩ := Table.isSound_of_compile compiled
  have built : Layout.Compiled.IsBuilt m (t.sizes.sizeOf m) t.layouts :=
    Layout.compileAll_builds (by simp [Layout.Compiled.IsBuilt]) layouts
  constructor
  · intro found
    have named : l.name = name := by simpa using List.find?_some found
    rw [← named]
    exact built l (List.mem_of_find?_eq_some found)
  · intro builds
    obtain ⟨s, found⟩ := builds.structure?
    obtain ⟨other, listed, same⟩ :=
      Table.exists_layout_of_compile compiled s (List.mem_of_find?_eq_some found)
    have named : other.name = name := same.trans (Model.name_of_structure? found)
    have also := built other listed
    rw [named] at also
    obtain rfl := builds.unique also
    rw [← named]
    exact find?_of_nodup sound.distinct listed

/-- Compiling succeeds exactly when there are sizes and every structure can be built. -/
theorem exists_compile_iff (regular : m.IsRegular) : (∃ t, Table.compile m = .ok t) ↔
    ∃ sized, m.sizes = .ok sized ∧
      ∀ s ∈ m.structures, ∃ l, Layout.Builds m (sized.sizeOf m) s.name l := by
  constructor
  · rintro ⟨t, compiled⟩
    obtain ⟨sizes, _, _⟩ := compile_eq_ok.mp compiled
    refine ⟨t.sizes, sizes, ?_⟩
    intro s inside
    obtain ⟨l, listed, named⟩ := Table.exists_layout_of_compile compiled s inside
    obtain ⟨_, _, sound⟩ := Table.isSound_of_compile compiled
    refine ⟨l, (layout?_eq_some_iff compiled).mp ?_⟩
    rw [← named]
    exact find?_of_nodup sound.distinct listed
  · rintro ⟨sized, sizes, each⟩
    have acyclic := ((Model.exists_sizes_iff regular).mp ⟨sized, sizes⟩).acyclic
    obtain ⟨layouts, compiled⟩ := Layout.exists_compileAll regular acyclic each
      (show Layout.Compiled.IsBuilt m (sized.sizeOf m) [] by simp [Layout.Compiled.IsBuilt])
    exact ⟨⟨m, sized, layouts⟩, compile_eq_ok.mpr ⟨sizes, compiled, rfl⟩⟩

end Table

end TradeWire
