import TradeWire.Layout.Compile
import TradeWire.Proofs.Data.Related
import TradeWire.Proofs.Layout.Extent
import TradeWire.Proofs.Layout.Settled

/-! Every field of a layout stems from a member, and its elements are a layout of the same table. -/

set_option autoImplicit false
set_option relaxedAutoImplicit false

namespace TradeWire

open Schema

/-- An integer field has the sign, the constants, the symbols and the scale of its data type. A counter starts at
zero. -/
structure IntForm.Suits (type : DataType) (form : IntForm) : Prop where
  sign : form.isSigned = (type.isSigned && !type.isChar)
  noValue : type.rawNoValue = .ok form.noValue
  symbols : ∀ symbols ∈ form.symbols, type.symbols form.noValue = .ok symbols
  enumerated : form.symbols.isSome = type.isEnum
  scale : form.scale = if type.root == .floatDecimal then type.precision else 0
  initial : form.initial = if form.governs then 0 else type.initialValue form.noValue

/-- The kind of a primitive field is that of its data type, and what a fixed byte string starts with is no
longer than the field. -/
def Primitive.Suits (type : DataType) : Primitive → Prop
  | .int form => type.isInteger = true ∧ form.Suits type
  | .pad => type.isPadding = true
  | .bytes initial => type.variableSize = false ∧ ∀ data ∈ initial, data.length ≤ type.size
  | .varBytes _ => type.variableSize = true

/-- The repetition of a nested field is that of its member. -/
def Repetition.Suits (member : Member) : Repetition → Prop
  | .once => member.minCardinality = none ∧ member.cardinality ≤ 1
  | .array count => member.minCardinality = none ∧ 1 < member.cardinality ∧ count = member.cardinality
  | .group _ least most => member.minCardinality = some least ∧ most = member.cardinality

/-- A nested field holds as many elements at most as its member is declared to. -/
theorem Repetition.Suits.most_eq {member : Member} {repetition : Repetition} (suits : repetition.Suits member)
    (counted : member.cardinality ≠ 0) : repetition.most = member.cardinality := by
  cases repetition with
  | once =>
    have bound := suits.2
    simp only [Repetition.most]
    omega
  | array count => exact suits.2.2
  | group counter least most => exact suits.2

/-- How a field comes from a member: by a data type, or by a static layout compiled before. -/
inductive Field.Stems (m : Model) (compiled : List Layout) (member : Member) : Field → Prop
  | primitive {type : DataType} {kind : Primitive} (known : m.type? member.type = some type)
      (once : member.minCardinality = none ∧ member.cardinality ≤ 1) (suits : kind.Suits type) :
      Stems m compiled member (.primitive member.name member.type type.size kind)
  | nested {element : Layout} {repetition : Repetition} (other : m.type? member.type = none)
      (present : element ∈ compiled) (named : element.name = member.type)
      (static : element.size.isStatic = true) (suits : repetition.Suits member) :
      Stems m compiled member (.nested member.name repetition element)

namespace Field.Stems

variable {m : Model} {compiled : List Layout} {member : Member} {f : Field}

theorem name_eq (stems : f.Stems m compiled member) : f.name = member.name := by
  cases stems with
  | primitive => rfl
  | nested => rfl

private theorem append (stems : f.Stems m compiled member) (more : List Layout) :
    f.Stems m (compiled ++ more) member := by
  cases stems with
  | primitive known once suits => exact .primitive known once suits
  | nested other present named static suits =>
    exact .nested other (List.mem_append_left more present) named static suits

private theorem asCounter (stems : f.Stems m compiled member) : (Layout.asCounter f).Stems m compiled member := by
  cases stems with
  | @primitive type kind known once suits =>
    cases kind with
    | int form =>
      obtain ⟨integer, sign, noValue, symbols, enumerated, scale, _⟩ := suits
      exact .primitive known once ⟨integer, sign, noValue, symbols, enumerated, scale, rfl⟩
    | pad | bytes | varBytes => exact .primitive known once suits
  | nested other present named static suits => exact .nested other present named static suits

end Field.Stems

theorem Field.counter?_of_isDynamic (f : Field) (dynamic : f.isDynamic = true) :
    ∃ counter, f.counter? = some counter := by
  match f with
  | .primitive _ _ _ (.varBytes counter) | .nested _ (.group counter _ _) _ => exact ⟨counter, rfl⟩
  | .primitive _ _ _ (.int _) | .primitive _ _ _ .pad | .primitive _ _ _ (.bytes _)
  | .nested _ .once _ | .nested _ (.array _) _ => simp [Field.isDynamic] at dynamic

theorem Field.isDynamic_of_counter? (f : Field) {counter : Nat} (governed : f.counter? = some counter) :
    f.isDynamic = true := by
  match f with
  | .primitive _ _ _ (.varBytes _) | .nested _ (.group ..) _ => rfl
  | .primitive _ _ _ (.int _) | .primitive _ _ _ .pad | .primitive _ _ _ (.bytes _)
  | .nested _ .once _ | .nested _ (.array _) _ => simp [Field.counter?] at governed

private theorem counter?_asCounter (f : Field) : (Layout.asCounter f).counter? = f.counter? := by
  match f with
  | .primitive _ _ _ (.int _) | .primitive _ _ _ .pad | .primitive _ _ _ (.bytes _)
  | .primitive _ _ _ (.varBytes _) | .nested .. => rfl

private theorem IsCounterAt.modify {fields : List Field} {i : Nat} (counter : IsCounterAt fields i) (j : Nat) :
    IsCounterAt (fields.modify j Layout.asCounter) i := by
  obtain ⟨name, type, size, form, here, governs, initial⟩ := counter
  by_cases same : j = i
  · refine ⟨name, type, size, { form with governs := true, initial := 0 }, ?_, rfl, rfl⟩
    simp [same, here, Layout.asCounter]
  · exact ⟨name, type, size, form, by simp [same, here], governs, initial⟩

private theorem IsCounterAt.append {fields : List Field} {i : Nat} (counter : IsCounterAt fields i)
    (more : List Field) : IsCounterAt (fields ++ more) i := by
  obtain ⟨name, type, size, form, here, marked⟩ := counter
  have inside : i < fields.length := (List.getElem?_eq_some_iff.mp here).1
  exact ⟨name, type, size, form, by rw [List.getElem?_append_left inside, here], marked⟩

private theorem isCounterAt_modify {fields : List Field} {i size : Nat} {name type : String} {form : IntForm}
    (here : fields[i]? = some (.primitive name type size (.int form))) :
    IsCounterAt (fields.modify i Layout.asCounter) i :=
  ⟨name, type, size, { form with governs := true, initial := 0 },
    by simp [here, Layout.asCounter], rfl, rfl⟩

namespace CountersPrecede

variable {fields : List Field}

private theorem nil : CountersPrecede [] := by
  intro i f counter here
  simp at here

private theorem modify (precede : CountersPrecede fields) (j : Nat) :
    CountersPrecede (fields.modify j Layout.asCounter) := by
  intro i f counter here governed
  rw [List.getElem?_modify] at here
  obtain ⟨g, there, changed⟩ := Option.map_eq_some_iff.mp here
  have same : g.counter? = some counter := by
    split at changed
    · rw [← counter?_asCounter, changed, governed]
    · rw [← governed, ← changed]
  obtain ⟨before, marked⟩ := precede i g counter there same
  exact ⟨before, marked.modify j⟩

private theorem snoc (precede : CountersPrecede fields) {f : Field}
    (linked : ∀ counter, f.counter? = some counter → IsCounterAt fields counter) :
    CountersPrecede (fields ++ [f]) := by
  intro i g counter here governed
  by_cases old : i < fields.length
  · rw [List.getElem?_append_left old] at here
    obtain ⟨before, marked⟩ := precede i g counter here governed
    exact ⟨before, marked.append [f]⟩
  · have last : g = f ∧ i = fields.length := by
      rw [List.getElem?_append_right (by omega)] at here
      obtain ⟨inside, same⟩ := List.getElem?_eq_some_iff.mp here
      simp only [List.length_singleton] at inside
      have zero : i - fields.length = 0 := by omega
      simp only [zero, List.getElem_cons_zero] at same
      exact ⟨same.symm, by omega⟩
    obtain ⟨rfl, rfl⟩ := last
    have marked := linked counter governed
    obtain ⟨_, _, _, _, there, _⟩ := marked
    exact ⟨(List.getElem?_eq_some_iff.mp there).1, (linked counter governed).append [g]⟩

end CountersPrecede

/-- The fields stem from the members, with their counters before them. -/
structure FieldsStem (m : Model) (compiled : List Layout) (members : List Member) (fields : List Field) :
    Prop where
  related : List.Forall₂ (Field.Stems m compiled) members fields
  counters : CountersPrecede fields

theorem FieldsStem.of_mem {m : Model} {compiled : List Layout} {members : List Member}
    {fields : List Field} (stem : FieldsStem m compiled members fields) {f : Field} (member : f ∈ fields) :
    ∃ source ∈ members, f.Stems m compiled source := by
  obtain ⟨i, here⟩ := List.mem_iff_getElem?.mp member
  obtain ⟨source, there, stems⟩ := forall₂_getElem? stem.related.flip here
  exact ⟨source, List.mem_of_getElem? there, stems⟩

private theorem FieldsStem.append {m : Model} {compiled : List Layout} {members : List Member}
    {fields : List Field} (stem : FieldsStem m compiled members fields) (more : List Layout) :
    FieldsStem m (compiled ++ more) members fields :=
  ⟨stem.related.imp fun _ _ stems => stems.append more, stem.counters⟩

/-- How adding a member changes the fields: an earlier one may be marked, and a new one comes last. -/
def AddsField (m : Model) (compiled : List Layout) (member : Member) (earlier more : List Field) : Prop :=
  ∃ base f, more = base ++ [f] ∧ (base = earlier ∨ ∃ i, base = earlier.modify i Layout.asCounter) ∧
    f.Stems m compiled member ∧ ∀ counter, f.counter? = some counter → IsCounterAt base counter

private theorem FieldsStem.add {m : Model} {compiled : List Layout} {members : List Member} {member : Member}
    {earlier more : List Field} (stem : FieldsStem m compiled members earlier)
    (adds : AddsField m compiled member earlier more) :
    FieldsStem m compiled (members ++ [member]) more := by
  obtain ⟨base, f, rfl, marked, stems, linked⟩ := adds
  have kept : FieldsStem m compiled members base := by
    rcases marked with rfl | ⟨i, rfl⟩
    · exact stem
    · exact ⟨forall₂_modify stem.related fun _ _ _ _ old => old.asCounter, stem.counters.modify i⟩
  exact ⟨List.rel_append kept.related (.cons stems .nil), kept.counters.snoc linked⟩

namespace Layout

private theorem linkCounter_eq_ok {owner : String} {member : Member} {earlier linked : List Field} {i : Nat}
    (done : linkCounter owner member earlier = .ok (i, linked)) :
    linked = earlier.modify i asCounter ∧ IsCounterAt linked i := by
  unfold linkCounter at done
  split at done
  · cases done
  · split at done
    · cases done
    · split at done
      · cases done
      · rename_i form found
        cases done
        obtain ⟨f, here, kind⟩ := Option.bind_eq_some_iff.mp found
        obtain ⟨_, _, _, rfl⟩ := Field.exists_of_intForm? kind
        exact ⟨rfl, isCounterAt_modify here⟩

private theorem addPrimitive_adds {m : Model} {compiled : List Layout} {owner : String} {member : Member}
    {type : DataType} {earlier more : List Field} (known : m.type? member.type = some type)
    (done : addPrimitive m owner member type earlier = .ok more) :
    AddsField m compiled member earlier more := by
  unfold addPrimitive at done
  simp only [throw, throwThe, MonadExceptOf.throw, pure, Except.pure, bind, Except.bind] at done
  split at done
  · cases done
  · rename_i single
    have once : member.minCardinality = none ∧ member.cardinality ≤ 1 := by
      simp only [Bool.or_eq_true, decide_eq_true_eq, not_or, Bool.not_eq_true,
        Option.isSome_eq_false_iff, Option.isNone_iff_eq_none] at single
      exact ⟨single.2, by omega⟩
    have plain : ∀ kind : Primitive, kind.Suits type →
        (Field.primitive member.name member.type type.size kind).counter? = none →
          AddsField m compiled member earlier
            (earlier ++ [.primitive member.name member.type type.size kind]) := by
      intro kind suits free
      exact ⟨earlier, _, rfl, Or.inl rfl, .primitive known once suits, by simp [free]⟩
    split at done
    · rename_i padding
      cases done
      exact plain .pad padding rfl
    · split at done
      · rename_i integer
        split at done
        · cases done
        · rename_i noValue read
          split at done
          · rename_i enumerated
            split at done
            · cases done
            · rename_i symbols named
              cases done
              obtain ⟨declared, found, rfl⟩ := map_eq_ok.mp named
              refine plain (.int _) ⟨integer, rfl, read, ?_, by simp [enumerated], rfl, rfl⟩ rfl
              rintro _ ⟨⟩
              exact found
          · rename_i plainly
            cases done
            exact plain (.int _) ⟨integer, rfl, read, by simp, by simpa using plainly, rfl, rfl⟩ rfl
      · split at done
        · rename_i varies
          split at done
          · cases done
          · rename_i linked found
            cases done
            obtain ⟨same, counter⟩ := linkCounter_eq_ok found
            refine ⟨linked.2, _, rfl, Or.inr ⟨linked.1, same⟩, .primitive known once varies, ?_⟩
            intro i governed
            obtain rfl : linked.1 = i := Option.some.inj governed
            exact counter
        · rename_i fixed
          cases done
          refine plain (.bytes _) ⟨by simpa using fixed, ?_⟩ rfl
          intro data initial
          obtain ⟨version, _, rfl⟩ := Option.map_eq_some_iff.mp initial
          exact List.length_take_le _ _

private theorem addNested_adds {m : Model} {compiled : List Layout} {owner : String} {member : Member}
    {element : Layout} {earlier more : List Field} (other : m.type? member.type = none)
    (present : element ∈ compiled) (named : element.name = member.type)
    (done : addNested owner member element earlier = .ok more) :
    AddsField m compiled member earlier more := by
  unfold addNested at done
  split at done
  · cases done
  · rename_i fixed
    have static : element.size.isStatic = true := by simpa using fixed
    split at done
    · rename_i least counted
      split at done
      · cases done
      · rename_i counter linked found
        cases done
        obtain ⟨same, marked⟩ := linkCounter_eq_ok found
        refine ⟨linked, _, rfl, Or.inr ⟨counter, same⟩,
          .nested other present named static
            (show (Repetition.group counter least member.cardinality).Suits member from ⟨counted, rfl⟩), ?_⟩
        intro i governed
        obtain rfl : counter = i := Option.some.inj governed
        exact marked
    · rename_i uncounted
      split at done
      · rename_i many
        cases done
        exact ⟨earlier, _, rfl, Or.inl rfl,
          .nested other present named static
            (show (Repetition.array member.cardinality).Suits member from ⟨uncounted, many, rfl⟩),
          by simp [Field.counter?]⟩
      · rename_i few
        cases done
        exact ⟨earlier, _, rfl, Or.inl rfl,
          .nested other present named static
            (show Repetition.once.Suits member from ⟨uncounted, Nat.not_lt.mp few⟩),
          by simp [Field.counter?]⟩

/-- A layout compiled from a structure of the model, its elements being among the compiled ones. -/
structure Stems (m : Model) (sized : SizeTable) (compiled : List Layout) (l : Layout) (s : Structure) :
    Prop where
  found : m.structure? l.name = some s
  fields : FieldsStem m compiled s.members l.fields
  size : l.size = sized.sizeOf m l.name
  message : l.message = none ∧ s.isMessage = false ∨
    ∃ link, l.message = some ⟨s.templateId, link⟩ ∧ s.isMessage = true ∧
      linkHeader (.mk l.name none l.size l.fields) = .ok link

private theorem Stems.append {m : Model} {sized : SizeTable} {compiled : List Layout} {l : Layout}
    {s : Structure} (stems : l.Stems m sized compiled s) (more : List Layout) :
    l.Stems m sized (compiled ++ more) s :=
  ⟨stems.found, stems.fields.append more, stems.size, stems.message⟩

/-- Every layout compiled so far stems from a structure, and no two have the same name. -/
structure Compiled.IsSound (m : Model) (sized : SizeTable) (compiled : Compiled) : Prop where
  stems : ∀ l ∈ compiled, ∃ s, l.Stems m sized compiled s
  distinct : (compiled.map name).Nodup

private theorem Compiled.IsSound.snoc {m : Model} {sized : SizeTable} {compiled : Compiled} {l : Layout}
    {s : Structure} (sound : IsSound m sized compiled) (stems : l.Stems m sized compiled s)
    (fresh : l.name ∉ compiled.map Layout.name) : IsSound m sized (compiled ++ [l]) := by
  refine ⟨?_, ?_⟩
  · intro other listed
    rcases List.mem_append.mp listed with old | new
    · obtain ⟨source, known⟩ := sound.stems other old
      exact ⟨source, known.append [l]⟩
    · obtain rfl : other = l := by simpa using new
      exact ⟨s, stems.append [other]⟩
  · rw [List.map_append]
    exact nodup_append_singleton sound.distinct fresh

/-- What compiling the structure `name` does: layouts of structures up to it are added, and the one
asked for is among the compiled ones. -/
structure Compiles (m : Model) (sized : SizeTable) (name : String) (compiled next : Compiled)
    (l : Layout) : Prop where
  grows : ∃ more, next = compiled ++ more ∧
    ∀ other ∈ more, sized.rank other.name ≤ sized.rank name
  sound : next.IsSound m sized
  present : l ∈ next
  named : l.name = name

private theorem compileMembers_stem {m : Model} {sized : SizeTable}
    {compile : String → Compiled → Except SchemaError (Compiled × Layout)}
    (one : ∀ name compiled next l, compiled.IsSound m sized → compile name compiled = .ok (next, l) →
      Compiles m sized name compiled next l)
    {owner : String} {bound : Nat} {members before : List Member} {compiled next : Compiled}
    {earlier fields : List Field} (sound : compiled.IsSound m sized)
    (stem : FieldsStem m compiled before earlier)
    (below : ∀ member ∈ members, ∀ sub, m.structure? member.type = some sub →
      sized.rank member.type < bound)
    (done : compileMembers m compile owner members compiled earlier = .ok (next, fields)) :
    (∃ more, next = compiled ++ more ∧ ∀ other ∈ more, sized.rank other.name < bound) ∧
      next.IsSound m sized ∧ FieldsStem m next (before ++ members) fields := by
  induction members generalizing before compiled earlier with
  | nil =>
    cases done
    exact ⟨⟨[], by simp, by simp⟩, sound, by simpa using stem⟩
  | cons member rest ih =>
    simp only [compileMembers] at done
    split at done
    · rename_i type known
      split at done
      · cases done
      · rename_i more added
        have here := stem.add (addPrimitive_adds known added)
        have others := ih sound here (fun next later => below next (by simp [later])) done
        simpa using others
    · rename_i other
      split at done
      · cases done
      · rename_i middle element found
        split at done
        · cases done
        · rename_i more added
          obtain ⟨⟨new, rfl, ranks⟩, middleSound, present, named⟩ := one _ _ _ _ sound found
          obtain ⟨source, stems⟩ := middleSound.stems element present
          have smaller := below member (by simp) source (named ▸ stems.found)
          have here := (stem.append new).add (addNested_adds other present named added)
          obtain ⟨⟨later, rfl, laterRanks⟩, nextSound, whole⟩ :=
            ih middleSound here (fun next later => below next (by simp [later])) done
          refine ⟨⟨new ++ later, by simp, ?_⟩, nextSound, by simpa using whole⟩
          intro next listed
          rcases List.mem_append.mp listed with first | second
          · have upTo := ranks next first
            omega
          · exact laterRanks next second

private theorem finish_stems {m : Model} {sized : SizeTable} {compiled : Compiled} {s : Structure} {name : String}
    {fields : List Field} {l : Layout} (found : m.structure? name = some s)
    (stem : FieldsStem m compiled s.members fields)
    (done : finish s (SizeTable.sizeOf m sized name) fields = .ok l) :
    l.name = name ∧ l.Stems m sized compiled s := by
  have named : s.name = name := by simpa using List.find?_some found
  unfold finish at done
  split at done
  · rename_i message
    split at done
    · cases done
    · rename_i link linked
      cases done
      refine ⟨named, ?_, stem, ?_, Or.inr ⟨link, rfl, message, linked⟩⟩
      · rw [← found, ← named]
        rfl
      · rw [← named]
        rfl
  · rename_i component
    cases done
    refine ⟨named, ?_, stem, ?_, Or.inl ⟨rfl, by simpa using component⟩⟩
    · rw [← found, ← named]
      rfl
    · rw [← named]
      rfl

private theorem compileStructure_compiles {m : Model} {sized : SizeTable}
    (entries : ∀ name s, m.structure? name = some s → SizeTable.Entry m sized name s) {fuel : Nat}
    {name : String} {compiled next : Compiled} {l : Layout} (sound : compiled.IsSound m sized)
    (done : compileStructure m sized fuel name compiled = .ok (next, l)) :
    Compiles m sized name compiled next l := by
  induction fuel generalizing name compiled next l with
  | zero => cases done
  | succ fuel ih =>
    simp only [compileStructure] at done
    split at done
    · rename_i known found
      cases done
      exact ⟨⟨[], by simp, by simp⟩, sound, List.mem_of_find?_eq_some found,
        by simpa using List.find?_some found⟩
    · rename_i absent
      split at done
      · cases done
      · rename_i s found
        split at done
        · cases done
        · rename_i middle fields members
          split at done
          · cases done
          · rename_i new finished
            cases done
            obtain ⟨⟨more, rfl, ranks⟩, middleSound, stem⟩ := compileMembers_stem
              (fun _ _ _ _ good one => ih good one) sound ⟨.nil, .nil⟩ (entries name s found).below members
            obtain ⟨named, stems⟩ := finish_stems found stem finished
            -- the layouts added on the way are of smaller rank, so the name is still new
            have fresh : l.name ∉ (compiled ++ more).map Layout.name := by
              intro taken
              obtain ⟨other, listed, same⟩ := List.mem_map.mp taken
              rcases List.mem_append.mp listed with old | added
              · have clash := List.find?_eq_none.mp absent other old
                simp [same, named] at clash
              · have smaller := ranks other added
                rw [same, named] at smaller
                omega
            refine ⟨⟨more ++ [l], by simp, ?_⟩, middleSound.snoc stems fresh, by simp, named⟩
            intro other listed
            rcases List.mem_append.mp listed with added | last
            · exact Nat.le_of_lt (ranks other added)
            · obtain rfl : other = l := by simpa using last
              exact Nat.le_of_eq (congrArg sized.rank named)

private theorem compileAll_isSound {m : Model} {sized : SizeTable}
    (entries : ∀ name s, m.structure? name = some s → SizeTable.Entry m sized name s)
    {structures : List Structure} {compiled next : Compiled} (sound : compiled.IsSound m sized)
    (done : compileAll m sized structures compiled = .ok next) : next.IsSound m sized := by
  induction structures generalizing compiled with
  | nil =>
    cases done
    exact sound
  | cons s rest ih =>
    simp only [compileAll] at done
    split at done
    · cases done
    · rename_i middle l first
      exact ih (compileStructure_compiles entries sound first).sound done

private theorem compileAll_covers {m : Model} {sized : SizeTable}
    (entries : ∀ name s, m.structure? name = some s → SizeTable.Entry m sized name s)
    {structures : List Structure} {compiled next : Compiled} (sound : compiled.IsSound m sized)
    (done : compileAll m sized structures compiled = .ok next) :
    (∀ l ∈ compiled, l ∈ next) ∧ ∀ s ∈ structures, ∃ l ∈ next, l.name = s.name := by
  induction structures generalizing compiled with
  | nil =>
    cases done
    exact ⟨fun l known => known, by simp⟩
  | cons s rest ih =>
    simp only [compileAll] at done
    split at done
    · cases done
    · rename_i middle l first
      have step := compileStructure_compiles entries sound first
      obtain ⟨more, rfl, _⟩ := step.grows
      obtain ⟨kept, others⟩ := ih step.sound done
      refine ⟨fun other known => kept other (List.mem_append_left more known), ?_⟩
      intro other member
      rcases List.mem_cons.mp member with rfl | later
      · exact ⟨l, kept l step.present, step.named⟩
      · exact others other later

end Layout

theorem Table.isSound_of_compile {m : Model} {t : Table} (done : Table.compile m = .ok t) :
    t.model = m ∧ m.sizes = .ok t.sizes ∧ Layout.Compiled.IsSound m t.sizes t.layouts := by
  unfold Table.compile at done
  split at done
  · cases done
  · rename_i sizes settled
    split at done
    · cases done
    · rename_i layouts compiled
      cases done
      refine ⟨rfl, settled, Layout.compileAll_isSound ?_ ⟨by simp, by simp⟩ compiled⟩
      intro name s found
      exact Model.entry_of_sizes settled found

theorem Table.exists_layout_of_compile {m : Model} {t : Table} (done : Table.compile m = .ok t) :
    ∀ s ∈ m.structures, ∃ l ∈ t.layouts, l.name = s.name := by
  unfold Table.compile at done
  split at done
  · cases done
  · rename_i sizes settled
    split at done
    · cases done
    · rename_i layouts compiled
      cases done
      refine (Layout.compileAll_covers ?_ ⟨by simp, by simp⟩ compiled).2
      intro name s found
      exact Model.entry_of_sizes settled found

end TradeWire
