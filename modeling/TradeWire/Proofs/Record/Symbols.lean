import TradeWire.Proofs.Layout.Soundness
import TradeWire.Proofs.Record.Numbers
import TradeWire.Record.Dump

/-! A slot remembers the symbol of its number unless the record sets that number itself. -/

set_option autoImplicit false
set_option relaxedAutoImplicit false

namespace TradeWire

namespace Layout

/-- The number at a position counts a sibling. -/
def Counts (l : Layout) (i : Nat) : Prop := ∃ f ∈ l.fields, f.counter? = some i

/-- The number at a position of the header, itself at a position of the message, announces the length. -/
def Announces (l : Layout) (i j : Nat) : Prop :=
  ∃ info ∈ l.message, info.header.field = i ∧ info.header.bodyLen = j

instance (l : Layout) (i : Nat) : Decidable (l.Counts i) :=
  inferInstanceAs (Decidable (∃ f ∈ l.fields, f.counter? = some i))

instance (l : Layout) (i j : Nat) : Decidable (l.Announces i j) :=
  inferInstanceAs (Decidable (∃ info ∈ l.message, info.header.field = i ∧ info.header.bodyLen = j))

/-- Nothing but the symbols of its numbers is remembered in an instance, at any depth. Left out are the
numbers that are set from what they count or announce; in the instance itself these are its counters and the
positions given as `announced`. -/
inductive Current : (Nat → Prop) → Layout → List Slot → Prop
  | intro {announced : Nat → Prop} {l : Layout} {slots : List Slot}
      (numbers : ∀ (i : Nat) (name type : String) (size : Nat) (form : IntForm) (raw : UInt64)
        (symbol : String), l.fields[i]? = some (.primitive name type size (.int form)) →
          slots[i]? = some (.int raw symbol) → ¬(l.Counts i ∨ announced i) → form.Remembers raw symbol)
      (structures : ∀ (i : Nat) (name : String) (repetition : Repetition) (element : Layout)
        (inner : List Slot), l.fields[i]? = some (.nested name repetition element) →
          slots[i]? = some (.struct inner) → Current (l.Announces i) element inner)
      (items : ∀ (i : Nat) (name : String) (repetition : Repetition) (element : Layout)
        (items : List (List Slot)) (item : List Slot),
          l.fields[i]? = some (.nested name repetition element) → slots[i]? = some (.elems items) →
            item ∈ items → Current (fun _ => False) element item) :
      Current announced l slots

end Layout

/-- Nothing but the symbols of its numbers is remembered in a slot. A computed number may remember any. -/
def Field.Current (computed : Prop) (announced : Nat → Prop) : Field → Slot → Prop
  | .primitive _ _ _ (.int form), .int raw symbol => ¬computed → form.Remembers raw symbol
  | .nested _ _ element, .struct inner => element.Current announced inner
  | .nested _ _ element, .elems items => ∀ item ∈ items, element.Current (fun _ => False) item
  | _, _ => True

private theorem Field.current_primitive {name type : String} {size : Nat} {kind : Primitive} {computed : Prop}
    {announced : Nat → Prop} {s : Slot} (plain : ∀ raw symbol, s ≠ .int raw symbol) :
    (Field.primitive name type size kind).Current computed announced s := by
  cases s with
  | int raw symbol => exact absurd rfl (plain raw symbol)
  | pad | bytes | struct | elems =>
    cases kind with
    | int | pad | bytes | varBytes => trivial

private theorem Layout.current_iff {announced : Nat → Prop} {l : Layout} {slots : List Slot} :
    l.Current announced slots ↔ ∀ (i : Nat) (f : Field) (s : Slot), l.fields[i]? = some f →
      slots[i]? = some s → f.Current (l.Counts i ∨ announced i) (l.Announces i) s := by
  constructor
  · rintro ⟨numbers, structures, items⟩ i f s here there
    unfold Field.Current
    split
    · exact numbers i _ _ _ _ _ _ here there
    · exact structures i _ _ _ _ here there
    · exact fun item => items i _ _ _ _ item here there
    · trivial
  · intro all
    exact .intro (fun i name type size form raw symbol here there => all i _ _ here there)
      (fun i name repetition element inner here there => all i _ _ here there)
      fun i name repetition element items item here there => all i _ _ here there item

theorem Layout.Current.mono {announced more : Nat → Prop} {l : Layout} {slots : List Slot}
    (current : l.Current announced slots) (weaker : ∀ i, announced i → more i) : l.Current more slots := by
  obtain ⟨numbers, structures, items⟩ := current
  refine .intro ?_ structures items
  intro i name type size form raw symbol here there own
  exact numbers i name type size form raw symbol here there fun computed => own (computed.imp_right (weaker i))

private theorem Field.Current.mono {computed others : Prop} {announced more : Nat → Prop} {f : Field} {s : Slot}
    (current : f.Current computed announced s) (left : computed → others)
    (weaker : ∀ i, announced i → more i) : f.Current others more s := by
  unfold Field.Current at current ⊢
  split
  · exact fun own => current fun computed => own (left computed)
  · exact Layout.Current.mono current weaker
  · exact current
  · trivial

section Changes

variable {announced : Nat → Prop} {l : Layout} {slots : List Slot}

private theorem Layout.Current.modify {i : Nat} {change : Slot → Slot} (current : l.Current announced slots)
    (good : ∀ f s, l.fields[i]? = some f → slots[i]? = some s →
      f.Current (l.Counts i ∨ announced i) (l.Announces i) s →
        f.Current (l.Counts i ∨ announced i) (l.Announces i) (change s)) :
    l.Current announced (slots.modify i change) := by
  rw [Layout.current_iff] at current ⊢
  intro k f s here there
  rw [List.getElem?_modify] at there
  obtain ⟨old, before, rfl⟩ := Option.map_eq_some_iff.mp there
  have was := current k f old here before
  by_cases same : i = k
  · subst same
    simpa using good f old here before was
  · simpa [same] using was

private theorem Layout.Current.setRawAt (current : l.Current announced slots) {i : Nat}
    (computed : l.Counts i ∨ announced i) (raw : UInt64) : l.Current announced (setRawAt slots i raw) := by
  refine current.modify ?_
  intro f s _ _ was
  cases s with
  | int old symbol =>
    cases f with
    | primitive name type size kind =>
      cases kind with
      | int form => exact fun own => absurd computed own
      | pad | bytes | varBytes => trivial
    | nested name repetition element => trivial
  | pad | bytes | struct | elems => exact was

private theorem Layout.Current.setCounters (current : l.Current announced slots) :
    l.Current announced (setCounters l.fields slots) := by
  unfold TradeWire.setCounters
  refine List.foldlRecOn (motive := fun acc => l.Current announced acc) _ _ current ?_
  rintro acc holds ⟨f, s⟩ member
  simp only
  split
  · rename_i counter governed
    exact holds.setRawAt (.inl ⟨f, (List.of_mem_zip member).1, governed⟩) _
  · exact holds

private theorem Layout.Current.setBodyLen (current : l.Current announced slots) {info : MessageInfo}
    (message : l.message = some info) (raw : UInt64) :
    l.Current announced (setNestedRaw slots info.header.field info.header.bodyLen raw) := by
  refine current.modify ?_
  intro f s _ _ was
  cases s with
  | struct inner =>
    cases f with
    | primitive => exact Field.current_primitive (by simp)
    | nested name repetition element =>
      have header : element.Current (l.Announces info.header.field) inner := was
      exact header.setRawAt (.inr ⟨info, message, rfl, rfl⟩) raw
  | pad | int | bytes | elems => exact was

end Changes

/-- A slot in which nothing is remembered, at any depth. -/
inductive Slot.IsUnnamed : Slot → Prop
  | pad : IsUnnamed .pad
  | int (raw : UInt64) : IsUnnamed (.int raw "")
  | bytes (data : Bytes) : IsUnnamed (.bytes data)
  | struct {slots : List Slot} (all : ∀ s ∈ slots, IsUnnamed s) : IsUnnamed (.struct slots)
  | elems {items : List (List Slot)} (all : ∀ item ∈ items, ∀ s ∈ item, IsUnnamed s) :
      IsUnnamed (.elems items)

private theorem Slot.IsUnnamed.withRaw {s : Slot} (unnamed : s.IsUnnamed) (raw : UInt64) :
    (s.withRaw raw).IsUnnamed := by
  cases unnamed with
  | int old => exact .int raw
  | pad => exact .pad
  | bytes data => exact .bytes data
  | struct all => exact .struct all
  | elems all => exact .elems all

private theorem isUnnamed_setNestedRaw {slots : List Slot} (unnamed : ∀ s ∈ slots, s.IsUnnamed) (i j : Nat)
    (raw : UInt64) : ∀ s ∈ setNestedRaw slots i j raw, s.IsUnnamed := by
  refine forall_mem_modify unnamed ?_
  intro s there
  have was := unnamed s (List.mem_of_getElem? there)
  cases was with
  | struct all => exact .struct (forall_mem_modify all fun t here => (all t (List.mem_of_getElem? here)).withRaw raw)
  | pad => exact .pad
  | int old => exact .int old
  | bytes data => exact .bytes data
  | elems all => exact .elems all

private theorem Layout.isUnnamed_initialSlots (l : Layout) : ∀ s ∈ l.initialSlots, s.IsUnnamed := by
  induction l using Layout.nesting with
  | step name message size fields ih =>
    have fresh : ∀ s ∈ initialFieldSlots fields, s.IsUnnamed := by
      intro s member
      rw [initialFieldSlots_eq_map] at member
      obtain ⟨f, listed, rfl⟩ := List.mem_map.mp member
      cases f with
      | primitive name type size kind =>
        cases kind with
        | int form => exact .int form.initial
        | pad => exact .pad
        | bytes initial => exact .bytes _
        | varBytes counter => exact .bytes []
      | nested name repetition element =>
        have below := ih _ listed element rfl
        cases repetition with
        | once => exact .struct below
        | array count => exact .elems fun item inside => List.eq_of_mem_replicate inside ▸ below
        | group counter least most => exact .elems (by simp)
    cases message with
    | none => exact fresh
    | some info => exact isUnnamed_setNestedRaw (isUnnamed_setNestedRaw fresh _ _ _) _ _ _

private theorem Layout.current_of_isUnnamed (l : Layout) :
    ∀ announced slots, (∀ s ∈ slots, s.IsUnnamed) → l.Current announced slots := by
  induction l using Layout.nesting with
  | step name message size fields ih =>
    intro announced slots unnamed
    refine Layout.current_iff.mpr ?_
    intro i f s here there
    have member : f ∈ fields := List.mem_of_getElem? here
    cases unnamed s (List.mem_of_getElem? there) with
    | int raw =>
      cases f with
      | primitive name type size kind =>
        cases kind with
        | int form => exact fun _ => form.remembers_none raw
        | pad | bytes | varBytes => trivial
      | nested name repetition element => trivial
    | @struct inner all =>
      cases f with
      | primitive => exact Field.current_primitive (by simp)
      | nested name repetition element => exact ih _ member element rfl _ inner all
    | @elems items all =>
      cases f with
      | primitive => exact Field.current_primitive (by simp)
      | nested name repetition element =>
        exact fun item inside => ih _ member element rfl _ item (all item inside)
    | pad | bytes =>
      cases f with
      | primitive => exact Field.current_primitive (by simp)
      | nested => trivial

private theorem Field.current_holdsOfReads :
    HoldsOfReads (Field.Current False fun _ => False) (Layout.Current fun _ => False) where
  elementary owner buf start f s elementary read := by
    match f with
    | .primitive name type size (.int form) =>
      obtain ⟨data, _, rfl⟩ := map_eq_ok.mp read
      exact fun _ => form.remembers_name? _
    | .primitive _ _ _ (.bytes _) | .primitive _ _ _ .pad => trivial
    | .primitive _ _ _ (.varBytes _) | .nested .. => cases elementary
  varBytes _ _ _ _ _ := trivial
  once _ _ _ current := current
  many _ _ _ _ _ current := current
  whole l slots related := by
    refine Layout.current_iff.mpr ?_
    intro i f s here there
    obtain ⟨t, held, current⟩ := forall₂_getElem? related here
    obtain rfl : s = t := Option.some.inj (there.symm.trans held)
    exact current.mono False.elim fun _ => False.elim

theorem getElem?_trimFieldSlots {fields : List Field} {i : Nat} {f : Field} (here : fields[i]? = some f)
    (slots : List Slot) : (trimFieldSlots fields slots)[i]? = slots[i]?.map f.trimSlot := by
  induction i generalizing fields slots with
  | zero =>
    cases fields with
    | nil => cases here
    | cons g gs =>
      obtain rfl : g = f := by simpa using here
      cases slots with
      | nil => rfl
      | cons t ts => rfl
  | succ i ih =>
    cases fields with
    | nil => cases here
    | cons g gs =>
      cases slots with
      | nil => rfl
      | cons t ts => simpa [trimFieldSlots] using ih (by simpa using here) ts

private theorem Layout.current_trimSlots (l : Layout) :
    ∀ announced slots, l.Current announced slots → l.Current announced (l.trimSlots slots) := by
  induction l using Layout.nesting with
  | step name message size fields ih =>
    intro announced slots current
    rw [Layout.current_iff] at current ⊢
    intro i f s here there
    have trimmed : (trimFieldSlots fields slots)[i]? = slots[i]?.map f.trimSlot :=
      getElem?_trimFieldSlots here slots
    rw [Layout.trimSlots, trimmed] at there
    obtain ⟨old, before, rfl⟩ := Option.map_eq_some_iff.mp there
    have was := current i f old here before
    have member : f ∈ fields := List.mem_of_getElem? here
    cases f with
    | primitive name type size kind =>
      cases kind with
      | int => exact was
      | bytes =>
        cases old with
        | pad | int | bytes | struct | elems => trivial
      | pad | varBytes => trivial
    | nested name repetition element =>
      cases old with
      | struct inner => exact ih _ member element rfl _ inner was
      | elems items =>
        intro item inside
        obtain ⟨one, listed, rfl⟩ := List.mem_map.mp inside
        exact ih _ member element rfl _ one (was one listed)
      | pad | int | bytes => trivial

private theorem Layout.current_syncSlots (l : Layout) :
    ∀ announced slots, l.Current announced slots → l.Current announced (l.syncSlots slots) := by
  induction l using Layout.nesting with
  | step name message size fields ih =>
    intro announced slots current
    have below : (Layout.mk name message size fields).Current announced (syncFieldSlots fields slots) := by
      rw [Layout.current_iff] at current ⊢
      intro i f s here there
      have synced : (syncFieldSlots fields slots)[i]? = slots[i]?.map f.syncSlot :=
        getElem?_syncFieldSlots here slots
      rw [synced] at there
      obtain ⟨old, before, rfl⟩ := Option.map_eq_some_iff.mp there
      have was := current i f old here before
      have member : f ∈ fields := List.mem_of_getElem? here
      cases f with
      | primitive => exact was
      | nested name repetition element =>
        cases old with
        | struct inner => exact ih _ member element rfl _ inner was
        | elems items =>
          intro item inside
          obtain ⟨one, listed, rfl⟩ := List.mem_map.mp inside
          exact ih _ member element rfl _ one (was one listed)
        | pad | int | bytes => trivial
    exact below.setCounters

namespace Record

private theorem current_modifySlots {change : Slot → Slot} {i : Nat} (hops : List Hop) :
    ∀ (announced : Nat → Prop) (l : Layout) (slots : List Slot), l.Current announced slots →
      (∀ owner inner f s computed others, follow hops l slots = some (owner, inner) →
        owner.fields[i]? = some f → inner[i]? = some s → f.Current computed others s →
          f.Current computed others (change s)) →
      l.Current announced (modifySlots change hops i slots) := by
  induction hops with
  | nil =>
    intro announced l slots current good
    exact current.modify fun f s here there => good l slots f s _ _ rfl here there
  | cons hop hops ih =>
    intro announced l slots current good
    refine current.modify ?_
    intro f s here there was
    cases f with
    | primitive =>
      -- no hop leads on from here
      split
      · exact Field.current_primitive (by simp)
      · exact Field.current_primitive (by simp)
      · exact was
    | nested name repetition element =>
      split
      · rename_i inner item
        refine ih _ element inner was ?_
        intro owner below g t computed others reached
        exact good owner below g t computed others (by simpa [follow, here, there, item] using reached)
      · rename_i items n item
        have each : ∀ one ∈ items, element.Current (fun _ => False) one := was
        refine forall_mem_modify each ?_
        intro one at_n
        refine ih _ element one (each one (List.mem_of_getElem? at_n)) ?_
        intro owner below g t computed others reached
        exact good owner below g t computed others
          (by simpa [follow, here, there, item, at_n] using reached)
      · exact was

private theorem current_modify {r : Record} {path : String} {place : Location} {f : Field} {s : Slot}
    {change : Slot → Slot} {announced : Nat → Prop} (current : r.layout.Current announced r.slots)
    (located : r.locate path = .ok (place, f, s))
    (good : ∀ computed others, f.Current computed others s → f.Current computed others (change s)) :
    r.layout.Current announced (r.modify place change).slots := by
  have found := at?_of_locate located
  refine current_modifySlots place.hops announced r.layout r.slots current ?_
  intro owner inner g t computed others reached here there
  simp only [at?, reached, Option.bind_some, here, there, Option.some.injEq, Prod.mk.injEq] at found
  obtain ⟨rfl, rfl⟩ := found
  exact good computed others

private theorem Change.current {r next : Record} (changed : Change r next) : next.layout = r.layout ∧
    ∀ announced, r.layout.Current announced r.slots → r.layout.Current announced next.slots := by
  have integers : ∀ {r next : Record} {path : String}, SetsInteger r path next → next.layout = r.layout ∧
      ∀ announced, r.layout.Current announced r.slots → r.layout.Current announced next.slots := by
    rintro r _ path ⟨located, remembers⟩
    obtain ⟨name, type, found⟩ := locate_of_locateInt located
    exact ⟨rfl, fun announced current => current_modify current found fun _ _ _ _ => remembers⟩
  have strings : ∀ {r next : Record} {path : String} {data : Bytes}, r.setBytes path data = .ok next →
      next.layout = r.layout ∧
        ∀ announced, r.layout.Current announced r.slots → r.layout.Current announced next.slots := by
    intro r next path data set
    obtain ⟨place, s, located, rfl⟩ := setBytes_eq_ok set
    obtain ⟨f, found, _⟩ := locate_of_locateBytes located
    refine ⟨rfl, fun announced current => current_modify current found ?_⟩
    intro _ _ _
    unfold Field.Current
    split
    all_goals trivial
  induction changed with
  | setUint set => exact integers (setsInteger_of_setUint set)
  | setInt set => exact integers (setsInteger_of_setInt set)
  | setEnum set => exact integers (setsInteger_of_setEnum set)
  | setDecimal set => exact integers (setsInteger_of_setDecimal set)
  | setBytes set => exact strings set
  | setText set => exact strings set
  | appendElem appended =>
    obtain ⟨place, name, counter, least, most, element, s, located, rfl, rfl⟩ := appendElem_eq_ok appended
    refine ⟨rfl, fun announced current => current_modify current located ?_⟩
    intro computed others was
    cases s with
    | elems items =>
      intro item member
      rcases List.mem_append.mp member with old | new
      · exact was item old
      · obtain rfl : item = element.initialSlots := by simpa using new
        exact element.current_of_isUnnamed _ _ element.isUnnamed_initialSlots
    | pad | int | bytes | struct => exact was
  | syncCounters r => exact ⟨rfl, fun announced => r.layout.current_syncSlots announced r.slots⟩
  | updateLength r =>
    rcases r.updateLength_cases with same | ⟨info, message, same⟩
    · rw [same]
      exact ⟨rfl, fun _ current => current⟩
    · rw [same]
      exact ⟨rfl, fun announced current => current.setBodyLen message _⟩
  | trim r => exact ⟨rfl, fun announced => r.layout.current_trimSlots announced r.slots⟩
  | @inStructure r inner path name place element slots located change ih =>
    refine ⟨rfl, fun announced current => current_modify current located ?_⟩
    intro computed others was
    exact ih.2 others was
  | @inElement r inner path name place repetition element items n slots located item change ih =>
    refine ⟨rfl, fun announced current => current_modify current located ?_⟩
    intro computed others was one member
    rcases List.mem_or_eq_of_mem_set member with old | new
    · exact was one old
    · exact new ▸ ih.2 _ (was slots (List.mem_of_getElem? item))

theorem Reachable.current {l : Layout} {r : Record} (reached : Reachable l r) :
    r.layout = l ∧ r.layout.Current (fun _ => False) r.slots := by
  induction reached with
  | new => exact ⟨rfl, l.current_of_isUnnamed _ _ l.isUnnamed_initialSlots⟩
  | @unpack buf off stop r unpacked =>
    obtain ⟨out, read, same⟩ := map_eq_ok.mp unpacked
    cases same
    exact ⟨rfl, Field.current_holdsOfReads.of_read l buf off out.1 out.2 read⟩
  | @change r next before changed ih =>
    obtain ⟨same, keeps⟩ := changed.current
    refine ⟨same.trans ih.1, ?_⟩
    rw [same]
    exact keeps _ ih.2

end Record

end TradeWire
