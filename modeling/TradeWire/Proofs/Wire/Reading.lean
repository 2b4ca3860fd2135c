import TradeWire.Proofs.Layout.Runs
import TradeWire.Proofs.Record.Shape
import TradeWire.Wire.Unpack

/-! What is read by runs has the shape of the layout. -/

set_option autoImplicit false
set_option relaxedAutoImplicit false

namespace TradeWire

theorem readParts_eq_map (fields : List Field) :
    readParts fields = fields.map fun f => ⟨f, f.readNested⟩ := by
  induction fields with
  | nil => rfl
  | cons f rest ih => simp [readParts, ih]

/-- Relations `R` between fields and slots and `P` between layouts and instances that reading establishes,
because they hold of what a single read gives and pass from elements to the fields that nest them. -/
structure HoldsOfReads (R : Field → Slot → Prop) (P : Layout → List Slot → Prop) : Prop where
  elementary : ∀ owner buf start f s, f.isElementary = true →
    readElementary owner buf start f = .ok s → R f s
  varBytes : ∀ name type size counter data, R (.primitive name type size (.varBytes counter)) (.bytes data)
  once : ∀ name element slots, P element slots → R (.nested name .once element) (.struct slots)
  many : ∀ name repetition element items, repetition ≠ .once → (∀ item ∈ items, P element item) →
    R (.nested name repetition element) (.elems items)
  whole : ∀ l slots, List.Forall₂ R l.fields slots → P l slots

/-- What a part reads stands in the relation to its field. -/
def ReadPart.Reads (R : Field → Slot → Prop) (part : ReadPart) : Prop :=
  ∀ count buf pos s stop, part.field.element?.isSome = true → part.read count buf pos = .ok (s, stop) →
    R part.field s

private theorem admits_of_readElementary {owner : String} {buf : Bytes} {start : Int} {f : Field} {s : Slot}
    (elementary : f.isElementary = true) (read : readElementary owner buf start f = .ok s) :
    f.Admits s := by
  match f with
  | .primitive name _ size (.int form) =>
    simp only [readElementary] at read
    cases found : readAt owner name buf start size with
    | error fault => simp [found, Except.map] at read
    | ok data =>
      simp only [found, Except.map, Except.ok.injEq] at read
      subst read
      simp [intSlot, Field.Admits]
  | .primitive name _ size (.bytes _) =>
    simp only [readElementary] at read
    cases found : readAt owner name buf start size with
    | error fault => simp [found, Except.map] at read
    | ok data =>
      simp only [found, Except.map, Except.ok.injEq] at read
      subst read
      simp [Field.Admits]
  | .primitive _ _ _ .pad =>
    simp only [readElementary, Except.ok.injEq] at read
    subst read
    simp [Field.Admits]
  | .primitive _ _ _ (.varBytes _) | .nested .. => simp [Field.isElementary] at elementary

section Relations

variable {R : Field → Slot → Prop} {P : Layout → List Slot → Prop}

private theorem HoldsOfReads.forall₂_of_readBlock (law : HoldsOfReads R P) {owner : String} {buf : Bytes}
    {start : Int} {parts : List (ReadPart × Int)} {slots : List Slot}
    (elementary : ∀ part ∈ parts.map Prod.fst, part.field.isElementary = true)
    (read : readBlock owner buf start parts = .ok slots) :
    List.Forall₂ R ((parts.map Prod.fst).map ReadPart.field) slots := by
  induction parts generalizing slots with
  | nil =>
    simp only [readBlock, Except.ok.injEq] at read
    subst read
    simp
  | cons head rest ih =>
    obtain ⟨part, offset⟩ := head
    simp only [readBlock] at read
    split at read
    · cases read
    · rename_i slot first
      split at read
      · cases read
      · rename_i more tail
        cases read
        simp only [List.map_cons, List.forall₂_cons]
        refine ⟨law.elementary _ _ _ _ _ (elementary part (by simp)) first, ih ?_ tail⟩
        intro other member
        exact elementary other (by simp only [List.map_cons, List.mem_cons]; exact Or.inr member)

section Single

variable {owner name type : String} {earlier : List Slot} {size counter least most count : Nat}
  {element : Layout} {reader : Nat → Reader Slot} {width : Int} {offset : Option Int} {buf : Bytes}
  {start : Int}

theorem readRun_varBytes :
    readRun owner earlier ⟨.single ⟨.primitive name type size (.varBytes counter), reader⟩, width, offset⟩
        buf start =
      if size < (rawAt earlier counter).toNat then
        .error ⟨owner, name, start, .lengthAboveBound (rawAt earlier counter) size⟩
      else if Buffer.isShort buf.length start (rawAt earlier counter).toNat then
        .error (truncatedAt owner name buf.length start (rawAt earlier counter).toNat)
      else
        (readAt owner name buf start (rawAt earlier counter).toNat).map fun data =>
          ([.bytes data], Word.add start (rawAt earlier counter).toNat) := rfl

theorem readRun_once :
    readRun owner earlier ⟨.single ⟨.nested name .once element, reader⟩, width, offset⟩ buf start =
      (reader 1 buf start).map fun (slot, stop) => ([slot], stop) := rfl

theorem readRun_array :
    readRun owner earlier ⟨.single ⟨.nested name (.array count) element, reader⟩, width, offset⟩ buf
        start =
      (reader count buf start).map fun (slot, stop) => ([slot], stop) := rfl

theorem readRun_group :
    readRun owner earlier ⟨.single ⟨.nested name (.group counter least most) element, reader⟩, width,
        offset⟩ buf start =
      if most < (rawAt earlier counter).toNat then
        .error ⟨owner, name, start, .countAboveBound (rawAt earlier counter) most⟩
      else
        (reader (rawAt earlier counter).toNat buf start).map fun (slot, stop) => ([slot], stop) := rfl

end Single

theorem HoldsOfReads.forall₂_of_readRun (law : HoldsOfReads R P) {owner : String} {earlier : List Slot}
    {placed : PlacedRun ReadPart} {buf : Bytes} {start : Int} {slots : List Slot} {stop : Int}
    (cut : placed.run.IsCut fun part => part.field.isElementary)
    (nested : ∀ part ∈ placed.run.members, part.Reads R)
    (read : readRun owner earlier placed buf start = .ok (slots, stop)) :
    List.Forall₂ R (placed.run.members.map ReadPart.field) slots := by
  obtain ⟨run, width, offset⟩ := placed
  cases run with
  | block first rest =>
    simp only [readRun] at read
    split at read
    · cases read
    · cases found : readBlock owner buf start (Run.offsets ReadPart.field 0 (first :: rest)) with
      | error fault => simp [found, Except.map] at read
      | ok more =>
        simp only [found, Except.map, Except.ok.injEq, Prod.mk.injEq] at read
        have simple : ∀ part ∈ (Run.offsets ReadPart.field 0 (first :: rest)).map Prod.fst,
            part.field.isElementary = true := by
          rw [Run.map_fst_offsets]
          exact cut
        have shape := law.forall₂_of_readBlock simple found
        rw [Run.map_fst_offsets, read.1] at shape
        exact shape
  | single part =>
    have reads := nested part (by simp [Run.members])
    obtain ⟨f, reader⟩ := part
    simp only [Run.members, List.map_cons, List.map_nil]
    -- whatever the repetition, one slot is read, and it stands in the relation to the field
    have one : ∀ count, f.element?.isSome = true →
        ((reader count buf start).map fun (slot, stop) => ([slot], stop)) = .ok (slots, stop) →
          List.Forall₂ R [f] slots := by
      intro count element done
      cases found : reader count buf start with
      | error fault => simp [found, Except.map] at done
      | ok out =>
        obtain ⟨s, behind⟩ := out
        simp only [found, Except.map, Except.ok.injEq, Prod.mk.injEq] at done
        rw [← done.1]
        simpa using reads count buf start s behind element found
    cases f with
    | primitive name type size kind =>
      cases kind with
      | varBytes counter =>
        rw [readRun_varBytes] at read
        split at read
        · cases read
        · split at read
          · cases read
          · cases found : readAt owner name buf start (rawAt earlier counter).toNat with
            | error fault => simp [found, Except.map] at read
            | ok data =>
              simp only [found, Except.map, Except.ok.injEq, Prod.mk.injEq] at read
              rw [← read.1]
              simpa using law.varBytes name type size counter data
      | int | pad | bytes => simp [Run.IsCut, Field.isElementary] at cut
    | nested name repetition element =>
      cases repetition with
      | once => exact one 1 rfl read
      | array count => exact one count rfl read
      | group counter least most =>
        rw [readRun_group] at read
        split at read
        · cases read
        · exact one _ rfl read

theorem HoldsOfReads.forall₂_of_readRuns (law : HoldsOfReads R P) {owner : String} {base : Int}
    {placed : List (PlacedRun ReadPart)} {earlier : List Slot} {buf : Bytes} {pos : Int} {slots : List Slot}
    {stop : Int} (cut : ∀ p ∈ placed, p.run.IsCut fun part => part.field.isElementary)
    (nested : ∀ p ∈ placed, ∀ part ∈ p.run.members, part.Reads R)
    (read : readRuns owner base earlier placed buf pos = .ok (slots, stop)) :
    ∃ more, slots = earlier ++ more ∧
      List.Forall₂ R ((placed.flatMap fun p => p.run.members).map ReadPart.field) more := by
  induction placed generalizing earlier pos with
  | nil =>
    simp only [readRuns, Except.ok.injEq, Prod.mk.injEq] at read
    exact ⟨[], by simp [read.1], by simp⟩
  | cons p rest ih =>
    simp only [readRuns] at read
    split at read
    · cases read
    · rename_i new behind first
      have here := law.forall₂_of_readRun (cut p (by simp)) (nested p (by simp)) first
      obtain ⟨more, joined, tail⟩ := ih (fun q later => cut q (by simp [later]))
        (fun q later => nested q (by simp [later])) read
      refine ⟨new ++ more, by simp [joined], ?_⟩
      simp only [List.flatMap_cons, List.map_append]
      exact List.rel_append here tail

private theorem forall_mem_of_readInTurn {α : Type} {read : Reader α} {P : α → Prop}
    (good : ∀ buf pos a stop, read buf pos = .ok (a, stop) → P a) {count : Nat} {buf : Bytes} {pos : Int}
    {items : List α} {stop : Int} (done : readInTurn read count buf pos = .ok (items, stop)) :
    ∀ item ∈ items, P item := by
  induction count generalizing pos items stop with
  | zero =>
    simp only [readInTurn, Except.ok.injEq, Prod.mk.injEq] at done
    simp [← done.1]
  | succ count ih =>
    simp only [readInTurn] at done
    split at done
    · cases done
    · rename_i first next here
      split at done
      · cases done
      · rename_i others behind tail
        cases done
        intro item member
        rcases List.mem_cons.mp member with rfl | later
        · exact good buf pos _ next here
        · exact ih tail item later

private theorem HoldsOfReads.of_readNested (law : HoldsOfReads R P) {f : Field}
    (below : ∀ element, f.element? = some element →
      ∀ buf pos slots stop, element.read buf pos = .ok (slots, stop) → P element slots)
    {count : Nat} {buf : Bytes} {pos : Int} {s : Slot} {stop : Int} (nested : f.element?.isSome = true)
    (read : f.readNested count buf pos = .ok (s, stop)) : R f s := by
  cases f with
  | primitive name type size kind => simp [Field.element?] at nested
  | nested name repetition element =>
    -- the elements of an array or a group
    have many : ((readInTurn element.read count buf pos).map fun out =>
        (Slot.elems out.1, out.2)) = .ok (s, stop) → repetition ≠ .once →
          R (.nested name repetition element) s := by
      intro done more
      cases found : readInTurn element.read count buf pos with
      | error fault => simp [found, Except.map] at done
      | ok out =>
        simp only [found, Except.map, Except.ok.injEq, Prod.mk.injEq] at done
        rw [← done.1]
        exact law.many name repetition element out.1 more (forall_mem_of_readInTurn (below element rfl) found)
    cases repetition with
    | once =>
      simp only [Field.readNested] at read
      cases found : element.read buf pos with
      | error fault => simp [found, Except.map] at read
      | ok out =>
        simp only [found, Except.map, Except.ok.injEq, Prod.mk.injEq] at read
        rw [← read.1]
        exact law.once name element out.1 (below element rfl buf pos out.1 out.2 found)
    | array number => exact many read (by simp)
    | group counter least most => exact many read (by simp)

theorem HoldsOfReads.of_read (law : HoldsOfReads R P) (l : Layout) :
    ∀ buf pos slots stop, l.read buf pos = .ok (slots, stop) → P l slots := by
  induction l using Layout.nesting with
  | step name message size fields ih =>
    intro buf pos slots stop read
    simp only [Layout.read] at read
    have members := flatMap_members_placedRuns ReadPart.field (readParts fields)
    rw [placedRuns] at members read
    obtain ⟨more, whole, shape⟩ := law.forall₂_of_readRuns
      (fun p member => Run.isCut_of_mem_partition _ _ p.run (run_of_mem_place member))
      (by
        intro p member part inside
        have listed : part ∈ readParts fields := members ▸ List.mem_flatMap.mpr ⟨p, member, inside⟩
        rw [readParts_eq_map] at listed
        obtain ⟨f, here, rfl⟩ := List.mem_map.mp listed
        intro count buf pos s stop nested done
        exact law.of_readNested (ih f here) nested done) read
    have names : (readParts fields).map ReadPart.field = fields := by
      simp [readParts_eq_map, Function.comp_def]
    rw [members, names] at shape
    rw [whole]
    exact law.whole _ _ shape

theorem HoldsOfReads.reads (law : HoldsOfReads R P) {part : ReadPart}
    (own : part.read = part.field.readNested) : part.Reads R := by
  intro count buf pos s stop nested done
  rw [own] at done
  exact law.of_readNested (fun element _ => law.of_read element) nested done

end Relations

theorem Field.admits_holdsOfReads : HoldsOfReads Field.Admits Layout.Admits where
  elementary _ _ _ _ _ elementary read := admits_of_readElementary elementary read
  varBytes _ _ _ _ _ := trivial
  once _ _ _ shape := shape
  many _ _ _ _ many shape := (Field.admits_elems many).mpr shape
  whole _ _ shapes := Layout.admits_iff.mpr shapes

theorem Layout.admits_of_read (l : Layout) :
    ∀ buf pos slots stop, l.read buf pos = .ok (slots, stop) → l.Admits slots :=
  Field.admits_holdsOfReads.of_read l

theorem Record.admits_of_unpack {l : Layout} {buf : Bytes} {off : Int} {r : Record} {stop : Int}
    (unpacked : Record.unpack l buf off = .ok (r, stop)) : r.layout = l ∧ l.Admits r.slots := by
  simp only [Record.unpack] at unpacked
  cases read : l.read buf off with
  | error fault => simp [read, Except.map] at unpacked
  | ok out =>
    obtain ⟨slots, behind⟩ := out
    simp only [read, Except.map, Except.ok.injEq, Prod.mk.injEq] at unpacked
    rw [← unpacked.1]
    exact ⟨rfl, l.admits_of_read buf off slots behind read⟩

end TradeWire
