import TradeWire.Proofs.Enumerations
import TradeWire.Proofs.RawValues
import TradeWire.Proofs.Record.Spelling
import TradeWire.Proofs.ScaledNumbers

/-! Paths as lenses: setters and getters of one field, appended elements, and the paths that resolve. -/

set_option autoImplicit false
set_option relaxedAutoImplicit false

namespace TradeWire

open Schema

private theorem Symbols.exists_name?_of_value? {symbols : Symbols} {name : String} {raw : UInt64}
    (found : symbols.value? name = some raw) : ∃ shown, symbols.name? raw = some shown := by
  obtain ⟨symbol, first, rfl⟩ := Option.map_eq_some_iff.mp found
  have inside := List.mem_reverse.mp (List.mem_of_find?_eq_some first)
  have some_found : (symbols.values.find? (·.value == symbol.value)).isSome = true := by
    rw [List.find?_isSome]
    exact ⟨symbol, inside, beq_self_eq_true _⟩
  obtain ⟨other, also⟩ := Option.isSome_iff_exists.mp some_found
  exact ⟨other.name, by simp [Symbols.name?, also]⟩

namespace Record

inductive Setting where
  | uint (raw : UInt64)
  | int (value : Int)
  | enum (symbol : String)
  | decimal (text : String)
  | bytes (data : Bytes)

def Setting.update (lib : DecimalLibrary) (path : String) : Setting → Update Unit
  | .uint raw => .uint path raw
  | .int value => .int path value
  | .enum symbol => .enum path symbol
  | .decimal text => .decimal lib path text
  | .bytes data => .bytes path data

def assign (r : Record) (lib : DecimalLibrary) (path : String) (setting : Setting) : Except FieldError Record :=
  (setting.update lib path).outcome r

/-- The getter that goes with the setter gives what was set: for a symbol that of its value, for a text what is
shown of the units that it counts, and for the pattern of a signed field the sign-extended one. What is shown of a
text on which the library is exact denotes the same number. -/
def GivesBack (r : Record) (lib : DecimalLibrary) (path : String) : Setting → Prop
  | .uint raw => ∃ size form, r.HasIntAt path size form ∧
      r.uint path = .ok (if form.isSigned then Word.signExtend raw size else raw)
  | .int value => Word.isSigned value = true → r.int path = .ok value
  | .enum symbol => ∃ size form symbols raw shown, r.HasIntAt path size form ∧ form.symbols = some symbols ∧
      symbols.value? symbol = some raw ∧ r.uint path = .ok raw ∧
        symbols.name? raw = some shown ∧ r.enum path = .ok (some shown)
  | .decimal text => ∃ size form n raw shown, r.HasIntAt path size form ∧ lib.units text form.scale = .ok n ∧
      r.uint path = .ok raw ∧ numberOf form.isSigned raw = n ∧
        r.decimal lib path = .ok shown ∧ shown = lib.render n form.scale ∧
          ∀ value texts, lib.IsExactOn value texts → text ∈ texts →
            ∃ q, Decimal.Denotes text q ∧ Decimal.Denotes shown q
  | .bytes data => r.bytes path = .ok data

/-- Every location but the one that the path leads to, in any structure or element, holds what it held. -/
def ChangesOnly (r : Record) (path : String) (next : Record) : Prop :=
  ∃ place, r.resolve path = .ok place ∧ next.resolve path = .ok place ∧
    ∀ other, other ≠ place → next.holds other = r.holds other

/-- A fresh element comes last in the group that the path leads to, and every location that was there holds what
it held. -/
def Appends (r : Record) (path : String) (next fresh : Record) : Prop :=
  ∃ place name counter least most element items, r.resolve path = .ok place ∧ next.resolve path = .ok place ∧
    r.fieldInfo path = .ok (.nested name (.group counter least most) element) ∧ fresh = new element ∧
    r.elems path = .ok items ∧ next.elems path = .ok (items ++ [fresh]) ∧
      ∀ other held, other ≠ place → r.holds other = some held → next.holds other = some held

/-- Paths are lenses of the record. -/
structure HasLenses (r : Record) (lib : DecimalLibrary) : Prop where
  /-- What is set is what the getter gives. -/
  gives : ∀ path setting next, r.assign lib path setting = .ok next → next.GivesBack lib path setting
  /-- Nothing else changes. -/
  frames : ∀ path setting next, r.assign lib path setting = .ok next → r.ChangesOnly path next
  appends : ∀ path next fresh, r.appendElem path = .ok (next, fresh) → r.Appends path next fresh
  /-- A setter that fails leaves the record as it was, and so does an element that cannot be appended. -/
  keeps : (∀ path setting fault left, Setting.update lib path setting r = .error fault left → left = r) ∧
    ∀ path fault left, Update.appendElem path r = .error fault left → left = r
  /-- A path leads to a field of the record that is no padding, or it does not resolve. -/
  resolves : ∀ path, (∃ place f s, r.resolve path = .ok place ∧ r.at? place = some (f, s) ∧ f.isPad = false) ∨
    ∃ fault, r.resolve path = .error fault ∧ fault.IsUnresolved path
  /-- Every field but padding is reached by its path. -/
  reaches : ∀ place f s, r.at? place = some (f, s) → f.isPad = false → r.IsSpellable place →
    r.locate (r.spell place) = .ok (place, f, s)

private theorem keeps_update (lib : DecimalLibrary) (path : String) (setting : Setting) :
    (setting.update lib path).Keeps := by
  cases setting with
  | uint raw => exact Update.keeps_uint path raw
  | int value => exact Update.keeps_int path value
  | enum symbol => exact Update.keeps_enum path symbol
  | decimal text => exact Update.keeps_decimal lib path text
  | bytes data => exact Update.keeps_bytes path data

section Setters

variable {r next : Record} {lib : DecimalLibrary} {path : String} {setting : Setting}

private theorem SetsInteger.changes (sets : SetsInteger r path next) : ∃ place f s change,
    r.locate path = .ok (place, f, s) ∧ f.element? = none ∧ next = r.modify place change := by
  obtain ⟨located, _⟩ := sets
  obtain ⟨name, type, found⟩ := locate_of_locateInt located
  exact ⟨_, _, _, _, found, rfl, rfl⟩

private theorem assign_changes (set : r.assign lib path setting = .ok next) : ∃ place f s change,
    r.locate path = .ok (place, f, s) ∧ f.element? = none ∧ next = r.modify place change := by
  cases setting with
  | uint raw => exact (setsInteger_of_setUint set).changes
  | int value => exact (setsInteger_of_setInt set).changes
  | enum symbol => exact (setsInteger_of_setEnum set).changes
  | decimal text => exact (setsInteger_of_setDecimal set).changes
  | bytes data =>
    obtain ⟨place, s, located, rfl⟩ := setBytes_eq_ok set
    obtain ⟨f, found, flat, _⟩ := locate_of_locateBytes located
    exact ⟨place, f, s, _, found, flat, rfl⟩

private theorem assign_frames (set : r.assign lib path setting = .ok next) : r.ChangesOnly path next := by
  obtain ⟨place, f, s, change, located, flat, rfl⟩ := assign_changes set
  obtain ⟨resolved, there⟩ := locate_eq_ok.mp located
  refine ⟨place, resolved, (locate_eq_ok.mp (locate_modify change located)).1, ?_⟩
  intro other apart
  refine holds_modify_of_flat change ?_ apart
  intro g t here
  cases there.symm.trans here
  exact flat

private theorem SetsInteger.located (sets : SetsInteger r path next) :
    ∃ place size form s, r.locateInt path = .ok (place, size, form, s) := by
  obtain ⟨located, _⟩ := sets
  exact ⟨_, _, _, _, located⟩

private theorem setUint_gives (sound : r.layout.Sound) {raw : UInt64} (set : r.setUint path raw = .ok next) :
    next.GivesBack lib path (.uint raw) := by
  obtain ⟨place, size, form, s, located⟩ := (setsInteger_of_setUint set).located
  obtain ⟨positive, width⟩ := width_of_locateInt sound located
  obtain ⟨stored, pattern, rfl⟩ := (setUint_eq_ok positive width located).mp set
  have after := locateInt_modify stored "" located
  refine ⟨size, form, ⟨place, _, after⟩, ?_⟩
  rw [uint_of_locateInt after, Slot.raw]
  cases signed : form.isSigned with
  | true =>
    obtain ⟨_, rfl⟩ := (IntForm.pattern?_eq_some signed positive).mp pattern
    rfl
  | false =>
    obtain rfl : raw = stored := by simpa [IntForm.pattern?, signed] using pattern
    rfl

private theorem setInt_gives {value : Int} (set : r.setInt path value = .ok next) :
    next.GivesBack lib path (.int value) := by
  obtain ⟨place, size, form, s, located⟩ := (setsInteger_of_setInt set).located
  obtain ⟨_, rfl⟩ := (setInt_of_locateInt located).mp set
  intro machine
  obtain ⟨least, most⟩ : Word.minSigned ≤ value ∧ value ≤ Word.maxSigned := by
    simpa [Word.isSigned] using machine
  rw [int_of_locateInt (locateInt_modify _ "" located), Slot.raw, Word.toSigned_ofInt least most]

private theorem setEnum_gives {symbol : String} (set : r.setEnum path symbol = .ok next) :
    next.GivesBack lib path (.enum symbol) := by
  obtain ⟨place, size, form, s, located⟩ := (setsInteger_of_setEnum set).located
  simp only [setEnum_eq, located] at set
  split at set
  · cases set
  · rename_i symbols enumerated
    split at set
    · cases set
    · rename_i raw value
      cases set
      obtain ⟨shown, named⟩ := Symbols.exists_name?_of_value? value
      have after := locateInt_modify raw ((symbols.name? raw).getD "") located
      have remembers := form.remembers_name? raw
      rw [enumerated, Option.bind_some] at remembers
      refine ⟨size, form, symbols, raw, shown, ⟨place, _, after⟩, enumerated, value,
        uint_of_locateInt after, named, ?_⟩
      simp only [enum, after, enumerated]
      rw [symbolOf_of_remembers enumerated remembers, named]

private theorem setDecimal_gives (sound : r.layout.Sound)
    (scales : ∀ size form, r.HasIntAt path size form → form.scale ≤ maxPrecision) {text : String}
    (set : r.setDecimal lib path text = .ok next) : next.GivesBack lib path (.decimal text) := by
  obtain ⟨place, size, form, s, located⟩ := (setsInteger_of_setDecimal set).located
  obtain ⟨positive, width⟩ := width_of_locateInt sound located
  obtain ⟨n, raw, units, here, held, number, shown⟩ := shows_of_setDecimal positive width located set
  refine ⟨size, form, n, raw, _, here, units, held, number, shown, rfl, ?_⟩
  intro value texts exact member
  have takes := takesDecimal exact positive width (scales size form ⟨place, s, located⟩) located member
  obtain ⟨q, _, _, _, denotes, _, _, _, again, shows⟩ := takes.gives next set
  rw [shown, Except.ok.injEq] at again
  exact ⟨q, denotes, again ▸ shows⟩

private theorem locateBytes_modify {place : Location} {s : Slot} (data : Bytes)
    (located : r.locateBytes path = .ok (place, s)) :
    (r.modify place fun _ => .bytes data).locateBytes path = .ok (place, .bytes data) := by
  unfold locateBytes at located ⊢
  split at located
  · cases located
  · rename_i found
    cases located
    rw [locate_modify _ found]
  · rename_i found
    cases located
    rw [locate_modify _ found]
  · cases located

private theorem setBytes_gives {data : Bytes} (set : r.setBytes path data = .ok next) :
    next.GivesBack lib path (.bytes data) := by
  obtain ⟨place, s, located, rfl⟩ := setBytes_eq_ok set
  simp only [GivesBack, bytes, locateBytes_modify data located, Except.map, Slot.data]

end Setters

private theorem appendElem_appends {r next fresh : Record} {path : String} (shape : r.HasShape)
    (appended : r.appendElem path = .ok (next, fresh)) : r.Appends path next fresh := by
  obtain ⟨place, name, counter, least, most, element, s, located, rfl, rfl⟩ := appendElem_eq_ok appended
  obtain ⟨items, rfl⟩ : ∃ items, s = .elems items := by
    have kind := admits_of_locate shape located
    cases s with
    | elems items => exact ⟨items, rfl⟩
    | pad | int | bytes | struct => cases kind
  have after := locate_modify (appendItem element.initialSlots) located
  refine ⟨place, name, counter, least, most, element, items.map fun slots => ⟨element, slots⟩,
    (locate_eq_ok.mp located).1, (locate_eq_ok.mp after).1, ?_, rfl, ?_, ?_, ?_⟩
  · simp only [fieldInfo, located, Except.map]
  · simp only [elems, located]
  · simp only [elems, after, appendItem, List.map_append, List.map_cons, List.map_nil]
    rfl
  · intro other held apart before
    exact holds_modify_appendItem element.initialSlots apart before

/-- Field paths are lenses of every record of a compiled structure that can come about. -/
theorem hasLenses {document : Bytes} {m : Model} {t : Table} {l : Layout} {r : Record}
    (parsed : Model.parse document = .ok m) (compiled : Table.compile m = .ok t) (listed : l ∈ t.layouts)
    (reached : Reachable l r) (lib : DecimalLibrary) : r.HasLenses lib := by
  have accepted := Model.isAccepted_of_parse parsed
  obtain ⟨rfl, shape⟩ := reached.hasShape
  have sound := Table.sound_of_compile accepted compiled r.layout listed
  have good : ∀ l ∈ t.layouts, l.IsWellFormed t := fun l => Table.isWellFormed_of_compile accepted compiled
  refine ⟨?_, fun _ _ _ => assign_frames, fun _ _ _ => appendElem_appends shape,
    ⟨fun path setting => keeps_update lib path setting r, fun path => Update.keeps_appendElem path r⟩,
    resolve_spec shape, ?_⟩
  · intro path setting next set
    cases setting with
    | uint raw => exact setUint_gives sound set
    | int value => exact setInt_gives set
    | enum symbol => exact setEnum_gives set
    | decimal text =>
      refine setDecimal_gives sound ?_ set
      intro size form here
      exact (bounds_of_hasIntAt parsed compiled listed here).2.2
    | bytes data => exact setBytes_gives set
  · intro place f s there solid spellable
    exact locate_eq_ok.mpr ⟨resolve_spell good listed shape there solid spellable, there⟩

instance (r : Record) (place : Location) : Decidable (r.IsSpellable place) :=
  inferInstanceAs (Decidable (∀ step ∈ steps place.hops place.field r.layout,
    IsPlain step.name ∧ ∀ n ∈ step.item, (n : Int) ≤ Word.maxSigned))

/-- The side of the first leg of a quote, the leg having been appended, is reached by its path and set by it. -/
theorem legs_hasLenses : ∃ m t l quote fresh place f s next, Model.parse rangesDocument = .ok m ∧
    Table.compile m = .ok t ∧ l ∈ t.layouts ∧ (new l).appendElem "Legs" = .ok (quote, fresh) ∧
      Reachable l quote ∧ quote.HasLenses .standard ∧ quote.spell place = "Legs[0].Side" ∧
      quote.locate "Legs[0].Side" = .ok (place, f, s) ∧
        quote.assign .standard "Legs[0].Side" (.uint 1) = .ok next ∧
          next.GivesBack .standard "Legs[0].Side" (.uint 1) := by
  have run : ((layoutsOf rangesDocument).any fun l =>
      ((new l).appendElem "Legs").toOption.any fun appended =>
        (appended.1.at? ⟨[⟨4, some 0⟩], 0⟩).any (fun found => found.1.isPad == false) &&
          decide (appended.1.IsSpellable ⟨[⟨4, some 0⟩], 0⟩) &&
            appended.1.spell ⟨[⟨4, some 0⟩], 0⟩ == "Legs[0].Side" &&
              (appended.1.assign .standard "Legs[0].Side" (.uint 1)).toOption.isSome) = true := by
    rw [layoutsOf_eq parse_rangesDocument]
    decide +kernel
  obtain ⟨m, t, l, parsed, compiled, listed, checked⟩ := exists_of_any_layoutsOf run
  simp only [Bool.and_eq_true, Option.any_eq_true, Option.isSome_iff_exists, toOption_eq_some, decide_eq_true_eq,
    beq_iff_eq, Prod.exists] at checked
  obtain ⟨quote, fresh, appended, ⟨⟨⟨f, s, there, solid⟩, spellable⟩, spelled⟩, next, set⟩ := checked
  have reached : Reachable l quote := .change .new (.appendElem appended)
  have lenses := hasLenses parsed compiled listed reached .standard
  have located := lenses.reaches _ f s there solid spellable
  rw [spelled] at located
  exact ⟨m, t, l, quote, fresh, _, f, s, next, parsed, compiled, listed, appended, reached, lenses, spelled,
    located, set, lenses.gives _ _ next set⟩

end Record

end TradeWire
