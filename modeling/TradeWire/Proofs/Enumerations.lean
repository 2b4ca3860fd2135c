import TradeWire.Proofs.Record.Places
import TradeWire.Proofs.Record.Symbols

/-! Enumerations show the symbol of their number, unless the record itself sets that number. -/

set_option autoImplicit false
set_option relaxedAutoImplicit false

namespace TradeWire.Record

/-- The number at the end of hops announces the length of the message whose header it stands in. -/
def AnnouncesAt (l : Layout) (slots : List Slot) (hops : List Hop) (i : Nat) : Prop :=
  ∃ hop ∈ hops.getLast?, hop.item = none ∧
    ∃ outer ∈ follow hops.dropLast l slots, outer.1.Announces hop.field i

/-- The number at a location is one that the record sets: a counter or an announced length. -/
def Computes (r : Record) (place : Location) : Prop :=
  (∃ owner ∈ follow place.hops r.layout r.slots, owner.1.Counts place.field) ∨
    AnnouncesAt r.layout r.slots place.hops place.field

instance (l : Layout) (slots : List Slot) (hops : List Hop) (i : Nat) :
    Decidable (AnnouncesAt l slots hops i) :=
  inferInstanceAs (Decidable (∃ hop ∈ hops.getLast?, hop.item = none ∧
    ∃ outer ∈ follow hops.dropLast l slots, outer.1.Announces hop.field i))

instance (r : Record) (place : Location) : Decidable (r.Computes place) :=
  inferInstanceAs (Decidable ((∃ owner ∈ follow place.hops r.layout r.slots, owner.1.Counts place.field) ∨
    AnnouncesAt r.layout r.slots place.hops place.field))

/-- How an enumeration shows a number: its symbol with the number, or the number alone. -/
def enumText (symbols : Symbols) (form : IntForm) (raw : UInt64) : String :=
  match symbols.name? raw with
  | some symbol => if symbol == "" then rawText form raw else symbol ++ " (" ++ rawText form raw ++ ")"
  | none => rawText form raw

/-- The instance that hops lead to is current. Left out are what was left out before, when there is no hop,
and what is announced through the last hop. -/
private theorem current_of_follow {owner : Layout} {inner : List Slot} (hops : List Hop) :
    ∀ (announced : Nat → Prop) (l : Layout) (slots : List Slot), l.Current announced slots →
      follow hops l slots = some (owner, inner) →
        owner.Current (fun i => (hops = [] ∧ announced i) ∨ AnnouncesAt l slots hops i) inner := by
  induction hops with
  | nil =>
    intro announced l slots current reached
    cases reached
    exact current.mono fun i left => .inl ⟨rfl, left⟩
  | cons hop hops ih =>
    intro announced l slots current reached
    -- one hop leads to an instance; from there on the others lead
    have onward : ∀ (others : Nat → Prop) (element : Layout) (below : List Slot),
        (∀ rest, follow (hop :: rest) l slots = follow rest element below) →
        (∀ i, others i → hop.item = none ∧ l.Announces hop.field i) → element.Current others below →
        follow hops element below = some (owner, inner) →
          owner.Current (fun i => (hop :: hops = [] ∧ announced i) ∨ AnnouncesAt l slots (hop :: hops) i)
            inner := by
      intro others element below same left here further
      refine (ih others element below here further).mono ?_
      rintro i (⟨rfl, announces⟩ | ⟨final, last, single, outer, led, announces⟩)
      · obtain ⟨single, announces⟩ := left i announces
        exact .inr ⟨hop, rfl, single, (l, slots), rfl, announces⟩
      · cases hops with
        | nil => cases last
        | cons next more =>
          refine .inr ⟨final, by simpa using last, single, outer, ?_, announces⟩
          rw [List.dropLast_cons_of_ne_nil (by simp), same]
          exact led
    obtain ⟨_, structures, items⟩ := current
    unfold follow at reached
    split at reached
    · rename_i name repetition element below nested held single
      refine onward _ element below ?_ (fun i announces => ⟨single, announces⟩)
        (structures _ name repetition element below nested held) reached
      intro rest
      simp [follow, nested, held, single]
    · rename_i name repetition element several n nested held item
      obtain ⟨below, at_n, further⟩ := Option.bind_eq_some_iff.mp reached
      refine onward (fun _ => False) element below ?_ (fun _ => False.elim)
        (items _ name repetition element several below nested held (List.mem_of_getElem? at_n)) further
      intro rest
      simp [follow, nested, held, item, at_n]
    · cases reached

private theorem mem_fieldLines {line : String} {depth i : Nat} {fields : List Field} {slots : List Slot} {f : Field}
    {s : Slot} (here : fields[i]? = some f) (there : slots[i]? = some s) (shown : line ∈ f.lines depth s) :
    line ∈ fieldLines depth fields slots := by
  induction i generalizing fields slots with
  | zero =>
    cases fields with
    | nil => cases here
    | cons g gs =>
      cases slots with
      | nil => cases there
      | cons t ts =>
        obtain rfl : g = f := by simpa using here
        obtain rfl : t = s := by simpa using there
        exact List.mem_append_left _ shown
  | succ i ih =>
    cases fields with
    | nil => cases here
    | cons g gs =>
      cases slots with
      | nil => cases there
      | cons t ts => exact List.mem_append_right _ (ih (by simpa using here) (by simpa using there))

private theorem mem_lines_of_follow {line : String} {owner : Layout} {inner : List Slot} {i : Nat} {f : Field}
    {s : Slot} (here : owner.fields[i]? = some f) (there : inner[i]? = some s) (hops : List Hop) :
    ∀ (depth : Nat) (l : Layout) (slots : List Slot), follow hops l slots = some (owner, inner) →
      line ∈ f.lines (depth + hops.length) s → line ∈ l.lines depth slots := by
  induction hops with
  | nil =>
    intro depth l slots reached shown
    cases reached
    obtain ⟨name, message, size, fields⟩ := owner
    exact mem_fieldLines here there shown
  | cons hop hops ih =>
    intro depth l slots reached shown
    obtain ⟨name, message, size, fields⟩ := l
    have deeper : depth + (hop :: hops).length = depth + 1 + hops.length := by
      rw [List.length_cons]
      omega
    rw [deeper] at shown
    unfold follow at reached
    split at reached
    · rename_i nested held _
      refine mem_fieldLines nested held ?_
      simp only [Field.lines]
      exact List.mem_cons_of_mem _ (ih _ _ _ reached shown)
    · rename_i element items n nested held _
      obtain ⟨below, at_n, further⟩ := Option.bind_eq_some_iff.mp reached
      refine mem_fieldLines nested held ?_
      have inside : (element.lines (depth + 1) below, n) ∈
          (items.map (element.lines (depth + 1))).zipIdx := by
        rw [List.mem_zipIdx_iff_getElem?, List.getElem?_map, at_n]
        rfl
      simp only [Field.lines]
      refine List.mem_flatMap.mpr ⟨_, inside, ?_⟩
      exact List.mem_cons_of_mem _ (ih _ _ _ further shown)
    · cases reached

theorem symbolOf_of_remembers {form : IntForm} {symbols : Symbols} (enumerated : form.symbols = some symbols)
    {raw : UInt64} {symbol : String} (remembers : form.Remembers raw symbol) :
    symbolOf symbols (.int raw symbol) = symbols.name? raw := by
  simp only [symbolOf]
  split
  · rename_i named
    rcases remembers symbols enumerated with unnamed | same
    · simp [unnamed] at named
    · exact same.symm
  · rfl

private theorem intText_of_remembers {form : IntForm} {symbols : Symbols} (enumerated : form.symbols = some symbols)
    {raw : UInt64} {symbol : String} (remembers : form.Remembers raw symbol) :
    intText form (.int raw symbol) = enumText symbols form raw := by
  have current := symbolOf_of_remembers enumerated remembers
  cases named : symbols.name? raw with
  | none => simp only [intText, enumerated, current, enumText, Slot.raw, named]
  | some name => simp only [intText, enumerated, current, enumText, Slot.raw, named]

/-- A number that the record does not set itself is kept with its own symbol or with none. -/
theorem Reachable.remembers {l : Layout} {r : Record} (reached : Reachable l r) {place : Location}
    {name type : String} {size : Nat} {form : IntForm} {raw : UInt64} {symbol : String}
    (there : r.at? place = some (.primitive name type size (.int form), .int raw symbol))
    (own : ¬r.Computes place) : form.Remembers raw symbol := by
  obtain ⟨rfl, current⟩ := reached.current
  obtain ⟨owner, inner, followed, here, held⟩ := at?_eq_some.mp there
  obtain ⟨numbers, _, _⟩ := current_of_follow place.hops _ r.layout r.slots current followed
  refine numbers place.field name type size form raw symbol here held ?_
  rintro (counts | ⟨_, none⟩ | announces)
  · exact own (.inl ⟨(owner, inner), followed, counts⟩)
  · exact none
  · exact own (.inr announces)

/-- Symbols are those of the present numbers. Whatever a record has been through, an enumeration anywhere in
it gives the symbol of its number, if it has one, by any path that leads there, and the text of the record
shows that symbol with the number. This leaves out the counters and lengths that a record sets itself. -/
theorem enum_eq_name? {l : Layout} {r : Record} (reached : Reachable l r) {place : Location}
    {name type : String} {size : Nat} {form : IntForm} {symbols : Symbols} {s : Slot}
    (there : r.at? place = some (.primitive name type size (.int form), s))
    (enumerated : form.symbols = some symbols) (own : ¬r.Computes place) :
    (∀ path, r.resolve path = .ok place →
        r.uint path = .ok s.raw ∧ r.enum path = .ok (symbols.name? s.raw)) ∧
      indent (place.hops.length + 1) ++ name ++ ": " ++ enumText symbols form s.raw ∈
        r.layout.lines 1 r.slots := by
  obtain ⟨rfl, shape⟩ := reached.hasShape
  obtain ⟨owner, inner, followed, here, held⟩ := at?_eq_some.mp there
  -- the slot holds a number and remembers its symbol or none
  obtain ⟨t, same, kind⟩ := forall₂_getElem? (Layout.admits_iff.mp (admits_of_follow shape followed)) here
  obtain rfl : s = t := Option.some.inj (held.symm.trans same)
  obtain ⟨raw, symbol, rfl⟩ := kind.int_inv
  have remembers := reached.remembers there own
  constructor
  · intro path resolved
    have integer : r.locateInt path = .ok (place, size, form, .int raw symbol) := by
      simp only [locateInt, locate, resolved, there]
    have shown := symbolOf_of_remembers enumerated remembers
    exact ⟨by simp [uint, integer, Except.map], by simp [enum, integer, enumerated, shown, Slot.raw]⟩
  · refine mem_lines_of_follow here held place.hops 1 r.layout r.slots followed ?_
    simp [Field.lines, intText_of_remembers enumerated remembers, Nat.add_comm, Slot.raw]

def wordsDocument : Bytes := List.flatMap Text.encodeUtf8
  ["<Model><DataTypes><DataType name='N' rootType='int' size='1'><ValidValue name='One' value='1'/>",
    "<ValidValue name='Two' value='2'/><ValidValue name='Four' value='4'/>",
    "<ValidValue name='Five' value='5'/></DataType></DataTypes><Structures>",
    "<Structure name='MessageHeaderComp'><Member name='BodyLen' type='N' cardinality='1'/>",
    "<Member name='TemplateID' type='N' cardinality='1'/></Structure>",
    "<Structure name='Leg'><Member name='Side' type='N' cardinality='1'/></Structure>",
    "<Structure name='Order' type='Message' numericID='1'>",
    "<Member name='H' type='MessageHeaderComp' cardinality='1'/>",
    "<Member name='Count' type='N' cardinality='1'/>",
    "<Member name='Legs' type='Leg' cardinality='3' minCardinality='0' counter='Count'/>",
    "</Structure></Structures></Model>"]

def words : Symbols := ⟨"N", [⟨"One", 1⟩, ⟨"Two", 2⟩, ⟨"Four", 4⟩, ⟨"Five", 5⟩]⟩

def firstSide : Location := ⟨[⟨2, some 0⟩], 0⟩

def symbolsAt? (r : Record) (path : String) : Option Symbols :=
  (r.fieldInfo path).toOption.bind fun f => f.intForm?.bind (·.symbols)

/-- The first leg has the side five, which is not a number that the record sets. -/
def HasFirstSide (r : Record) : Prop :=
  (r.at? firstSide).any (fun (f, s) => f.name == "Side" &&
      f.intForm?.any (fun form => form.symbols == some words && rawText form 5 == "5") && s.raw == 5) = true ∧
    ¬r.Computes firstSide ∧ r.resolve "Legs[0].Side" = .ok firstSide

instance (r : Record) : Decidable r.HasFirstSide := inferInstanceAs (Decidable (_ ∧ _ ∧ _))

/-- A number is shown by the symbol of another one, by path and in the text. -/
def ShowsOther (r : Record) (path : String) (raw : UInt64) (shown line : String) : Prop :=
  r.symbolsAt? path = some words ∧ r.uint path = .ok raw ∧ words.name? raw ≠ some shown ∧
    r.enum path = .ok (some shown) ∧ line ∈ r.layout.lines 1 r.slots

instance (r : Record) (path : String) (raw : UInt64) (shown line : String) :
    Decidable (r.ShowsOther path raw shown line) :=
  inferInstanceAs (Decidable (_ ∧ _ ∧ _ ∧ _ ∧ _))

/-- An order of one leg is read and gets a second leg. When its legs are counted, the count goes on being
shown as it was read, and so does its length when it is announced. -/
private theorem exists_counted : ∃ m t l r, Model.parse wordsDocument = .ok m ∧ Table.compile m = .ok t ∧
    l ∈ t.layouts ∧ Reachable l r ∧ r.HasFirstSide ∧
      r.syncCounters.ShowsOther "Count" 2 "One" "  Count: One (2)" ∧
        r.syncCounters.updateLength.ShowsOther "H.BodyLen" 5 "Four" "    BodyLen: Four (5)" := by
  have run : ((layoutsOf wordsDocument).any fun l => (Record.unpack l [4, 1, 1, 5] 0).toOption.any fun one =>
      (one.1.appendElem "Legs").toOption.any fun two => decide (two.1.HasFirstSide ∧
        two.1.syncCounters.ShowsOther "Count" 2 "One" "  Count: One (2)" ∧
          two.1.syncCounters.updateLength.ShowsOther "H.BodyLen" 5 "Four" "    BodyLen: Four (5)")) = true := by
    rw [wordsDocument, Text.encodeUtf8_eq]
    decide +kernel
  obtain ⟨m, t, l, parsed, compiled, listed, checked⟩ := exists_of_any_layoutsOf run
  simp only [Option.any_eq_true, toOption_eq_some, decide_eq_true_eq, Prod.exists] at checked
  obtain ⟨one, stop, unpacked, two, leg, appended, side, count, length⟩ := checked
  exact ⟨m, t, l, two, parsed, compiled, listed, .change (.unpack unpacked) (.appendElem appended), side, count,
    length⟩

theorem firstSide_enum_eq_name? : ∃ m t l r, Model.parse wordsDocument = .ok m ∧ Table.compile m = .ok t ∧
    l ∈ t.layouts ∧ Reachable l r ∧ ¬r.Computes firstSide ∧ r.uint "Legs[0].Side" = .ok 5 ∧
      r.enum "Legs[0].Side" = .ok (some "Five") ∧ "    Side: Five (5)" ∈ r.layout.lines 1 r.slots := by
  obtain ⟨m, t, l, r, parsed, compiled, listed, reached, ⟨side, own, path⟩, _⟩ := exists_counted
  obtain ⟨⟨f, s⟩, there, checked⟩ := (Option.any_eq_true _ _).mp side
  simp only [Bool.and_eq_true, beq_iff_eq, Option.any_eq_true] at checked
  obtain ⟨⟨named, form, integer, enumerated, digits⟩, number⟩ := checked
  obtain ⟨name, type, size, rfl⟩ := Field.exists_of_intForm? integer
  obtain ⟨gives, shows⟩ := enum_eq_name? reached there enumerated own
  obtain ⟨raw, symbol⟩ := gives _ path
  obtain rfl : name = "Side" := named
  have word : words.name? s.raw = some "Five" := by
    rw [number]
    decide
  have text : enumText words form s.raw = "Five (5)" := by
    simp only [enumText, number, digits]
    decide
  rw [text] at shows
  exact ⟨m, t, l, r, parsed, compiled, listed, reached, own, number ▸ raw, word ▸ symbol, shows⟩

/-- Counting elements and announcing the length leave symbols behind that belong to earlier numbers. -/
theorem enum_stale_of_computes : ∃ m t l r, Model.parse wordsDocument = .ok m ∧ Table.compile m = .ok t ∧
    l ∈ t.layouts ∧ Reachable l r ∧ r.ShowsOther "Count" 2 "One" "  Count: One (2)" ∧
      Reachable l r.updateLength ∧ r.updateLength.ShowsOther "H.BodyLen" 5 "Four" "    BodyLen: Four (5)" := by
  obtain ⟨m, t, l, r, parsed, compiled, listed, reached, _, count, length⟩ := exists_counted
  have counted : Reachable l r.syncCounters := .change reached (.syncCounters r)
  exact ⟨m, t, l, r.syncCounters, parsed, compiled, listed, counted, count,
    .change counted (.updateLength r.syncCounters), length⟩

end TradeWire.Record
