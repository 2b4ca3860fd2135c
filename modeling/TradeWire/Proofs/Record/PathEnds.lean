import TradeWire.Proofs.Record.Numbers
import TradeWire.Proofs.Record.Resolution

/-! A path ends in a field of the name that it ends with. -/

set_option autoImplicit false
set_option relaxedAutoImplicit false

namespace TradeWire.Record

/-- The path of a field behind the header ends in the name of that field. -/
theorem getLast?_sessionPath (header : String) {name : String} (plain : IsPlain name) :
    (splitDots (sessionPath header name).toList).getLast? = some name.toList := by
  have chars : (sessionPath header name).toList = header.toList ++ '.' :: name.toList := by
    simp [sessionPath]
  rw [chars, splitDots_dot, splitDots_of_plain plain, List.getLast?_concat]

private theorem lookup?_of_resolveParts {path : String} {r : Record} {owner : Layout} {inner : List Slot}
    {parts : List (List Char)} {place : Location} {name : String} (plain : IsPlain name)
    (ends : parts.getLast? = some name.toList)
    (resolved : resolveParts path r.layout r.slots parts = .ok place)
    (followed : follow place.hops r.layout r.slots = some (owner, inner)) :
    owner.lookup? name = some place.field := by
  induction parts generalizing r place with
  | nil => cases ends
  | cons part rest ih =>
    obtain ⟨segment, i, parsed, found, step⟩ := resolveParts_cons_eq_ok.mp resolved
    rcases step with ⟨rfl, _, rfl⟩ | ⟨item, next, below, _, ⟨enters, _⟩, further, rfl⟩
    · cases followed
      obtain rfl : part = name.toList := by simpa using ends
      rw [parseSegment_of_plain plain] at parsed
      cases parsed
      exact found
    · simp only [Location.below] at followed
      rw [follow_cons, enter_eq_some.mpr enters, Option.bind_some] at followed
      -- what goes on has a part left to go by
      have onward : rest.getLast? = some name.toList := by
        cases rest with
        | nil => cases further
        | cons second others => simpa using ends
      have deep := ih onward further followed
      exact deep

theorem name_of_locate {r : Record} {path name : String} {place : Location} {f : Field} {s : Slot}
    (plain : IsPlain name) (ends : (splitDots path.toList).getLast? = some name.toList)
    (located : r.locate path = .ok (place, f, s)) : f.name = name := by
  have there := at?_of_locate located
  unfold locate at located
  split at located
  · cases located
  · rename_i l resolved
    split at located
    · cases located
      obtain ⟨⟨owner, inner⟩, followed, here⟩ := Option.bind_eq_some_iff.mp there
      obtain ⟨g, listed, _, named⟩ :=
        Layout.lookup?_eq_some (lookup?_of_resolveParts plain ends resolved followed)
      simp only [listed] at here
      split at here
      · rename_i first _
        cases here
        cases first
        exact named
      · cases here
    · cases located

private theorem nestedRaw_modifySlots_below {slots inner : List Slot} {i : Nat}
    (there : slots[i]? = some (.struct inner)) (change : Slot → Slot) (hops : List Hop) (k j : Nat) :
    nestedRaw (modifySlots change (⟨i, none⟩ :: hops) k slots) i j =
      rawAt (modifySlots change hops k inner) j := by
  simp [nestedRaw, modifySlots, there]

private theorem nestedRaw_modify_of_ne {r : Record} (shape : r.HasShape) {place : Location} {name type other : String}
    {size i j : Nat} {form : IntForm} {s : Slot}
    (there : r.at? place = some (.primitive name type size (.int form), s)) (change : Slot → Slot)
    (at_ : r.layout.NumberAt i j other) (apart : other ≠ name) :
    nestedRaw (r.modify place change).slots i j = nestedRaw r.slots i j := by
  obtain ⟨inner, raw, symbol, outside, inside⟩ := at_.slot shape
  obtain ⟨nested, _, held⟩ := at_
  obtain ⟨hops, k⟩ := place
  cases hops with
  | nil =>
    -- an integer of the record itself
    simp only [at?, follow, Option.bind_some] at there
    split at there
    · rename_i integer _
      cases there
      have elsewhere : k ≠ i := by
        rintro rfl
        cases integer.symm.trans nested
      simp [nestedRaw, modify, modifySlots, elsewhere]
    · cases there
  | cons hop more =>
    obtain ⟨a, item⟩ := hop
    by_cases same : a = i
    · subst same
      cases item with
      | some n => simp [at?, follow, nested, outside] at there
      | none =>
        simp only [at?, follow, nested, outside] at there
        cases more with
        | nil =>
          -- an integer of the same structure
          have elsewhere : k ≠ j := by
            rintro rfl
            simp only [follow, Option.bind_some, held, inside] at there
            cases there
            exact apart rfl
          exact nestedRaw_modifySlots_of_ne (fun both => elsewhere both.2) _ _
        | cons next others =>
          -- an integer further down, on whose way there is none
          have still : (modifySlots change (next :: others) k inner)[j]? = inner[j]? := by
            by_cases onTheWay : next.field = j
            · simp [modifySlots, onTheWay, inside]
            · simp [modifySlots, onTheWay]
          rw [modify, nestedRaw_modifySlots_below outside, rawAt, still]
          simp [nestedRaw, outside, rawAt]
    · simp [nestedRaw, modify, modifySlots, same]

/-- A number that is set by a path is told by the name the path ends in. -/
theorem SetsInteger.keepsNumbers {r next : Record} {path name : String} (sets : SetsInteger r path next)
    (changed : Change r next) (shape : r.HasShape) (plain : IsPlain name)
    (ends : (splitDots path.toList).getLast? = some name.toList) : KeepsNumbers [name] r next := by
  obtain ⟨located, _⟩ := sets
  obtain ⟨field, type, found⟩ := locate_of_locateInt located
  refine ⟨rfl, fun l reached => .change reached changed, ?_⟩
  intro i j other at_ fresh
  obtain rfl : field = name := name_of_locate plain ends found
  exact nestedRaw_modify_of_ne shape (at?_of_locate found) _ at_ (by simpa using fresh)

end TradeWire.Record
