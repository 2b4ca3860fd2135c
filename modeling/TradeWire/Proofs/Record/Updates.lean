import TradeWire.Record.Access

/-! What the updates of a record come to, and that those that fail leave the record as it was. -/

set_option autoImplicit false
set_option relaxedAutoImplicit false

namespace TradeWire.Record

namespace Update

variable {α β : Type}

private theorem outcome_look_bind (read : Record → Except FieldError α) (f : α → Update β) (r : Record) :
    outcome (look read >>= f) r = (read r).bind fun a => (f a).outcome r := by
  simp only [outcome, EStateM.run, bind, EStateM.bind, look]
  cases read r with
  | error | ok => rfl

private theorem outcome_put (place : Location) (change : Slot → Slot) (r : Record) :
    (put place change).outcome r = .ok (r.modify place change) := rfl

private theorem outcome_throw (fault : FieldError) (r : Record) :
    (throw fault : Update α).outcome r = .error fault := rfl

private theorem outcome_ite (c : Prop) [Decidable c] (u v : Update α) (r : Record) :
    (if c then u else v).outcome r = if c then u.outcome r else v.outcome r := apply_ite (outcome · r) c u v

/-! ## Failed updates -/

/-- Where the update fails, it has not changed the record. -/
def Keeps (u : Update α) : Prop := ∀ r fault left, u r = .error fault left → left = r

private theorem keeps_look (read : Record → Except FieldError α) : (look read).Keeps := by
  intro r fault left failed
  unfold look at failed
  split at failed
  · cases failed
    rfl
  · cases failed

private theorem keeps_look_bind {read : Record → Except FieldError α} {f : α → Update β} (rest : ∀ a, (f a).Keeps) :
    (look read >>= f).Keeps := by
  intro r fault left failed
  simp only [bind, EStateM.bind] at failed
  split at failed
  · rename_i a next found
    -- looking something up changes nothing, whether it is found or not
    obtain rfl : next = r := by
      unfold look at found
      split at found
      · cases found
      · cases found
        rfl
    exact rest a next fault left failed
  · rename_i here left' found
    cases failed
    exact keeps_look read r _ _ found

private theorem keeps_put (place : Location) (change : Slot → Slot) : (put place change).Keeps := by
  intro r fault left failed
  cases failed

private theorem keeps_put_bind (place : Location) (change : Slot → Slot) (a : α) :
    (put place change >>= fun _ => pure a).Keeps := by
  intro r fault left failed
  cases failed

private theorem keeps_throw (fault : FieldError) : (throw fault : Update α).Keeps := by
  intro r fault' left failed
  cases failed
  rfl

private theorem keeps_ite {c : Prop} [Decidable c] {u v : Update α} (first : u.Keeps) (second : v.Keeps) :
    (if c then u else v).Keeps := by
  split
  · exact first
  · exact second

theorem keeps_uint (path : String) (raw : UInt64) : (uint path raw).Keeps := by
  apply keeps_look_bind
  rintro ⟨place, size, form, s⟩
  exact keeps_ite (keeps_ite (keeps_put _ _) (keeps_throw _)) (keeps_put _ _)

theorem keeps_int (path : String) (value : Int) : (int path value).Keeps := by
  apply keeps_look_bind
  rintro ⟨place, size, form, s⟩
  exact keeps_ite (keeps_throw _) (keeps_put _ _)

theorem keeps_enum (path symbol : String) : (enum path symbol).Keeps := by
  apply keeps_look_bind
  rintro ⟨place, size, form, s⟩
  simp only
  split
  · exact keeps_throw _
  · split
    · exact keeps_throw _
    · exact keeps_put _ _

theorem keeps_bytes (path : String) (data : Bytes) : (bytes path data).Keeps := by
  apply keeps_look_bind
  rintro ⟨place, s⟩
  exact keeps_put _ _

theorem keeps_decimal (lib : DecimalLibrary) (path text : String) : (decimal lib path text).Keeps := by
  apply keeps_look_bind
  rintro ⟨place, size, form, s⟩
  simp only
  split
  · exact keeps_throw _
  · exact keeps_throw _
  · split
    · exact keeps_throw _
    · exact keeps_put _ _

theorem keeps_appendElem (path : String) : (appendElem path).Keeps := by
  apply keeps_look_bind
  rintro ⟨place, f, s⟩
  split
  · exact keeps_put_bind _ _ _
  · exact keeps_throw _

end Update

/-! ## What updates come to -/

theorem setUint_eq (r : Record) (path : String) (raw : UInt64) : r.setUint path raw =
    match r.locateInt path with
    | .error fault => .error fault
    | .ok (l, size, form, _) =>
      if form.isSigned then
        let value := if size < 8 && Word.isNarrow raw size then Word.signExtend raw size else raw
        if Word.fits value size true then .ok (r.modify l fun _ => .int value "")
        else .error (.rawOutOfRange path value)
      else .ok (r.modify l fun _ => .int raw "") := by
  rw [setUint, Update.uint, Update.outcome_look_bind]
  cases r.locateInt path with
  | error fault => rfl
  | ok found => simp only [Except.bind, Update.outcome_ite, Update.outcome_put, Update.outcome_throw]

theorem setInt_eq (r : Record) (path : String) (value : Int) : r.setInt path value =
    match r.locateInt path with
    | .error fault => .error fault
    | .ok (l, _, form, _) =>
      if !form.isSigned && value < 0 then .error (.intOutOfRange path value)
      else .ok (r.modify l fun _ => .int (Word.ofInt value) "") := by
  rw [setInt, Update.int, Update.outcome_look_bind]
  cases r.locateInt path with
  | error fault => rfl
  | ok found => simp only [Except.bind, Update.outcome_ite, Update.outcome_put, Update.outcome_throw]

theorem setEnum_eq (r : Record) (path symbol : String) : r.setEnum path symbol =
    match r.locateInt path with
    | .error fault => .error fault
    | .ok (l, _, form, _) =>
      match form.symbols with
      | none => .error (.notEnumeration path)
      | some symbols =>
        match symbols.value? symbol with
        | none => .error (.unknownSymbol path symbol)
        | some raw => .ok (r.modify l fun _ => .int raw ((symbols.name? raw).getD "")) := by
  rw [setEnum, Update.enum, Update.outcome_look_bind]
  cases r.locateInt path with
  | error fault => rfl
  | ok found =>
    obtain ⟨l, size, form, s⟩ := found
    simp only [Except.bind]
    cases form.symbols with
    | none => rfl
    | some symbols =>
      simp only
      cases symbols.value? symbol with
      | none | some => rfl

theorem setBytes_eq (r : Record) (path : String) (data : Bytes) : r.setBytes path data =
    match r.locateBytes path with
    | .error fault => .error fault
    | .ok (l, _) => .ok (r.modify l fun _ => .bytes data) := by
  rw [setBytes, Update.bytes, Update.outcome_look_bind]
  cases r.locateBytes path with
  | error | ok => rfl

theorem setDecimal_eq (r : Record) (lib : DecimalLibrary) (path text : String) : r.setDecimal lib path text =
    match r.locateInt path with
    | .error fault => .error fault
    | .ok (l, size, form, _) =>
      match lib.units text form.scale with
      | .error (.unreadable reason) => .error (.badDecimal path text reason)
      | .error .tooManyPlaces => .error (.tooManyPlaces path text form.scale)
      | .ok n =>
        match rawOfInt? size form.isSigned n with
        | none => .error (.decimalOutOfRange path text)
        | some raw => .ok (r.modify l fun _ => .int raw "") := by
  rw [setDecimal, Update.decimal, Update.outcome_look_bind]
  cases r.locateInt path with
  | error fault => rfl
  | ok found =>
    obtain ⟨l, size, form, s⟩ := found
    simp only [Except.bind]
    cases lib.units text form.scale with
    | error fault => cases fault <;> rfl
    | ok n =>
      simp only
      cases rawOfInt? size form.isSigned n with
      | none | some => rfl

theorem appendElem_eq (r : Record) (path : String) : r.appendElem path =
    match r.locate path with
    | .error fault => .error fault
    | .ok (l, .nested _ (.group ..) element, _) =>
      .ok (r.modify l (appendItem element.initialSlots), new element)
    | .ok (_, f, _) => .error (.wrongKind path f.kindWord) := by
  simp only [appendElem, EStateM.run, Update.appendElem, bind, EStateM.bind, Update.look]
  cases r.locate path with
  | error fault => rfl
  | ok found =>
    obtain ⟨l, f, s⟩ := found
    cases f with
    | primitive => rfl
    | nested name repetition element => cases repetition <;> rfl

end TradeWire.Record
