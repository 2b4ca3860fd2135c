import TradeWire.Settings.Toml.Expression

/-! Selective reading of a settings document: only the keys that are wanted are looked at closely. -/

set_option autoImplicit false
set_option relaxedAutoImplicit false

namespace TradeWire.Toml.Selective

def dialect : Dialect := ⟨false, false, false, false, looseWord⟩

/-- What a path has been used for. A table is settled when it may not be opened any more. -/
inductive Use where
  | value
  | table (isSettled : Bool)
  | tables
deriving Repr, DecidableEq

abbrev Used := List (Path × Use)

/-- Use a path for a value; a table on the way to it must not be settled. -/
def Used.enter (used : Used) (path : Path) : Option Used := do
  let onTheWay ← (parents path).foldlM
    (fun used parent =>
      match used.lookup parent with
      | none => some ((parent, .table false) :: used)
      | some (.table false) => some used
      | some _ => none)
    used
  if (onTheWay.lookup path).isSome then none else some ((path, .value) :: onTheWay)

mutual

def isConsistent : Value → Bool
  | .list items => areConsistent items
  | .table entries => areDistinct [] entries
  | _ => true

def areConsistent : List Value → Bool
  | [] => true
  | v :: rest => isConsistent v && areConsistent rest

/-- Whether entries use new paths only and are consistent themselves. -/
def areDistinct (used : Used) : List (Path × Value) → Bool
  | [] => true
  | (key, v) :: rest =>
    match used.enter key with
    | none => false
    | some used => isConsistent v && areDistinct used rest

end

/-- The tables that keys at the top have made are settled when the first table is opened. -/
def Used.settle (used : Used) : Used :=
  used.map fun (path, use) => (path, if use == .table false then .table true else use)

def Used.through (used : Used) (path : Path) : Option Used :=
  (parents path).foldlM
    (fun used parent =>
      match used.lookup parent with
      | none => some ((parent, .table false) :: used)
      | some .value => none
      | some _ => some used)
    used

/-- Open a table, once. -/
def Used.openTable (used : Used) (path : Path) : Option Used := do
  let used ← used.through path
  match used.lookup path with
  | none => some ((path, .table true) :: used)
  | some (.table false) => some ((path, .table true) :: used)
  | some _ => none

/-- Open a table of a list of tables, and tell whether it is the first one. What stood in the one before
does not count any more. -/
def Used.openTables (used : Used) (path : Path) : Option (Bool × Used) := do
  let used ← used.through path
  match used.lookup path with
  | none => some (true, (path, .tables) :: used)
  | some .tables => some (false, used.filter fun (other, _) => !isBelow path other)
  | some _ => none

/-- Where reading stands: at the top, in a wanted table or in one that is not wanted. -/
inductive Place where
  | top
  | wanted
  | passed
deriving Repr, DecidableEq

structure Progress where
  entries : Entries
  used : Used
  place : Place

/-- Note a table that was opened. A wanted key is no table with tables inside. -/
def Progress.opened (p : Progress) (isWanted : String → Bool) (used : Used) (e : Entry) :
    Path → Option Progress
  | [name] =>
    if isWanted name then some ⟨p.entries ++ [(name, e)], used, .wanted⟩
    else some ⟨p.entries, used, .passed⟩
  | path => if path.head?.any isWanted then none else some ⟨p.entries, used, .passed⟩

def Progress.step (isWanted : String → Bool) (p : Progress) : Expression → Option Progress
  | .entry key v =>
    match p.place with
    | .passed => some p
    | .wanted => none
    | .top =>
      match p.used.enter key with
      | none => none
      | some used =>
        if !isConsistent v then none
        else
          match key with
          | [name] => some { p with entries := p.entries ++ [(name, .value v)], used }
          | _ => if key.head?.any isWanted then none else some { p with used }
  | .table path =>
    let used := if p.place == .top then p.used.settle else p.used
    (used.openTable path).bind fun used => p.opened isWanted used .table path
  | .tables path =>
    let used := if p.place == .top then p.used.settle else p.used
    (used.openTables path).bind fun (isFirst, used) => p.opened isWanted used (.tables isFirst) path

/-- What a document says about wanted keys, and about others as far as they have values at its top. -/
def parse (isWanted : String → Bool) (s : String) : Option Entries := do
  let all ← document dialect s
  let p ← all.foldlM (Progress.step isWanted) ⟨[], [], .top⟩
  return p.entries

end TradeWire.Toml.Selective
