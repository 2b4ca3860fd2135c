import TradeWire.Settings.Toml.Expression

/-! Thorough reading of a settings document: every value is checked, and every key has its place in a tree. -/

set_option autoImplicit false
set_option relaxedAutoImplicit false

namespace TradeWire.Toml.Thorough

def dialect : Dialect := ⟨true, true, true, true, thoroughWord⟩

/-- What stands at a path of the tree; of a list of tables only the last one is open. -/
inductive Node where
  | value (v : Value)
  | table
  | tables
deriving Repr

def Node.isOpen : Node → Bool
  | value _ => false
  | table => true
  | tables => true

/-- The tree of a document: its nodes by path, the tables that are only implied by longer paths, and the
paths whose value was a list when it was last given. -/
structure Tree where
  nodes : List (Path × Node)
  implied : List Path
  lists : List Path

namespace Tree

def empty : Tree := ⟨[], [], []⟩

def put (t : Tree) (path : Path) (node : Node) : Tree :=
  { t with
    nodes := t.nodes.filter (fun (other, _) => other != path && !isBelow path other) ++ [(path, node)] }

def imply (t : Tree) (path : Path) : Tree := { t with implied := path :: t.implied.erase path }

def confirm (t : Tree) (path : Path) : Tree := { t with implied := t.implied.erase path }

/-- The path under which the kind of a value is noted. -/
def kindPath (context : Path) (name : String) : Path :=
  if name == "" then (if context.isEmpty then [""] else context) else context ++ [name]

def noteKind (t : Tree) (path : Path) (isList : Bool) : Tree :=
  { t with lists := if isList then path :: t.lists.erase path else t.lists.erase path }

/-- Give a path its node. A path is used once, unless what stands there is only implied; of a list the
tables inside are implied, and the list takes their place. -/
def assign (t : Tree) (context : Path) (name : String) (node : Node) : Option Tree :=
  let path := context ++ [name]
  if !(parents path).all (fun parent => (t.nodes.lookup parent).any Node.isOpen) then none
  else
    match t.nodes.lookup path with
    | none => some (t.put path node)
    | some _ =>
      if !t.implied.contains path then none
      else if t.lists.contains path then some ((t.confirm path).put path node)
      else some (t.confirm path)

/-- Go through the tables on the way to a path; those that are missing are implied. -/
def through (t : Tree) (path : Path) : Option Tree :=
  (parents path).foldlM
    (fun t parent =>
      match t.nodes.lookup parent with
      | none => some ((t.imply parent).put parent .table)
      | some node => if node.isOpen then some t else none)
    t

/-- Open the table at a path. -/
def openTable (t : Tree) (path : Path) : Option Tree :=
  (t.through path).bind fun t => t.assign path.dropLast (path.getLast?.getD "") .table

def openTables (t : Tree) (path : Path) : Option Tree := do
  let t ← t.through path
  match t.nodes.lookup path with
  | none => some (t.put path .tables)
  | some .tables => some (t.put path .tables)
  | some _ => none

/-- Open the tables that the parts of a key name; each is implied by the key. -/
def openParts (t : Tree) (context : Path) : Path → Option Tree
  | [] => some t
  | part :: rest =>
    let path := context ++ [part]
    ((t.imply path).openTable path).bind fun t => t.openParts path rest

/-- Give a path its value. The entries of a table stand there already, and the table must be new. -/
def assignValue (t : Tree) (context : Path) (name : String) : Value → Option Tree
  | .table _ =>
    let path := context ++ [name]
    if t.implied.contains path then some (t.confirm path) else none
  | v => t.assign context name (.value v)

def isList : Value → Bool
  | .list _ => true
  | _ => false

mutual

def descend (context : Path) (name : String) (inList : Bool) (t : Tree) : Value → Option Tree
  | .list items => descendAll context name (t.noteKind (kindPath context name) true) items
  | .table entries =>
    let path := context ++ [name]
    let t := t.imply path
    (if inList then t.openTables path else t.openTable path).bind fun t => enterAll path t entries
  | _ => some t

def descendAll (context : Path) (name : String) (t : Tree) : List Value → Option Tree
  | [] => some t
  | v :: rest => (descend context name true t v).bind fun t => descendAll context name t rest

def enterAll (context : Path) (t : Tree) : List (Path × Value) → Option Tree
  | [] => some t
  | (key, v) :: rest =>
    let outer := context ++ key.dropLast
    let name := key.getLast?.getD ""
    match t.openParts context key.dropLast with
    | none => none
    | some t =>
      match descend outer name false t v with
      | none => none
      | some t =>
        match t.assignValue outer name v with
        | none => none
        | some t => enterAll context (t.noteKind (kindPath outer name) (isList v)) rest

end

end Tree

/-- What has been read of a document: its tree and the table that is open. -/
structure Progress where
  tree : Tree
  context : Path

def Progress.step (p : Progress) : Expression → Option Progress
  | .entry key v => (p.tree.enterAll p.context [(key, v)]).map fun t => { p with tree := t }
  | .table path => (p.tree.openTable path).map fun t => ⟨t.noteKind path false, path⟩
  | .tables path => (p.tree.openTables path).map fun t => ⟨t.noteKind path false, path⟩

def Node.toEntry : Node → Entry
  | value v => .value v
  | table => .table
  | tables => .tables true

/-- What a document says about the keys at its top. -/
def parse (s : String) : Option Entries := do
  let all ← document dialect s
  let p ← all.foldlM Progress.step ⟨.empty, []⟩
  return p.tree.nodes.filterMap fun (path, node) =>
    match path with
    | [name] => some (name, node.toEntry)
    | _ => none

end TradeWire.Toml.Thorough
