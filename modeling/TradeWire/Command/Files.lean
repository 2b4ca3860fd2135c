import TradeWire.Text.Utf8

/-! The files that a command reads, by path. -/

set_option autoImplicit false
set_option relaxedAutoImplicit false

namespace TradeWire.Command

inductive Stored where
  | file (data : Bytes)
  | directory
deriving Repr, DecidableEq

inductive PathFault where
  | missing
  | throughFile
deriving Repr, DecidableEq

def PathFault.message (path : String) : PathFault → String
  | missing => "open " ++ path ++ ": no such file or directory"
  | throughFile => "open " ++ path ++ ": not a directory"

/-- What is said of a directory that is read like a file. -/
def directoryMessage (path : String) : String := "read " ++ path ++ ": is a directory"

abbrev Files := String → Except PathFault Stored

/-- Files with the names of the directories on the way to them. -/
abbrev FileTree := List (List String × Bytes)

namespace FileTree

/-- Whether a place is a directory: the start, or on the way to a file. -/
def isDirectory (t : FileTree) (place : List String) : Bool :=
  place.isEmpty || t.any fun (names, _) => place.length < names.length && place.isPrefixOf names

def stored? (t : FileTree) (place : List String) : Option Stored :=
  match t.lookup place with
  | some data => some (.file data)
  | none => if t.isDirectory place then some .directory else none

def follow (t : FileTree) (place : List String) : List String → Except PathFault Stored
  | [] =>
    match t.stored? place with
    | none => .error .missing
    | some s => .ok s
  | part :: rest =>
    match t.stored? place with
    | none => .error .missing
    | some (.file _) => .error .throughFile
    | some .directory =>
      if part == "" || part == "." then t.follow place rest
      else if part == ".." then t.follow place.dropLast rest
      else t.follow (place ++ [part]) rest

def parts (path : String) : List String := path.splitOn "/"

def files (t : FileTree) : Files := fun path =>
  if path == "" then .error .missing else t.follow [] (parts path)

end FileTree

end TradeWire.Command
