import PhasedWorkload.Document.Node

/-! # Tables under construction

A file names tables by headers and by dotted keys, in any order, but defines none twice. A table that
was only passed through on the way to another is implicit and may still be defined; a table made by a
dotted key may only be extended by dotted keys of the same section.
-/
namespace PhasedWorkload.Toml

inductive Item where
  | leaf (value : Node)
  | table (isImplicit isDotted : Bool) (entries : List (String × Item))
  | tables (sections : List (List (String × Item)))
deriving Inhabited

abbrev Entries := List (String × Item)

namespace Entries

def replace (entries : Entries) (key : String) (item : Item) : Entries :=
  entries.map fun entry => if entry.1 = key then (key, item) else entry

def remove (entries : Entries) (key : String) : Entries := entries.filter fun entry => entry.1 ≠ key

/-- Puts a value under the last part of a dotted key. The parts before it name tables that are made here
or were made by dotted keys of the same section. -/
def put (key : String) (value : Node) : List String → Entries → Option Entries
  | [], entries =>
    if (entries.lookup key).isSome then none else some (entries ++ [(key, .leaf value)])
  | part :: path, entries =>
    match entries.lookup part with
    | none => (put key value path []).map fun inner => entries ++ [(part, .table true true inner)]
    | some (.leaf _) => none
    | some (.table isImplicit isDotted inner) =>
      if !isImplicit || (path.isEmpty && !isDotted) then none
      else (put key value path inner).map fun inner => replace entries part (.table isImplicit isDotted inner)
    | some (.tables sections) =>
      match sections.getLast? with
      | none => none
      | some last =>
        if path.isEmpty then none
        else (put key value path last).map fun last =>
          replace entries part (.tables (sections.dropLast ++ [last]))

/-- Changes the table that a header's path leads to; tables on the way come into being as implicit ones,
and a list of tables stands for its last one. -/
def at? (change : Entries → Option Entries) : List String → Entries → Option Entries
  | [], entries => change entries
  | part :: path, entries =>
    match entries.lookup part with
    | none => (at? change path []).map fun inner => entries ++ [(part, .table true false inner)]
    | some (.leaf _) => none
    | some (.table isImplicit isDotted inner) =>
      (at? change path inner).map fun inner => replace entries part (.table isImplicit isDotted inner)
    | some (.tables sections) =>
      match sections.getLast? with
      | none => none
      | some last =>
        (at? change path last).map fun last => replace entries part (.tables (sections.dropLast ++ [last]))

structure Assignment where
  path : List String
  key : String
  value : Node

def assign (entries : Entries) (assignments : List Assignment) : Option Entries :=
  assignments.foldlM (fun entries a => put a.key a.value a.path entries) entries

/-- Defines a table: it must be new or implicit. It takes the last place among its neighbours. -/
def define (key : String) (assignments : List Assignment) (entries : Entries) : Option Entries :=
  let start := match entries.lookup key with
    | none => some []
    | some (.table true false inner) => some inner
    | some _ => none
  start.bind fun inner => (assign inner assignments).map fun inner =>
    remove entries key ++ [(key, .table false false inner)]

/-- Adds a table to a list of tables, which starts here or was started by such a header. -/
def extend (key : String) (assignments : List Assignment) (entries : Entries) : Option Entries :=
  match entries.lookup key with
  | none => (assign [] assignments).map fun inner => entries ++ [(key, .tables [inner])]
  | some (.tables sections) =>
    (assign [] assignments).map fun inner => replace entries key (.tables (sections ++ [inner]))
  | some _ => none

end Entries

def Item.toNode : Item → Node
  | .leaf value => value
  | .table _ _ entries => .table (entryNodes entries) true
  | .tables sections => .list (sectionNodes sections) true
where
  entryNodes : List (String × Item) → List (String × Node)
    | [] => []
    | (key, item) :: rest => (key, item.toNode) :: entryNodes rest
  sectionNodes : List (List (String × Item)) → List Node
    | [] => []
    | entries :: rest => .table (entryNodes entries) true :: sectionNodes rest

def Entries.toNode (entries : Entries) : Node := (Item.table false false entries).toNode

end PhasedWorkload.Toml
