import PhasedWorkload.Toml.Date
import PhasedWorkload.Toml.Table

/-! # Trees of TOML text

A text is a sequence of sections, each with a header and its assignments; the first one has no header.
The whole text has to follow the grammar before any of its data are looked at, so its tree has no
faults.
-/
namespace PhasedWorkload.Toml

open Text (Scan expect)

def member? (value? : Scan Node) : Scan Entries.Assignment := fun cs => do
  let ((path, key), rest) ← key? cs
  let (value, rest) ← value? (skipSpace (← expect '=' rest))
  return (⟨path, key, value⟩, skipSpace rest)

mutual

def value? : Nat → Nat → Scan Node
  | 0, _, _ => none
  | fuel + 1, depth, cs =>
    match cs with
    | [] => none
    | '"' :: _ => (text? cs).map fun (s, rest) => (.text s, rest)
    | '\'' :: _ => (text? cs).map fun (s, rest) => (.text s, rest)
    | '[' :: rest =>
      if depth = 0 then none
      else (items? fuel (depth - 1) true rest).map fun (items, rest) => (.list items true, rest)
    | '\x7b' :: rest =>
      if depth = 0 then none
      else do
        let (assignments, rest) ← members? fuel (depth - 1) true (skipSpace rest)
        let entries ← Entries.assign [] assignments
        return (entries.toNode, rest)
    | 't' :: 'r' :: 'u' :: 'e' :: rest => some (.bool true, rest)
    | 'f' :: 'a' :: 'l' :: 's' :: 'e' :: rest => some (.bool false, rest)
    | _ => (dateTime? cs).or (number? cs)

/-- The items of a list up to its end; a comma may follow the last one. -/
def items? : Nat → Nat → Bool → Scan (List Node)
  | 0, _, _, _ => none
  | fuel + 1, depth, first, cs =>
    match skipLines (cs.length + 1) cs with
    | ']' :: rest => some ([], rest)
    | ',' :: rest =>
      if first then none
      else match skipLines (rest.length + 1) rest with
        | ']' :: rest => some ([], rest)
        | rest => do
          let (item, rest) ← value? fuel depth rest
          let (items, rest) ← items? fuel depth false rest
          return (item :: items, rest)
    | rest =>
      if !first then none
      else do
        let (item, rest) ← value? fuel depth rest
        let (items, rest) ← items? fuel depth false rest
        return (item :: items, rest)

/-- The members of a table on one line up to its end; no comma follows the last one. -/
def members? : Nat → Nat → Bool → Scan (List Entries.Assignment)
  | 0, _, _, _ => none
  | fuel + 1, depth, first, cs =>
    match cs with
    | '\x7d' :: rest => some ([], rest)
    | ',' :: rest =>
      if first then none
      else do
        let (assignment, rest) ← member? (value? fuel depth) rest
        let (more, rest) ← members? fuel depth false rest
        return (assignment :: more, rest)
    | rest =>
      if !first then none
      else do
        let (assignment, rest) ← member? (value? fuel depth) rest
        let (more, rest) ← members? fuel depth false rest
        return (assignment :: more, rest)

end

inductive Line where
  | blank
  | assignment (a : Entries.Assignment)
  | tableHeader (path : List String) (key : String)
  | listHeader (path : List String) (key : String)

def line? : Scan Line := fun cs => do
  match skipSpace cs with
  | '[' :: '[' :: rest =>
    let ((path, key), rest) ← key? rest
    return (.listHeader path key, ← endLine? (← expect ']' (← expect ']' rest)))
  | '[' :: rest =>
    let ((path, key), rest) ← key? rest
    return (.tableHeader path key, ← endLine? (← expect ']' rest))
  | rest => match endLine? rest with
    | some rest => return (.blank, rest)
    | none =>
      let (assignment, rest) ← member? (value? (2 * cs.length + 2) (depthBound - 1)) rest
      return (.assignment assignment, ← endLine? rest)

def lines? : Nat → List Char → Option (List Line)
  | 0, _ => none
  | _, [] => some []
  | fuel + 1, cs => do
    let (line, rest) ← line? cs
    return line :: (← lines? fuel rest)

inductive Header where
  | top
  | table (path : List String) (key : String)
  | list (path : List String) (key : String)

/-- The section being read, its assignments in reverse, and the tables of the sections before it. -/
structure Sections where
  header : Header := .top
  assignments : List Entries.Assignment := []
  entries : Entries := []

namespace Sections

def finish (s : Sections) : Option Entries :=
  match s.header with
  | .top => Entries.assign s.entries s.assignments.reverse
  | .table path key => Entries.at? (Entries.define key s.assignments.reverse) path s.entries
  | .list path key => Entries.at? (Entries.extend key s.assignments.reverse) path s.entries

def next (s : Sections) (header : Header) : Option Sections :=
  s.finish.map fun entries => ⟨header, [], entries⟩

def step (s : Sections) : Line → Option Sections
  | .blank => some s
  | .assignment a => some { s with assignments := a :: s.assignments }
  | .tableHeader path key => s.next (.table path key)
  | .listHeader path key => s.next (.list path key)

end Sections

def dropMark : List Char → List Char
  | '\ufeff' :: rest => rest
  | cs => cs

def readChars? (cs : List Char) : Option Node := do
  let lines ← lines? (cs.length + 1) cs
  let sections ← lines.foldlM Sections.step {}
  return (← sections.finish).toNode

/-- The tree of a text; a text against the grammar is broken as a whole. -/
def read (s : String) : Document := ⟨(readChars? (dropMark s.toList)).getD .broken, false⟩

end PhasedWorkload.Toml
