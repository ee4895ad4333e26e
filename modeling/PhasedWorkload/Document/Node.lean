import PhasedWorkload.Document.Value

/-! # Trees of a data file as read

A node keeps the members of a table in the order of the file, repeated keys included. A text that stops
following its grammar has a tree up to the first fault: the lists and tables open there are not closed,
and what should have stood there is broken. A reader that walks the tree in order so meets a fault of
the grammar exactly where it stands.
-/
namespace PhasedWorkload

inductive Node where
  | null
  | bool (value : Bool)
  | int (value : Int)
  | float (value : Binary64)
  | text (value : String)
  | list (items : List Node) (closed : Bool)
  | table (members : List (String × Node)) (closed : Bool)
  | broken
deriving Repr, Inhabited

/-- A tree, and whether the text goes on after it against the grammar. -/
structure Document where
  root : Node
  trailing : Bool
deriving Repr

namespace Node

/-- The value of a tree without faults. A double that is no number has no written value. -/
def toValue? : Node → Option Value
  | .null => some .null
  | .bool b => some (.bool b)
  | .int n => some (.int n)
  | .float x => some (if x.isFinite then .float x else .null)
  | .text s => some (.text s)
  | .list items closed => if closed then (itemValues items).map .list else none
  | .table members closed =>
    if closed then (memberValues members).map fun ms => .object (Members.ofList ms) else none
  | .broken => none
where
  itemValues : List Node → Option (List Value)
    | [] => some []
    | n :: ns => do return (← toValue? n) :: (← itemValues ns)
  memberValues : List (String × Node) → Option (List (String × Value))
    | [] => some []
    | (k, n) :: ns => do return (k, ← toValue? n) :: (← memberValues ns)

def ofValue : Value → Node
  | .null => .null
  | .bool b => .bool b
  | .int n => .int n
  | .float x => .float x
  | .text s => .text s
  | .list items => .list (ofItems items) true
  | .object members => .table (ofMembers members) true
where
  ofItems : List Value → List Node
    | [] => []
    | v :: vs => ofValue v :: ofItems vs
  ofMembers : List (String × Value) → List (String × Node)
    | [] => []
    | (k, v) :: vs => (k, ofValue v) :: ofMembers vs

end Node

end PhasedWorkload
