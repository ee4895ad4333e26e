import PhasedWorkload.Binary64.Shortest
import PhasedWorkload.Quantity.Word

/-! # Values

What a plan says under keys that the engine does not interpret: scalars, lists, and objects with one
value per key, in the order of the keys.
-/
namespace PhasedWorkload

inductive Value where
  | null
  | bool (value : Bool)
  | int (value : Int)
  | float (value : Binary64)
  | text (value : String)
  | list (items : List Value)
  | object (members : List (String × Value))
deriving Repr, Inhabited

abbrev Members := List (String × Value)

namespace Members

def get? (members : Members) (key : String) : Option Value := members.lookup key

/-- Inserts at the place of the key in the order; an earlier value of the key is lost. -/
def put (key : String) (value : Value) : Members → Members
  | [] => [(key, value)]
  | (k, v) :: rest =>
    if key = k then (key, value) :: rest
    else if key < k then (key, value) :: (k, v) :: rest
    else (k, v) :: put key value rest

def ofList (members : List (String × Value)) : Members :=
  members.foldl (fun sorted member => put member.1 member.2 sorted) []

def keys (members : Members) : List String := members.map Prod.fst

end Members

namespace Value

/-- Whether two values are the same; doubles are compared bit by bit. -/
def same : Value → Value → Bool
  | .null, .null => true
  | .bool a, .bool b => a == b
  | .int a, .int b => a == b
  | .float a, .float b => a == b
  | .text a, .text b => a == b
  | .list as, .list bs => sameItems as bs
  | .object as, .object bs => sameMembers as bs
  | _, _ => false
where
  sameItems : List Value → List Value → Bool
    | [], [] => true
    | a :: as, b :: bs => same a b && sameItems as bs
    | _, _ => false
  sameMembers : List (String × Value) → List (String × Value) → Bool
    | [], [] => true
    | (k, a) :: as, (l, b) :: bs => k == l && same a b && sameMembers as bs
    | _, _ => false

def text? : Value → Option String
  | .text s => some s
  | _ => none

end Value

end PhasedWorkload
