import PhasedWorkload.Document.Value
import PhasedWorkload.Quantity.Rate

/-! # Plans

A plan lists actors, each with a number of threads and a sequence of phase blocks. The keys that the
engine understands are fields; all others are kept as extra values for the actors.
-/
namespace PhasedWorkload

structure Block where
  phase : Option Nat := none
  repeats : Option Count := none
  duration : Option TimeSpan := none
  rate : Option Rate := none
  limiterName : Option String := none
  skipFirst : Bool := false
  nop : Option Bool := none
  operation : Option Value := none
  extra : Members := []
deriving Repr, Inhabited

structure Entry where
  givenName : Option String
  type : String
  threads : Count
  blocks : List Block
  extra : Members
deriving Repr, Inhabited

structure Plan where
  schema : String
  entries : List Entry
  extra : Members
deriving Repr, Inhabited

namespace Block

def nopNames : List String := ["Nop", "nop", "NoOp", "noop"]

/-- The name of the operation: a text, or the text under its name key. -/
def operationName? (b : Block) : Option String :=
  match b.operation with
  | some (.text name) => some name
  | some (.object members) => (Members.get? members "OperationName").bind Value.text?
  | _ => none

/-- Flagged as doing nothing, by the flag or by the name of its operation. -/
def isNop (b : Block) : Bool :=
  b.nop = some true || b.operationName?.any nopNames.contains

end Block

def Entry.name (e : Entry) : String := e.givenName.getD e.type

namespace Plan

/-- The only schema version that is understood. -/
def currentSchema : String := "2018-07-01"

inductive Fault where
  | schema (found : String)
deriving DecidableEq, Repr

def Fault.reason : Fault → String
  | .schema found => "Invalid schema version '" ++ found ++ "', expected '" ++ currentSchema ++ "'"

def checkSchema (p : Plan) : Except Fault Unit :=
  if p.schema = currentSchema then .ok () else .error (.schema p.schema)

end Plan

end PhasedWorkload
