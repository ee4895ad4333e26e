import PhasedWorkload.Telemetry.Event

/-! # Operations

An actor reports each unit of its work through a handle of the operation. A unit that was begun gives
exactly one event when it ends, whether it succeeds, fails or is dropped.
-/
namespace PhasedWorkload.Telemetry

structure Operation where
  actor : String
  actorId : Nat
  name : String
deriving DecidableEq, Repr

structure WorkUnit where
  operation : Operation
  started : Nat := 0
  documents : Nat := 0
  bytes : Nat := 0
deriving DecidableEq, Repr

inductive Ending where
  | success
  | failure (error : String)
  | dropped
deriving DecidableEq, Repr

namespace Operation

def start (o : Operation) (now : Nat) : WorkUnit := { operation := o, started := now }

end Operation

namespace WorkUnit

/-- As with `Measure.add`, what a unit counts is taken to stay below `wordBound`. -/
def addDocuments (u : WorkUnit) (count : Nat) : WorkUnit := { u with documents := u.documents + count }

/-- Taken to stay below `wordBound`, as in `addDocuments`. -/
def addBytes (u : WorkUnit) (count : Nat) : WorkUnit := { u with bytes := u.bytes + count }

def droppedText : String := "dropped without an outcome"

/-- The event of the unit when it ends. -/
def finish (u : WorkUnit) (ending : Ending) (now : Nat) : Event :=
  let o := u.operation
  let measure : Measure := ⟨u.documents, u.bytes, (now - u.started) / 1000⟩
  match ending with
  | .success => .operationCompleted o.actor o.actorId o.name measure
  | .failure error => .operationFailed o.actor o.actorId o.name measure error
  | .dropped => .operationFailed o.actor o.actorId o.name measure droppedText

end WorkUnit

structure Work where
  documents : List Nat := []
  bytes : List Nat := []
  ending : Ending
deriving DecidableEq, Repr

namespace Work

def counts : Option Value → List Nat
  | some (.list items) => items.map fun
    | .int n => n.toNat
    | _ => 0
  | _ => []

/-- What a value says about a unit of work: the counts to add and how it ends, well unless said
otherwise. -/
def ofValue (v : Value) : Work :=
  let field := fun (key : String) => match v with
    | .object members => Members.get? members key
    | _ => none
  let word := fun (key : String) => (((field key).bind Value.text?).getD "")
  let ending := match word "outcome" with
    | "failure" => Ending.failure (word "error")
    | "drop" => .dropped
    | _ => .success
  ⟨counts (field "documents"), counts (field "bytes"), ending⟩

end Work

def Operation.perform (o : Operation) (w : Work) (now : Nat) : Event :=
  let unit := w.documents.foldl WorkUnit.addDocuments (o.start now)
  (w.bytes.foldl WorkUnit.addBytes unit).finish w.ending now

end PhasedWorkload.Telemetry
