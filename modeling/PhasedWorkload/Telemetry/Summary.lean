import PhasedWorkload.Telemetry.Event

/-! # Summaries of runs

A summary counts what the events of a run report: one row per actor and operation, the actors that
started and failed, and the reason of the first abort. Rows are kept in the order of their keys.

All counters, those of the rows included, are plain numbers that are taken to stay below `wordBound`.
-/
namespace PhasedWorkload.Telemetry

structure Row where
  completed : Nat := 0
  failed : Nat := 0
  measure : Measure := {}
deriving DecidableEq, Repr, Inhabited

namespace Row

def addCompleted (m : Measure) (r : Row) : Row :=
  { r with completed := r.completed + 1, measure := r.measure.add m }

def addFailed (m : Measure) (r : Row) : Row := { r with failed := r.failed + 1, measure := r.measure.add m }

end Row

structure Summary where
  rows : List (String × Row) := []
  actorsStarted : Nat := 0
  actorsFailed : Nat := 0
  /-- Events that were lost before they could be counted. -/
  lagged : Nat := 0
  aborted : Option String := none
deriving DecidableEq, Repr, Inhabited

namespace Summary

def key (actor operation : String) : String := actor ++ "." ++ operation

/-- Changes the row of a key, which starts empty. -/
def updateRow (key : String) (change : Row → Row) : List (String × Row) → List (String × Row)
  | [] => [(key, change {})]
  | (k, row) :: rest =>
    if key = k then (k, change row) :: rest
    else if key < k then (key, change {}) :: (k, row) :: rest
    else (k, row) :: updateRow key change rest

def record (s : Summary) : Event → Summary
  | .actorStarted .. => { s with actorsStarted := s.actorsStarted + 1 }
  | .actorFinished _ _ success => if success then s else { s with actorsFailed := s.actorsFailed + 1 }
  | .operationCompleted actor _ operation m =>
    { s with rows := updateRow (key actor operation) (Row.addCompleted m) s.rows }
  | .operationFailed actor _ operation m _ =>
    { s with rows := updateRow (key actor operation) (Row.addFailed m) s.rows }
  | .runAborted reason => { s with aborted := s.aborted.or (some reason) }
  | .error .. => s

def ofEvents (events : List Event) : Summary := events.foldl record {}

def row (s : Summary) (key : String) : Row := (s.rows.lookup key).getD {}

def totalCompleted (s : Summary) : Nat := s.rows.foldr (fun r n => r.2.completed + n) 0

def totalFailed (s : Summary) : Nat := s.rows.foldr (fun r n => r.2.failed + n) 0

end Summary

end PhasedWorkload.Telemetry
