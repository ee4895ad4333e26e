import PhasedWorkload.Telemetry.Collector
import PhasedWorkload.Telemetry.Operation

/-! # Units of work among threads

Any number of units of work are open on a bus at a time. The owner of a unit adds documents and bytes to it, ends it
as a success or a failure, or drops it. A unit that was ended is dropped as well, right after; what it reports when
it is dropped rests on a flag that its report has set. A unit borrows the handle that it was started from, and with it
a clone of the bus.
-/
namespace PhasedWorkload.Telemetry

def Ending.ofError : Option String → Ending
  | none => .success
  | some error => .failure error

structure OpenUnit where
  unit : WorkUnit
  hasReported : Bool := false
deriving DecidableEq, Repr

namespace OpenUnit

def begin (o : Operation) (now : Nat) : OpenUnit := { unit := o.start now }

def addDocuments (count : Nat) (u : OpenUnit) : OpenUnit := { u with unit := u.unit.addDocuments count }

def addBytes (count : Nat) (u : OpenUnit) : OpenUnit := { u with unit := u.unit.addBytes count }

def report (u : OpenUnit) (ending : Ending) (now : Nat) : OpenUnit × Event :=
  ({ u with hasReported := true }, u.unit.finish ending now)

/-- What a unit still reports when it is dropped. -/
def release (u : OpenUnit) (now : Nat) : List Event :=
  if u.hasReported then [] else [(u.report .dropped now).2]

end OpenUnit

/-- Whose a unit is: its owner's, that of the call which ended it, or nobody's any more. -/
inductive Hold where
  | held (unit : OpenUnit)
  | leaving (unit : OpenUnit)
  | gone
deriving DecidableEq, Repr

namespace Hold

def unit? : Hold → Option OpenUnit
  | .held u | .leaving u => some u
  | .gone => none

/-- Only the owner can add to a unit. -/
def change (f : OpenUnit → OpenUnit) : Hold → Hold
  | .held u => .held (f u)
  | h => h

end Hold

structure Workshop where
  broadcast : Broadcast
  units : List Hold := []
deriving Repr

namespace Workshop

inductive Act where
  | start (operation : Operation) (now : Nat)
  | addDocuments (unit count : Nat)
  | addBytes (unit count : Nat)
  /-- ends a unit, as a failure if there is an error -/
  | finish (unit : Nat) (error : Option String) (now : Nat)
  | drop (unit now : Nat)
  | bus (act : Broadcast.Act)
deriving DecidableEq, Repr

def opened (capacity : Nat) : Workshop := { broadcast := .opened capacity }

def isBorrowed (w : Workshop) : Bool := w.units.any fun h => h.unit?.isSome

def held? (w : Workshop) (i : Nat) : Option OpenUnit :=
  match w.units[i]? with
  | some (.held u) => some u
  | _ => none

def reports (w : Workshop) : Act → List (Nat × Event)
  | .finish i error now => (w.held? i).toList.map fun u => (i, (u.report (.ofError error) now).2)
  | .drop i now => (w.units[i]?.bind Hold.unit?).toList.flatMap fun u => (u.release now).map (i, ·)
  | _ => []

/-- What an act does on the bus. A clone that is borrowed stays. -/
def dealings (w : Workshop) : Act → List Broadcast.Act
  | .bus .letGo => if w.broadcast.clones ≤ 1 && w.isBorrowed then [] else [.letGo]
  | .bus act => [act]
  | act => (w.reports act).map fun report => .emit report.2

def unitsAfter (w : Workshop) : Act → List Hold
  | .start operation now =>
    if w.broadcast.isLive then w.units ++ [.held (.begin operation now)] else w.units
  | .addDocuments i count => w.units.modify i (.change (.addDocuments count))
  | .addBytes i count => w.units.modify i (.change (.addBytes count))
  | .finish i error now =>
    match w.held? i with
    | some u => w.units.set i (.leaving (u.report (.ofError error) now).1)
    | none => w.units
  | .drop i _ => w.units.set i .gone
  | .bus _ => w.units

def step (w : Workshop) (a : Act) : Workshop where
  broadcast := (w.dealings a).foldl Broadcast.step w.broadcast
  units := w.unitsAfter a

end Workshop

end PhasedWorkload.Telemetry
