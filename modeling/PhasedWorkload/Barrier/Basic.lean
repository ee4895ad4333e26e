import PhasedWorkload.Fault

/-! # The phase barrier

All participants of a run share one barrier. A phase is bracketed by two meeting points: it starts when
every participant has arrived at its start and ends when every one has arrived at its end. Both are
counted by generations, so that a caller that waits for one phase is never released by another.

A call is a sequence of critical sections: the one that enters it, and one more each time it wakes from
a wait. What happens between two sections is for the callers and their schedule to say.

Participants, arrivals and generations are counted by plain numbers, which are taken to stay below
`wordBound`.
-/
namespace PhasedWorkload

structure Barrier where
  required : Nat := 0
  arrivedStart : Nat := 0
  arrivedEnd : Nat := 0
  starts : Nat := 0
  /-- How often the end has been released; the number of the current phase. -/
  ends : Nat := 0
  maxPhase : Nat := 0
  errored : Bool := false
  started : Bool := false
  /-- The number of the current phase as read without the lock. -/
  publishedPhase : Nat := 0
  /-- The abort flag as read without the lock. -/
  publishedAbort : Bool := false
deriving DecidableEq, Repr, Inhabited

namespace Barrier

def isRunning (b : Barrier) : Bool := b.ends < b.starts

def hasMorePhases (b : Barrier) : Bool := b.ends ≤ b.maxPhase && !b.errored

/-- What a caller waits for: the phase before to end, the start or the end of a generation, the phase to
be past another one, or a time to pass. -/
inductive Wait where
  | drained
  | started (generation : Nat)
  | ended (generation : Nat)
  | advanced (phase : Nat)
  | slept
deriving DecidableEq, Repr

def holds (b : Barrier) : Wait → Bool
  | .drained => b.isRunning && !b.errored
  | .started generation => b.starts = generation && !b.errored
  | .ended generation => b.ends = generation && !b.errored
  | .advanced phase => b.ends ≤ phase && !b.errored
  | .slept => !b.errored

inductive Call where
  | start
  | finish (waits : Bool)
  | advance (phase : Nat)
  | sleep (span : TimeSpan)
deriving DecidableEq, Repr

inductive Answer where
  | phase (number : Nat)
  | aborted
  | went (well : Bool)
deriving DecidableEq, Repr

inductive Outcome where
  | answered (answer : Answer)
  | waiting (wait : Wait)
deriving DecidableEq, Repr

/-- What a critical section leaves behind: the state, how the call goes on, and whether it wakes all who
wait. -/
structure Visit where
  barrier : Barrier
  outcome : Outcome
  notifies : Bool := false
deriving DecidableEq, Repr

def arriveAtStart (b : Barrier) : Visit :=
  if b.required ≤ b.arrivedStart + 1 then
    { barrier := { b with arrivedStart := 0, starts := b.starts + 1 }
      outcome := .answered (.phase b.ends), notifies := true }
  else
    { barrier := { b with arrivedStart := b.arrivedStart + 1 }, outcome := .waiting (.started b.starts) }

def arriveAtEnd (b : Barrier) (waits : Bool) : Visit :=
  if b.required ≤ b.arrivedEnd + 1 then
    { barrier := { b with arrivedEnd := 0, ends := b.ends + 1, publishedPhase := b.ends + 1 }
      outcome := .answered (.went true), notifies := true }
  else
    { barrier := { b with arrivedEnd := b.arrivedEnd + 1 }
      outcome := if waits then .waiting (.ended b.ends) else .answered (.went true) }

def settle (b : Barrier) : Visit := ⟨b, .answered (.went !b.errored), false⟩

def waitOr (b : Barrier) (w : Wait) (go : Barrier → Visit) : Visit :=
  if b.holds w then ⟨b, .waiting w, false⟩ else go b

/-- The section after a caller that arrives early has seen the phase before end. -/
def startAfterDrain (b : Barrier) : Visit :=
  if b.errored then ⟨b, .answered .aborted, false⟩ else b.arriveAtStart

/-- The first section of a call. A running phase can only be ended, and an end without one is ignored. -/
def enter (b : Barrier) : Call → Visit
  | .start => { b with started := true }.waitOr .drained startAfterDrain
  | .finish waits =>
    if b.errored then b.settle else if b.isRunning then b.arriveAtEnd waits else b.settle
  | .advance phase => b.waitOr (.advanced phase) settle
  | .sleep span => if span.nanos = 0 then b.settle else b.waitOr .slept settle

def leave (b : Barrier) : Wait → Visit
  | .drained => b.startAfterDrain
  | .started _ => if b.errored then ⟨b, .answered .aborted, false⟩ else ⟨b, .answered (.phase b.ends), false⟩
  | .ended _ | .advanced _ | .slept => b.settle

def wake (b : Barrier) (w : Wait) : Visit := b.waitOr w fun b => b.leave w

def location : String := "orchestrator"

/-- Registers more participants; too late once a phase has been asked for. The sum is taken to stay
below `wordBound`. -/
def addRequired (b : Barrier) (count : Nat) : Except Fault Barrier :=
  if b.started then .error (.configuration location .lateParticipant)
  else .ok { b with required := b.required + count }

def reachPhase (b : Barrier) (phase : Nat) : Barrier := { b with maxPhase := max b.maxPhase phase }

def abort (b : Barrier) : Barrier := { b with errored := true, publishedAbort := true }

end Barrier

end PhasedWorkload
