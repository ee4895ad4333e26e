import PhasedWorkload.Limiter.Basic
import PhasedWorkload.Participant.Basic

/-! # Turns

A turn is one phase as one participant sees it. Its iterations are handed out one at a time: each time
the abort flag is read, the stop rule is checked, and then the first iteration may be replaced by a
pause or a token has to be taken from the limiter. A pause is never longer than what is left of the
phase's time. Iterators of the same turn continue one count and one budget of time.
-/
namespace PhasedWorkload

structure Tracker where
  rule : StopRule
  phase : Nat
  count : Nat := 0
  /-- When the first iterator was made, in nanoseconds. -/
  began : Option Nat := none
  checks : Nat := 0
  isOver : Bool := false
deriving DecidableEq, Repr

namespace Tracker

/-- Work without an end of its own looks at the current phase at every check with a number divisible by
this. -/
def checkInterval : Nat := 8

def begin (t : Tracker) (now : Nat) : Tracker := { t with began := t.began.or (some now) }

def countIteration (t : Tracker) : Tracker := { t with count := t.count + 1 }

def remaining? (t : Tracker) (now : Nat) : Option Nat :=
  match t.rule with
  | .elapsed limit => some (limit.nanos - (now - t.began.getD now))
  | _ => none

def check (t : Tracker) (currentPhase now : Nat) : Tracker × Bool :=
  match t.rule with
  | .iterations limit => (t, limit ≤ t.count)
  | .elapsed _ => (t, t.remaining? now = some 0)
  | .untilPhaseEnd =>
    let isOver :=
      if !t.isOver && t.checks % checkInterval = 0 then currentPhase ≠ t.phase else t.isOver
    ({ t with isOver, checks := t.checks + 1 }, isOver)
  | .nothing => (t, true)

end Tracker

structure Turn where
  phase : Nat
  tracker : Option Tracker := none
deriving DecidableEq, Repr

namespace Turn

variable {τ : Type}

/-- The rule of a participant in a phase; without configuration there is nothing to do. -/
def rule (p : Participant τ) (t : Turn) : StopRule := (p.slot? t.phase).elim .nothing Slot.rule

/-- The iterations so far, a skipped one included. -/
def count (t : Turn) : Nat := t.tracker.elim 0 Tracker.count

def iterator (p : Participant τ) (t : Turn) (now : Nat) : Turn :=
  let tracker := t.tracker.getD { rule := t.rule p, phase := t.phase }
  { t with tracker := some (tracker.begin now) }

inductive Point where
  | watching
  | checking
  | choosing
  | pausing (span : Nat)
  /-- asleep until a time or an abort -/
  | asleep (wake : Nat)
deriving DecidableEq, Repr

inductive Reply where
  | item
  | exhausted
deriving DecidableEq, Repr

def describe (p : Participant τ) (t : Turn) : String :=
  "ActorPhase \x7b number: " ++ toString t.phase ++ ", check: " ++ (t.rule p).describe ++
    ", iterations: " ++ toString t.count ++ " \x7d"

end Turn

end PhasedWorkload
