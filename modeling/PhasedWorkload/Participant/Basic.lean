import PhasedWorkload.Barrier.Basic
import PhasedWorkload.StopRule

/-! # Participants

A participant takes part in every phase of a run and holds one token of the barrier. Asking for the next
phase first settles what the phase before still owes the barrier, then finds out whether there are more
phases, then arrives at the start. Work that never holds up its phase has to arrive at the end before it
begins. Each of these is a critical section of its own, and other participants may act in between.
-/
namespace PhasedWorkload

structure Slot (τ : Type) where
  config : τ
  rule : StopRule
  limiter : Option Nat := none
  /-- Whether the first iteration is still to be replaced by a pause. -/
  skipFirst : Bool := false
deriving Repr

/-- What the phase before still owes the barrier. -/
inductive Pending where
  /-- to arrive at its end and wait for all -/
  | finish
  /-- to wait until it is over; the arrival is made -/
  | advance (phase : Nat)
deriving DecidableEq, Repr

def Pending.describe : Pending → String
  | .finish => "Blocking"
  | .advance phase => "Advance(" ++ toString phase ++ ")"

structure Participant (τ : Type) where
  actor : String
  /-- The phases it is configured for, in order. -/
  slots : List (Nat × Slot τ)
  pending : Option Pending := none
  pause : TimeSpan := .ofSeconds 1
  started : Bool := false
  finished : Bool := false
deriving Repr

namespace Participant

variable {τ : Type}

inductive Reply where
  | phase (number : Nat)
  | «over»
  | aborted
deriving DecidableEq, Repr

inductive Point where
  | settling (pending : Pending)
  | deciding
  | confirming
  | arriving
  | departing (phase : Nat)
deriving DecidableEq, Repr

inductive Progress where
  | at (point : Point)
  | replied (reply : Reply)
deriving DecidableEq, Repr

def slot? (p : Participant τ) (phase : Nat) : Option (Slot τ) := p.slots.lookup phase

/-- Work that a phase waits for; a phase without configuration has none but is waited for all the same. -/
def blocks (p : Participant τ) (phase : Nat) : Bool := (p.slot? phase).all fun s => s.rule.blocksPhase

def finish (p : Participant τ) (reply : Reply) : Participant τ × Progress :=
  ({ p with finished := true }, .replied reply)

def begin (p : Participant τ) : Participant τ × Progress :=
  if p.finished then (p, .replied Reply.over)
  else
    let next := { p with started := true, pending := none }
    match p.pending with
    | some pending => (next, .at (.settling pending))
    | none => (next, .at .deciding)

def Point.enter (b : Barrier) : Point → Barrier.Visit
  | .settling .finish => b.enter (.finish true)
  | .settling (.advance phase) => b.enter (.advance phase)
  | .deciding => ⟨b, .answered (.went b.hasMorePhases), false⟩
  | .confirming => ⟨b, .answered (.went b.publishedAbort), false⟩
  | .arriving => b.enter .start
  | .departing _ => b.enter (.finish false)

def proceed (p : Participant τ) : Point → Barrier.Answer → Participant τ × Progress
  | .settling _, .went true => (p, .at .deciding)
  | .deciding, .went more => (p, .at (if more then .arriving else .confirming))
  | .confirming, .went isAborted => p.finish (if isAborted then .aborted else Reply.over)
  | .arriving, .phase number =>
    if p.blocks number then ({ p with pending := some .finish }, .replied (.phase number))
    else (p, .at (.departing number))
  | .departing number, .went true => ({ p with pending := some (.advance number) }, .replied (.phase number))
  | _, _ => p.finish .aborted

/-- A participant that goes away in the middle of a run aborts it, since nobody could take its place. -/
def release (p : Participant τ) (b : Barrier) : Barrier :=
  if p.started && !p.finished && !b.publishedAbort then b.abort else b

def updateSlot (p : Participant τ) (phase : Nat) (change : Slot τ → Slot τ) : Participant τ :=
  { p with slots := p.slots.map fun s => if s.1 = phase then (s.1, change s.2) else s }

def describe (p : Participant τ) : String :=
  "PhaseLoop \x7b actor: " ++ Text.quoted p.actor ++
    ", phases: [" ++ ", ".intercalate (p.slots.map fun s => toString s.1) ++
    "], pending: " ++ (p.pending.elim "None" fun q => "Some(" ++ q.describe ++ ")") ++
    ", finished: " ++ (if p.finished then "true" else "false") ++ " \x7d"

end Participant

end PhasedWorkload
