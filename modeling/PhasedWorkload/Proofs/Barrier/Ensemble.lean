import PhasedWorkload.Proofs.Barrier.Sections

/-! # Participants at the barrier

As many participants as the barrier requires go through the phases. Each repeats a cycle: it arrives at a
start, is inside a phase once the start is given, and reports the end of that phase, either waiting for the
others or not; if it has not waited, it may wait for the phase to be over before it arrives at the next
start. Each section of each call is a step of its own, a waiting caller may look again at any time, and the
run may be aborted at any time. What has happened is kept, the latest first.
-/
namespace PhasedWorkload

open Barrier

/-- Where a participant stands in its cycle. -/
inductive Stance where
  /-- between two phases -/
  | outside
  /-- inside a call of the start -/
  | starting
  /-- in a phase whose end it has not reported -/
  | inside (phase : ℕ)
  /-- inside a call of the end of a phase, waiting for the others -/
  | ending (phase : ℕ)
  /-- has reported the end of a phase without waiting -/
  | left (phase : ℕ)
  /-- inside a call that waits for a phase to be over -/
  | advancing (phase : ℕ)
deriving DecidableEq, Repr

inductive Happening where
  /-- was counted at the start of a phase -/
  | arrived (who phase : ℕ)
  /-- a call of the start gave a phase -/
  | given (who phase : ℕ)
  /-- called the end of the phase it was in -/
  | closed (who phase : ℕ)
  /-- a call of the end of a phase that waits came back with success -/
  | released (who phase : ℕ)
deriving DecidableEq, Repr

namespace Stance

/-- The calls that are in order, and the stance inside the call. -/
def enter? : Stance → Call → Option Stance
  | .outside, .start | .left _, .start => some .starting
  | .inside phase, .finish true => some (.ending phase)
  | .inside phase, .finish false => some (.left phase)
  | .left phase, .advance other => if phase = other then some (.advancing phase) else none
  | _, _ => none

def settle : Stance → Answer → Stance
  | .starting, .phase number => .inside number
  | .left phase, _ => .left phase
  | _, _ => .outside

def called (who : ℕ) : Stance → Call → List Happening
  | .inside phase, .finish _ => [.closed who phase]
  | _, _ => []

def answered (who : ℕ) : Stance → Option Answer → List Happening
  | .starting, some (.phase number) => [.given who number]
  | .ending phase, some (.went true) => [.released who phase]
  | _, _ => []

end Stance

/-- An arrival at the start shows in the counters of the start. -/
def Happening.counted (who : ℕ) (b c : Barrier) : List Happening :=
  if c.arrivedStart ≠ b.arrivedStart ∨ c.starts ≠ b.starts then [.arrived who b.ends] else []

def Happening.given? (who : ℕ) : Happening → Option ℕ
  | .given other phase => if other = who then some phase else none
  | _ => none

def Happening.who : Happening → ℕ
  | .arrived who _ | .given who _ | .closed who _ | .released who _ => who

def givenTo (who : ℕ) (past : List Happening) : List ℕ := past.reverse.filterMap (Happening.given? who)

structure Ensemble where
  crowd : Crowd
  stances : List Stance
  /-- What has happened, the latest first. -/
  past : List Happening := []
deriving DecidableEq, Repr

namespace Ensemble

inductive Action where
  | call (who : ℕ) (call : Call)
  /-- a waiting caller looks again -/
  | wake (who : ℕ)
  | abort
deriving DecidableEq, Repr

def opening (required maxPhase : ℕ) : Ensemble where
  crowd := { barrier := { required, maxPhase }, callers := List.replicate required none }
  stances := List.replicate required .outside

/-- Takes in a section of a participant that has the given stance inside its call. -/
def record (e : Ensemble) (who : ℕ) (stance : Stance) (called : List Happening)
    (result : Crowd × Option Answer) : Ensemble where
  crowd := result.1
  stances := e.stances.set who (result.2.elim stance stance.settle)
  past := stance.answered who result.2 ++ Happening.counted who e.crowd.barrier result.1.barrier ++
    called ++ e.past

/-- A step of the ensemble; a call that is out of order is not made. -/
def step (e : Ensemble) : Action → Ensemble
  | .call who call =>
    match e.stances[who]? with
    | none => e
    | some stance => match stance.enter? call with
      | none => e
      | some inCall => e.record who inCall (stance.called who call) (e.crowd.enter who call)
  | .wake who =>
    match e.stances[who]? with
    | none => e
    | some stance => if e.crowd.isBusy who then e.record who stance [] (e.crowd.wake who) else e
  | .abort => { e with crowd := e.crowd.abort }

def run (e : Ensemble) (actions : List Action) : Ensemble := actions.foldl step e

/-- The current phase as everybody can read it. -/
def currentPhase (e : Ensemble) : ℕ := e.crowd.barrier.publishedPhase

def isAborted (e : Ensemble) : Bool := e.crowd.barrier.publishedAbort

/-- A participant calls the end of the current phase after all others have. -/
def IsLastEnd (e : Ensemble) (a : Action) : Prop :=
  e.isAborted = false ∧ ∃ who waits, a = .call who (.finish waits) ∧
    e.stances[who]? = some (.inside e.currentPhase) ∧
    ∀ other < e.stances.length, other ≠ who → .closed other e.currentPhase ∈ e.past

end Ensemble

end PhasedWorkload
