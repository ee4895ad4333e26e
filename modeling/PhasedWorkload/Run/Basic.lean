import PhasedWorkload.Actor.Basic
import PhasedWorkload.Barrier.Crowd

/-! # Runs

In a run every actor has a thread of its own, and a conductor spawns the threads in order, waits for
each of them in the same order and then says how the run went. The first failure that is recorded is the
one that is reported: an actor that fails records it itself, for one that panics the conductor does when
it comes to wait for it. Each step is a critical section or one effect; which thread takes the next one
is for the schedule to say.
-/
namespace PhasedWorkload

open Telemetry

inductive Thread.Point where
  | launching
  | working
  /-- about to record the failure of its actor -/
  | recording (reason : String)
  /-- about to abort the run for its actor -/
  | failing
  | reporting (success : Bool)
  /-- about to let go of the guard after a panic -/
  | unwinding
  /-- about to let go of the participant -/
  | releasing (panicked : Bool)
  | ended (panicked : Bool)
deriving DecidableEq, Repr

structure Thread (τ : Type) where
  name : String
  id : Nat
  performer : Performer τ
  point : Thread.Point := .launching
deriving Repr

namespace Thread

variable {τ : Type}

def title (t : Thread τ) : String := t.name ++ "-" ++ toString t.id

def hasEnded (t : Thread τ) : Bool :=
  match t.point with
  | .ended _ => true
  | _ => false

def isDeciding (t : Thread τ) : Bool :=
  match t.point, t.performer.activity with
  | .working, .resting => true
  | _, _ => false

/-- Whether it waits for others, or for the clock. -/
def isBlocked (t : Thread τ) (w : World) : Bool :=
  match t.point with
  | .working => t.performer.isBlocked w
  | _ => false

end Thread

structure RunReport where
  actors : Nat
  phases : Nat
deriving DecidableEq, Repr

inductive Conductor where
  | spawning (count : Nat)
  | joining (thread : Nat)
  | done (result : Except Fault RunReport)

structure Run (τ : Type) where
  world : World
  threads : List (Thread τ)
  conductor : Conductor := .spawning 0
  failure : Option Fault := none
  /-- All events, the latest first. -/
  emitted : List Event := []
  counters : SharedCounters := {}
  observations : List Observation := []

namespace Run

variable {τ : Type}

def events (r : Run τ) : List Event := r.emitted.reverse

def emit (r : Run τ) (e : Event) : Run τ := { r with emitted := e :: r.emitted }

def recordFailure (r : Run τ) (f : Fault) : Run τ := { r with failure := r.failure.or (some f) }

def setBarrier (r : Run τ) (b : Barrier) : Run τ := { r with world := { r.world with barrier := b } }

def setThread (r : Run τ) (i : Nat) (t : Thread τ) : Run τ := { r with threads := r.threads.set i t }

def apply (r : Run τ) : Effect → Run τ
  | .emit e => r.emit e
  | .count key amount => { r with counters := r.counters.add key amount }
  | .observe o => { r with observations := o :: r.observations }

def isSpawned (r : Run τ) (i : Nat) : Bool :=
  match r.conductor with
  | .spawning count => i < count
  | _ => true

/-- Whether a thread can take a step: it is spawned, has not ended and does not wait. -/
def canStep (r : Run τ) (i : Nat) : Bool :=
  match r.threads[i]? with
  | some t => r.isSpawned i && !t.hasEnded && !t.isBlocked r.world
  | none => false

/-- Where a thread goes when its actor leaves. A guard that is completed does nothing when it is let go
of. -/
def departurePoint : Departure → Thread.Point
  | .finished => .reporting true
  | .stopped => .reporting false
  | .failed reason => .recording reason
  | .panicked => .unwinding

/-- A move of a thread whose actor is at rest; gives what the actor learns at once. -/
def move (r : Run τ) (i : Nat) (t : Thread τ) : Move → Run τ × Option Report
  | .askPhase =>
    let (performer, report) := t.performer.askPhase
    (r.setThread i { t with performer }, report)
  | .openTurn => (r.setThread i { t with performer := t.performer.openTurn r.world.now }, none)
  | .askIteration =>
    let (performer, report) := t.performer.askIteration
    (r.setThread i { t with performer }, report)
  | .act effect => (r.apply effect, none)
  | .leave departure => (r.setThread i { t with point := departurePoint departure }, none)

/-- A step of a thread, with the move of its actor if that is at rest; gives what the actor learns. -/
def step (r : Run τ) (i : Nat) (t : Thread τ) (m : Move) (jitter : Nat) : Run τ × Option Report :=
  let guard : Guard := { actor := t.title }
  match t.point with
  | .launching => ((r.emit (.actorStarted t.name t.id)).setThread i { t with point := .working }, none)
  | .working =>
    if t.isDeciding then r.move i t m
    else
      let (world, performer, report) := t.performer.step r.world jitter
      ({ r with world }.setThread i { t with performer }, report)
  | .recording reason =>
    ((r.recordFailure (.actorFailed t.name reason)).setThread i { t with point := .failing }, none)
  | .failing =>
    ((r.setBarrier (guard.fail r.world.barrier).2).setThread i { t with point := .reporting false }, none)
  | .reporting success =>
    ((r.emit (.actorFinished t.name t.id success)).setThread i { t with point := .releasing false }, none)
  | .unwinding =>
    ((r.setBarrier (guard.release r.world.barrier)).setThread i { t with point := .releasing true }, none)
  | .releasing panicked =>
    ((r.setBarrier (t.performer.participant.release r.world.barrier)).setThread i
      { t with point := .ended panicked }, none)
  | .ended _ => (r, none)

/-- Says how the run went, which is known once all threads have ended. -/
def conclude (r : Run τ) : Run τ :=
  match r.failure with
  | some f => { r.emit (.runAborted f.message) with conductor := .done (.error f) }
  | none =>
    if r.world.barrier.publishedAbort then
      { r.emit (.runAborted "aborted") with conductor := .done (.error .aborted) }
    else { r with conductor := .done (.ok ⟨r.threads.length, r.world.barrier.publishedPhase⟩) }

def conduct (r : Run τ) : Run τ :=
  match r.conductor with
  | .spawning count =>
    { r with conductor := if count < r.threads.length then .spawning (count + 1) else .joining 0 }
  | .joining i => match r.threads[i]? with
    | none => r.conclude
    | some t => match t.point with
      | .ended true => { r.recordFailure (.actorPanicked t.title) with conductor := .joining (i + 1) }
      | .ended false => { r with conductor := .joining (i + 1) }
      | _ => r
  | .done _ => r

def result? (r : Run τ) : Option (Except Fault RunReport) :=
  match r.conductor with
  | .done result => some result
  | _ => none

end Run

end PhasedWorkload
