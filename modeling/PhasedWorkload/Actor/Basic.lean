import PhasedWorkload.Performer
import PhasedWorkload.Stage.Shared
import PhasedWorkload.Telemetry.Operation

/-! # Actors

An actor takes part in a run with one participant. What it does in a phase is its task there, which is
done once per iteration. Every report that it gets when it comes to rest makes it decide on its next
moves.
-/
namespace PhasedWorkload

open Telemetry

structure Observation where
  actor : Nat
  phase : Nat
  isConfigured : Bool
  isNothing : Bool
  /-- The number of iterations where the plan fixes it. -/
  iterations : Option Nat
deriving DecidableEq, Repr

inductive Effect where
  | emit (event : Event)
  | count (key : CounterKey) (amount : Int)
  | observe (observation : Observation)
deriving DecidableEq, Repr

inductive Departure where
  | finished
  /-- passing on that the run was aborted -/
  | stopped
  | failed (reason : String)
  | panicked
deriving DecidableEq, Repr

inductive Move where
  | askPhase
  | openTurn
  | askIteration
  | act (effect : Effect)
  | leave (departure : Departure)
deriving DecidableEq, Repr

inductive Trouble where
  | error
  /-- an error with causes -/
  | chain
  | panic
  /-- leaves in the middle as if all were done -/
  | quit
deriving DecidableEq, Repr

inductive Task where
  | greet (message : String)
  | idle
  | misbehave (trouble : Option Trouble)
  | addUp (step : Int)
  | report (operation : String) (work : Work)
deriving DecidableEq, Repr

structure Actor where
  name : String
  id : Nat
  participant : Participant Task
  observes : Bool := false
deriving Repr

namespace Actor

def describe (a : Actor) : String :=
  "ProducedActor \x7b name: " ++ Text.quoted a.name ++ ", id: " ++ toString a.id ++ " \x7d"

def greetings : CounterKey := ⟨"HelloWorld", "greetings"⟩

def total : CounterKey := ⟨"Summer", "total"⟩

def greetingOperation : String := "Write"

def troubled (phase : Nat) : Trouble → Departure
  | .error => .failed ("Intentional failure in phase " ++ toString phase)
  | .chain => .failed ("outer: middle: inner " ++ toString phase)
  | .panic => .panicked
  | .quit => .finished

/-- The moves of one iteration; unless the actor leaves, it then asks for another. -/
def perform (a : Actor) (phase : Nat) : Task → List Move
  | .greet message =>
    let greeting : Work := ⟨[1], [message.utf8ByteSize], .success⟩
    [.act (.count greetings 1), .act (.emit ((Operation.mk a.name a.id greetingOperation).perform greeting 0)),
      .askIteration]
  | .idle | .misbehave none => [.askIteration]
  | .misbehave (some trouble) => [.leave (troubled phase trouble)]
  | .addUp step => [.act (.count total step), .askIteration]
  | .report operation work => [.act (.emit ((Operation.mk a.name a.id operation).perform work 0)), .askIteration]

def observation (a : Actor) (p : Participant Task) (t : Turn) : Observation :=
  let rule := t.rule p
  ⟨a.id, t.phase, (p.slot? t.phase).isSome, rule.isNothing,
    match rule with
    | .iterations _ | .nothing => some t.count
    | .elapsed _ | .untilPhaseEnd => none⟩

def conclude (a : Actor) (p : Performer Task) : List Move :=
  match a.observes, p.turn with
  | true, some t => [.act (.observe (a.observation p.participant t)), .askPhase]
  | _, _ => [.askPhase]

def opening : List Move := [.askPhase]

/-- What an actor decides on a report. -/
def react (a : Actor) (p : Performer Task) : Report → List Move
  | .phase (.phase _) => [.openTurn, .askIteration]
  | .phase Participant.Reply.over => [.leave .finished]
  | .phase .aborted => [.leave .stopped]
  | .iteration .exhausted => a.conclude p
  | .iteration .item =>
    match p.turn.bind fun t => (p.participant.slot? t.phase).map fun slot => (t.phase, slot.config) with
    | some (phase, task) => a.perform phase task
    | none => a.conclude p

end Actor

end PhasedWorkload
