import PhasedWorkload.Actor.Company
import PhasedWorkload.Run.Basic
import PhasedWorkload.Telemetry.Summary

/-! # Playing a run

A run is played in rounds: in each the conductor and every thread that can take a step takes one, and
the clock moves on. When nobody can, the clock jumps to the time at which somebody wakes. What an actor
does next is on its agenda, which it makes anew on every report.

A thread is slow to go on after a wait for others, slow to leave, and slowest to unwind after a panic. So
the one that came last to a phase, and did not wait, does its work there before the others are awake.
-/
namespace PhasedWorkload

open Telemetry

structure Playing where
  run : Run Task
  actors : List Actor
  agendas : List (List Move)
  /-- The rounds that each thread lets pass before it takes its next step. -/
  delays : List Nat

namespace Playing

def roundNanos : Nat := 10000

/-- Rounds from the end of a wait for others to the next step. -/
def wakingRounds : Nat := 500

def leavingRounds : Nat := 100

def unwindingRounds : Nat := 1000

def maxRounds : Nat := 1000000000000

def make (p : Production Actor) : Playing where
  run := {
    world := ⟨p.stage.barrier, p.stage.limiters, p.stage.now⟩
    threads := p.actors.map fun (name, a) => { name, id := a.id, performer := { participant := a.participant } } }
  actors := p.actors.map Prod.snd
  agendas := p.actors.map fun _ => Actor.opening
  delays := p.actors.map fun _ => 0

/-- A step of a thread, whose actor makes the next move on its agenda; an empty agenda is a decision to
leave. A jitter is added where it has to wait for a token. -/
def step (p : Playing) (i jitter : Nat) : Playing :=
  match p.run.threads[i]?, p.actors[i]?, p.agendas[i]? with
  | some t, some a, some agenda =>
    let (run, report) := p.run.step i t (agenda.headD (.leave .finished)) jitter
    let left := if t.isDeciding then agenda.tail else agenda
    let next := match report, run.threads[i]? with
      | some report, some t => a.react t.performer report
      | _, _ => left
    { p with run, agendas := p.agendas.set i next }
  | _, _, _ => p

def delay (t : Thread Task) : Nat :=
  match t.point, t.performer.activity with
  | .working, .advancing _ (some _) => wakingRounds
  | .recording _, _ | .reporting _, _ => leavingRounds
  | .unwinding, _ => unwindingRounds
  | _, _ => 0

/-- A round of a thread that can take a step: it lets the round pass or takes its step. -/
def visit (p : Playing) (i : Nat) : Playing :=
  match p.delays[i]? with
  | some (left + 1) => { p with delays := p.delays.set i left }
  | _ =>
    let p := p.step i 0
    { p with delays := p.delays.set i ((p.run.threads[i]?).elim 0 delay) }

def wakeTime? (p : Playing) : Option Nat :=
  ((p.run.threads.filter fun t => t.point == .working).filterMap fun t => t.performer.wakeTime?).min?

/-- The next rounds that everybody lets pass, up to the time at which somebody wakes. -/
def idleRounds (p : Playing) : Nat :=
  match p.run.conductor with
  | .spawning _ => 0
  | _ =>
    let delays := ((List.range p.run.threads.length).filter p.run.canStep).filterMap fun i => p.delays[i]?
    let idle := delays.min?.getD 0
    p.wakeTime?.elim idle fun wake => min idle ((wake - p.run.world.now) / roundNanos)

def skip (p : Playing) (rounds : Nat) : Playing :=
  { p with
    delays := p.delays.mapIdx fun i left => if p.run.canStep i then left - rounds else left
    run.world.now := p.run.world.now + rounds * roundNanos }

def round (p : Playing) : Playing :=
  let p := { p with run := p.run.conduct }
  let p := p.skip p.idleRounds
  let p := (List.range p.run.threads.length).foldl (fun p i => if p.run.canStep i then p.visit i else p) p
  { p with run.world.now := p.run.world.now + roundNanos }

/-- Whether a thread can take a step, or the conductor because the one it waits for has ended. -/
def isLively (p : Playing) : Bool :=
  (List.range p.run.threads.length).any p.run.canStep ||
    match p.run.conductor with
    | .spawning _ => true
    | .joining i => p.run.threads[i]?.all Thread.hasEnded
    | .done _ => false

def playWithin : Nat → Playing → Playing
  | 0, p => p
  | fuel + 1, p =>
    if p.isLively then playWithin fuel p.round
    else match p.run.conductor, p.wakeTime? with
      | .done _, _ | _, none => p
      | _, some wake => playWithin fuel { p with run.world.now := max (p.run.world.now + 1) wake }

def play (p : Playing) : Playing := playWithin maxRounds p

def result (p : Playing) : Except Fault RunReport := (p.run.result?).getD (.error .aborted)

def summary (p : Playing) : Summary := .ofEvents p.run.events

end Playing

end PhasedWorkload
