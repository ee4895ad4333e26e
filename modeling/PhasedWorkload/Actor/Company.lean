import PhasedWorkload.Actor.Basic
import PhasedWorkload.Stage.Cast

/-! # The company

The actors that a plan can name: one that greets, one that notes what it sees, one that goes wrong, one
that adds up, and one that reports work. Each reads its tasks from the keys of its scenes.
-/
namespace PhasedWorkload

open Telemetry

namespace Company

/-- The producer of a type with a task for every scene, given the pause that replaces a skipped
iteration. -/
def producer (type : String) (task : Scene → Except Fault Task) (pause : TimeSpan)
    (observes : Bool) : Producer Actor where
  type
  construct role id stage :=
    let (stage, participant) := Participant.make role task stage
    (stage, participant.map fun p => ⟨role.name, id, { p with pause }, observes⟩)

def defaultMessage : String := "Hello, World!"

def greetTask (s : Scene) : Except Fault Task :=
  (s.getAs Reader.text "Message").map fun m => .greet (m.getD defaultMessage)

def greeter : Producer Actor := producer "HelloWorld" greetTask (.ofSeconds 1) false

def recorder : Producer Actor := producer "Recorder" (fun _ => .ok .idle) (.ofSeconds 0) true

def trouble? : String → Option Trouble
  | "Error" => some .error
  | "Chain" => some .chain
  | "Panic" => some .panic
  | "Quit" => some .quit
  | _ => none

def misbehaveTask (s : Scene) : Except Fault Task :=
  (s.getAs Reader.text "Mode").map fun mode => .misbehave (mode.bind trouble?)

def failing : Producer Actor := producer "Fails" misbehaveTask (.ofSeconds 0) false

def addUpTask (s : Scene) : Except Fault Task := (s.require Reader.signed "Step").map .addUp

/-- Adds its step to a total that all of its type share. -/
def summer : Producer Actor := producer "Summer" addUpTask (.ofSeconds 0) false

def reportTask (s : Scene) : Except Fault Task := do
  let operation ← s.getAs Reader.text "OperationName"
  let work ← s.getAs Reader.value "Work"
  return .report (operation.getD "Work") (.ofValue (work.getD .null))

def reporter : Producer Actor := producer "Reporter" reportTask (.ofSeconds 0) false

def standard : Cast Actor := .ofList [greeter]

def full : Cast Actor := .ofList [greeter, recorder, failing, summer, reporter]

end Company

end PhasedWorkload
