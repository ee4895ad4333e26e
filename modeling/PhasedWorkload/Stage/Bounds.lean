import PhasedWorkload.Stage.Role

/-! # Phases that end

Work until the end of a phase needs somebody else who ends the phase. Every phase in which a role with
threads has such work has to be bounded by a role with threads whose rule ends on its own.
-/
namespace PhasedWorkload.Stage

/-- Who leaves a phase open, and whether anybody bounds it. -/
structure PhaseUse where
  number : Nat
  unbounded : List String := []
  isBounded : Bool := false
deriving DecidableEq, Repr

namespace PhaseUse

def add (actor : String) (rule : StopRule) (u : PhaseUse) : PhaseUse :=
  match rule with
  | .untilPhaseEnd => { u with unbounded := u.unbounded ++ [actor] }
  | .iterations _ | .elapsed _ => { u with isBounded := true }
  | .nothing => u

def isOpen (u : PhaseUse) : Bool := !u.unbounded.isEmpty && !u.isBounded

end PhaseUse

/-- Takes in a scene under the number of its phase. -/
def addUse (actor : String) (number : Nat) (rule : StopRule) : List PhaseUse → List PhaseUse
  | [] => [PhaseUse.add actor rule { number }]
  | u :: rest =>
    if number = u.number then u.add actor rule :: rest
    else if number < u.number then PhaseUse.add actor rule { number } :: u :: rest
    else u :: addUse actor number rule rest

def phaseUses (roles : List Role) : List PhaseUse :=
  (roles.filter fun r => 0 < r.threads).foldl (fun uses r =>
    r.scenes.foldl (fun uses s => addUse r.name s.number s.rule uses) uses) []

def checkBounds (roles : List Role) : Except Fault Unit :=
  match (phaseUses roles).find? PhaseUse.isOpen with
  | none => .ok ()
  | some u =>
    .error (.configuration ("phase-" ++ toString u.number) (.unboundedPhase u.number u.unbounded))

end PhasedWorkload.Stage
