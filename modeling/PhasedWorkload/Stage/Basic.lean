import PhasedWorkload.Barrier.Basic
import PhasedWorkload.Limiter.Basic

/-! # The stage of a run

What all actors of a run share while they are being constructed: the plan, the barrier, the limiters and
the numbers of the actors. A limiter is known by its number; a name stands for the limiter of its first
request, and every later request has to ask for the same rate.
-/
namespace PhasedWorkload

structure Stage where
  plan : Plan
  barrier : Barrier := {}
  limiters : List Limiter := []
  /-- The named limiters, by number. -/
  registry : List (String × Nat) := []
  nextActor : Nat := 0
  /-- The reading of the clock at which limiters are made. -/
  now : Nat := 0
deriving Repr, Inhabited

namespace Stage

/-- Only a plan of the current schema gets a stage. -/
def make (plan : Plan) (now : Nat) : Except Fault Stage :=
  match plan.checkSchema with
  | .ok () => .ok { plan, now }
  | .error f => .error (.input (.ofPlan f))

def clock : ClockKind := ⟨true, 1⟩

def get? (s : Stage) (key : String) : Option Value := s.plan.extra.get? key

/-- Makes a limiter that nobody else can ask for. -/
def addLimiter (s : Stage) (spec : Rate) : Except Fault (Stage × Nat) :=
  (Limiter.make clock spec s.now).map fun l => ({ s with limiters := s.limiters ++ [l] }, s.limiters.length)

/-- The limiter of a name, made by the first request. -/
def namedLimiter (s : Stage) (name : String) (spec : Rate) : Except Fault (Stage × Nat) :=
  match s.registry.lookup name with
  | some id =>
    let defined := (s.limiters[id]?.map Limiter.spec).getD spec
    if defined = spec then .ok (s, id)
    else .error (.configuration name (.limiterRedefined name defined spec))
  | none =>
    match (s.addLimiter spec).mapError (Fault.relocate name) with
    | .error f => .error f
    | .ok (s, id) => .ok ({ s with registry := (name, id) :: s.registry }, id)

def addUser (s : Stage) (id : Nat) : Stage := { s with limiters := s.limiters.modify id Limiter.addUser }

def addParticipant (s : Stage) : Except Fault Stage :=
  (s.barrier.addRequired 1).map fun barrier => { s with barrier }

def nextActorId (s : Stage) : Stage × Nat := ({ s with nextActor := s.nextActor + 1 }, s.nextActor)

def reachPhase (s : Stage) (phase : Nat) : Stage := { s with barrier := s.barrier.reachPhase phase }

end Stage

end PhasedWorkload
