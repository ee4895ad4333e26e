import PhasedWorkload.Participant.Basic
import PhasedWorkload.Stage.Bounds

/-! # Casts and productions

A cast knows how to make the actors of each type. A role is given one actor per thread, each with the
next number. A production is a plan with all its actors made: everything that can be wrong with a plan
comes up before any of them runs.
-/
namespace PhasedWorkload

structure Producer (α : Type) where
  type : String
  construct : Role → Nat → Stage → Stage × Except Fault α

structure Cast (α : Type) where
  producers : List (Producer α) := []

namespace Participant

/-- The slots of a role's scenes: each is configured by a factory and counts as a user of its limiter. -/
def slotsOf {τ : Type} (factory : Scene → Except Fault τ) :
    Stage → List Scene → Stage × Except Fault (List (Nat × Slot τ))
  | stage, [] => (stage, .ok [])
  | stage, s :: rest =>
    match factory s with
    | .error f => (stage, .error (f.relocate s.location))
    | .ok config =>
      let stage := s.limiter.elim stage stage.addUser
      match slotsOf factory stage rest with
      | (stage, .error f) => (stage, .error f)
      | (stage, .ok more) =>
        (stage, .ok ((s.number, ⟨config, s.rule, s.limiter, s.block.skipFirst⟩) :: more))

def make {τ : Type} (role : Role) (factory : Scene → Except Fault τ) (stage : Stage) :
    Stage × Except Fault (Participant τ) :=
  match slotsOf factory stage role.scenes with
  | (stage, .error f) => (stage, .error f)
  | (stage, .ok slots) =>
    match stage.addParticipant with
    | .error f => (stage, .error f)
    | .ok stage => (stage, .ok { actor := role.name, slots })

end Participant

namespace Producer

/-- Makes a number of actors for a role, up to the first that fails; numbers that were given out stay
given out. -/
def produce {α : Type} (p : Producer α) (role : Role) : Nat → Stage → Stage × Except Fault (List α)
  | 0, stage => (stage, .ok [])
  | count + 1, stage =>
    let (stage, id) := stage.nextActorId
    match p.construct role id stage with
    | (stage, .error f) => (stage, .error f)
    | (stage, .ok actor) =>
      match produce p role count stage with
      | (stage, .error f) => (stage, .error f)
      | (stage, .ok actors) => (stage, .ok (actor :: actors))

end Producer

namespace Cast

variable {α : Type}

def types (c : Cast α) : List String := c.producers.map Producer.type

def insert (p : Producer α) : List (Producer α) → List (Producer α)
  | [] => [p]
  | q :: rest => if p.type < q.type then p :: q :: rest else q :: insert p rest

def register (c : Cast α) (p : Producer α) : Except Fault (Cast α) :=
  if c.types.contains p.type then .error (.duplicateProducer p.type) else .ok ⟨insert p c.producers⟩

def get (c : Cast α) (type : String) : Except Fault (Producer α) :=
  match c.producers.find? fun p => p.type = type with
  | some p => .ok p
  | none => .error (.unknownActor type c.types)

/-- The cast of a list of producers, the first of a type counting. -/
def ofList (producers : List (Producer α)) : Cast α :=
  producers.foldl (fun c p => (c.register p).toOption.getD c) {}

def describe (c : Cast α) : String := "Cast \x7b producers: " ++ Text.quotedList c.types ++ " \x7d"

def produce (c : Cast α) (role : Role) (stage : Stage) : Stage × Except Fault (List α) :=
  match c.get role.type with
  | .error f => (stage, .error f)
  | .ok p => p.produce role role.threads stage

def produceAll (c : Cast α) : List Role → Stage → Stage × Except Fault (List (String × α))
  | [], stage => (stage, .ok [])
  | role :: rest, stage =>
    match c.produce role stage with
    | (stage, .error f) => (stage, .error f)
    | (stage, .ok actors) =>
      match produceAll c rest stage with
      | (stage, .error f) => (stage, .error f)
      | (stage, .ok more) => (stage, .ok (actors.map (role.name, ·) ++ more))

end Cast

structure Production (α : Type) where
  stage : Stage
  roles : List Role
  /-- The actors with the names of their entries, in order. -/
  actors : List (String × α)

def Production.make {α : Type} (plan : Plan) (cast : Cast α) (now : Nat) : Except Fault (Production α) := do
  let stage ← Stage.make plan now
  let (stage, roles) := Role.makeAll stage plan.entries
  let roles ← roles
  Stage.checkBounds roles
  let (stage, actors) := cast.produceAll roles stage
  return ⟨stage, roles, ← actors⟩

end PhasedWorkload
