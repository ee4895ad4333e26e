import PhasedWorkload.Document.Reader
import PhasedWorkload.Stage.Basic
import PhasedWorkload.StopRule

/-! # Roles and their scenes

A role is an entry of the plan with its blocks checked; a scene is one of its blocks under the number of
its phase. A block without a number has that of its place. The first block that is not acceptable
refuses the role: a number that came before, then a bad stop rule, then a limiter that is defined
otherwise. A key is looked up in the block, then in the entry, then at the top of the plan.
-/
namespace PhasedWorkload

structure Scene where
  number : Nat
  location : String
  block : Block
  rule : StopRule
  limiter : Option Nat
  /-- The extra keys of the entry and of the plan. -/
  entryExtra : Members
  planExtra : Members
deriving Repr, Inhabited

structure Role where
  entry : Entry
  /-- In the order of the phases. -/
  scenes : List Scene
  planExtra : Members
deriving Repr, Inhabited

namespace Scene

def get? (s : Scene) (key : String) : Option Value :=
  (s.block.extra.get? key).or ((s.entryExtra.get? key).or (s.planExtra.get? key))

def getAs {α : Type} (s : Scene) (read : Reader α) (key : String) : Except Fault (Option α) :=
  match s.get? key with
  | none => .ok none
  | some v => match read (.ofValue v) with
    | .ok a => .ok (some a)
    | .error f => .error (.configuration s.location (.invalidKey key f))

def require {α : Type} (s : Scene) (read : Reader α) (key : String) : Except Fault α :=
  match s.getAs read key with
  | .error f => .error f
  | .ok (some a) => .ok a
  | .ok none => .error (.configuration s.location (.missingKey key))

def locationOf (actor : String) (number : Nat) : String := actor ++ ".phase-" ++ toString number

/-- The limiter of a block: the one of its name, or one of its own. Nothing to do needs none. -/
def limiterFor (stage : Stage) (block : Block) (rule : StopRule) : Except Fault (Stage × Option Nat) :=
  if rule.isNothing then .ok (stage, none)
  else match block.rate, block.limiterName with
    | none, _ => .ok (stage, none)
    | some spec, some name => (stage.namedLimiter name spec).map fun (stage, id) => (stage, some id)
    | some spec, none => (stage.addLimiter spec).map fun (stage, id) => (stage, some id)

end Scene

namespace Role

def insert (scene : Scene) : List Scene → List Scene
  | [] => [scene]
  | s :: rest => if scene.number < s.number then scene :: s :: rest else s :: insert scene rest

def scene (stage : Stage) (entry : Entry) (before : List Scene) (index : Nat) (block : Block) :
    Except Fault (Stage × Scene) :=
  let number := block.phase.getD index
  let location := Scene.locationOf entry.name number
  if before.any fun s => s.number = number then .error (.configuration location (.duplicatePhase number))
  else match StopRule.ofBlock block with
    | .error f => .error (f.relocate location)
    | .ok rule => match Scene.limiterFor stage block rule with
      | .error f => .error (f.relocate location)
      | .ok (stage, limiter) =>
        .ok (stage, ⟨number, location, block, rule, limiter, entry.extra, stage.plan.extra⟩)

/-- Turns the blocks into scenes one after another. Limiters made before a block is refused stay. -/
def scenesOf (entry : Entry) : Stage → List Scene → Nat → List Block → Stage × Except Fault (List Scene)
  | stage, before, _, [] => (stage, .ok before)
  | stage, before, index, block :: rest =>
    match scene stage entry before index block with
    | .error f => (stage, .error f)
    | .ok (stage, s) => scenesOf entry stage (insert s before) (index + 1) rest

/-- Checks an entry. The run is made to reach its last phase. -/
def make (stage : Stage) (entry : Entry) : Stage × Except Fault Role :=
  match scenesOf entry stage [] 0 entry.blocks with
  | (stage, .error f) => (stage, .error f)
  | (stage, .ok ss) =>
    let stage := (ss.getLast?.map Scene.number).elim stage stage.reachPhase
    (stage, .ok ⟨entry, ss, stage.plan.extra⟩)

def name (r : Role) : String := r.entry.name

def type (r : Role) : String := r.entry.type

def threads (r : Role) : Nat := r.entry.threads.value

/-- A key of the entry, or else of the plan. -/
def get? (r : Role) (key : String) : Option Value := (r.entry.extra.get? key).or (r.planExtra.get? key)

def makeAll : Stage → List Entry → Stage × Except Fault (List Role)
  | stage, [] => (stage, .ok [])
  | stage, entry :: rest =>
    match make stage entry with
    | (stage, .error f) => (stage, .error f)
    | (stage, .ok role) =>
      match makeAll stage rest with
      | (stage, .error f) => (stage, .error f)
      | (stage, .ok roles) => (stage, .ok (role :: roles))

end Role

end PhasedWorkload
