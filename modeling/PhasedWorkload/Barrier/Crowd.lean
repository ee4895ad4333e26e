import PhasedWorkload.Barrier.Basic

/-! # Callers at the barrier

Any number of callers use one barrier in any order. A caller that waits sleeps until it is notified and
then looks again; how long it takes to wake is up to the schedule. The prompt schedule wakes everybody
who can go on before anything else happens.
-/
namespace PhasedWorkload

/-- A caller inside a call: what it waits for, and whether it was notified since it last looked. -/
structure Sleeper where
  wait : Barrier.Wait
  notified : Bool := false
deriving DecidableEq, Repr

structure Crowd where
  barrier : Barrier := {}
  callers : List (Option Sleeper)
deriving DecidableEq, Repr

namespace Crowd

def notify (callers : List (Option Sleeper)) : List (Option Sleeper) :=
  callers.map fun caller => caller.map fun s => { s with notified := true }

def record (c : Crowd) (i : Nat) (v : Barrier.Visit) : Crowd :=
  let others := if v.notifies then notify c.callers else c.callers
  let caller := match v.outcome with
    | .answered _ => none
    | .waiting wait => some { wait }
  { barrier := v.barrier, callers := others.set i caller }

def answer? (v : Barrier.Visit) : Option Barrier.Answer :=
  match v.outcome with
  | .answered a => some a
  | .waiting _ => none

def isBusy (c : Crowd) (i : Nat) : Bool := (c.callers[i]?.join).isSome

def enter (c : Crowd) (i : Nat) (call : Barrier.Call) : Crowd × Option Barrier.Answer :=
  let v := c.barrier.enter call
  (c.record i v, answer? v)

def wake (c : Crowd) (i : Nat) : Crowd × Option Barrier.Answer :=
  match c.callers[i]?.join with
  | none => (c, none)
  | some s =>
    let v := c.barrier.wake s.wait
    (c.record i v, answer? v)

def abort (c : Crowd) : Crowd := { barrier := c.barrier.abort, callers := notify c.callers }

def reachPhase (c : Crowd) (phase : Nat) : Crowd := { c with barrier := c.barrier.reachPhase phase }

def addRequired (c : Crowd) (count : Nat) : Except Fault Crowd :=
  (c.barrier.addRequired count).map fun b => { c with barrier := b }

def wakeAll (c : Crowd) : Crowd × List (Nat × Barrier.Answer) :=
  (List.range c.callers.length).foldl (fun (c, left) i =>
    let (c, answer) := c.wake i
    (c, left ++ (answer.map fun a => (i, a)).toList)) (c, [])

def settleWithin : Nat → Crowd → Crowd × List (Nat × Barrier.Answer)
  | 0, c => (c, [])
  | fuel + 1, c =>
    let (next, left) := c.wakeAll
    if left.isEmpty && next == c then (next, [])
    else
      let (final, more) := next.settleWithin fuel
      (final, left ++ more)

/-- The prompt schedule. In each pass but the last somebody leaves its call or moves from the first of
its two waits to the second. -/
def settle (c : Crowd) : Crowd × List (Nat × Barrier.Answer) := c.settleWithin (2 * c.callers.length + 1)

def blocked (c : Crowd) : List Nat := (List.range c.callers.length).filter c.isBusy

end Crowd

/-- Ties the fate of the run to an actor: a guard that goes away before its actor is known to have ended
aborts the run. -/
structure Guard where
  actor : String
  isCompleted : Bool := false
deriving DecidableEq, Repr

namespace Guard

def complete (g : Guard) : Guard := { g with isCompleted := true }

def fail (g : Guard) (b : Barrier) : Guard × Barrier := (g.complete, b.abort)

def release (g : Guard) (b : Barrier) : Barrier := if g.isCompleted then b else b.abort

end Guard

end PhasedWorkload
