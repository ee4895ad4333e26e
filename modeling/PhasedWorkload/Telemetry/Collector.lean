import PhasedWorkload.Telemetry.Bus

/-! # The collector

A collector subscribes to the bus when it is spawned and then reads on a thread of its own, counting what it is told
into a summary, until it is told that the bus is closed. Meanwhile every thread with a clone of the bus may emit
events, clone it again or let go of its clone, and other receivers may come, read and go. The bus is closed once the
last clone is gone. Any order of such steps is a run.
-/
namespace PhasedWorkload.Telemetry

structure Collector where
  summary : Summary := {}
  hasFinished : Bool := false
deriving DecidableEq, Repr

namespace Collector

def name : String := "summary-collector"

def learn (c : Collector) (d : Bus.Delivery Event) : Collector where
  summary := c.summary.collect d
  hasFinished := match d with
    | .closed => true
    | .event _ | .lagged _ | .empty => c.hasFinished

end Collector

structure Broadcast where
  bus : Bus Event
  clones : Nat := 1
  collector : Option Collector := none
deriving Repr

namespace Broadcast

inductive Act where
  | emit (event : Event)
  | clone
  | letGo
  | spawn
  | collect
  | subscribe (name : String)
  /-- a read of another receiver -/
  | read (name : String)
  | unsubscribe (name : String)
deriving DecidableEq, Repr

def opened (capacity : Nat) : Broadcast := { bus := .withCapacity capacity }

def isLive (b : Broadcast) : Bool := 0 < b.clones

/-- A collector subscribes before its thread runs. -/
def spawn (b : Broadcast) : Broadcast :=
  if b.isLive && b.collector.isNone then { b with bus := b.bus.subscribe Collector.name, collector := some {} }
  else b

/-- A read of the collector: it waits where there is nothing to read, and stops subscribing when it is told that the
bus is closed. -/
def collect (b : Broadcast) : Broadcast :=
  match b.collector, b.bus.find? Collector.name with
  | some c, some r =>
    let (bus, d) := b.bus.receive r
    let c := c.learn d
    { b with bus := if c.hasFinished then bus.unsubscribe Collector.name else bus, collector := some c }
  | _, _ => b

/-- Lets go of a clone; the last one closes the bus. -/
def letGo (b : Broadcast) : Broadcast :=
  if 1 < b.clones then { b with clones := b.clones - 1 } else { b with clones := 0, bus := b.bus.close }

def step (b : Broadcast) : Act → Broadcast
  | .emit e => if b.isLive then { b with bus := (b.bus.send e).1 } else b
  | .clone => if b.isLive then { b with clones := b.clones + 1 } else b
  | .letGo => b.letGo
  | .spawn => b.spawn
  | .collect => b.collect
  | .subscribe name =>
    if b.isLive && name ≠ Collector.name then { b with bus := b.bus.subscribe name } else b
  | .read name =>
    match b.bus.find? name with
    | some r => if name = Collector.name then b else { b with bus := (b.bus.receive r).1 }
    | none => b
  | .unsubscribe name => if name = Collector.name then b else { b with bus := b.bus.unsubscribe name }

end Broadcast

end PhasedWorkload.Telemetry
