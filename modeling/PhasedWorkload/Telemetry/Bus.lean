import PhasedWorkload.Telemetry.Summary

/-! # The event bus

Every event that is sent reaches all who are subscribed at that time. The bus keeps the most recent
events only; a receiver that has fallen behind is first told how many it missed and then goes on with
the oldest event that is kept. A closed bus is only reported after all that is kept has been read.
Events that are sent while nobody is subscribed are counted and not kept.
-/
namespace PhasedWorkload.Telemetry

/-- Where a receiver stands: the number of the next event it wants to read. -/
structure Receiver where
  name : String
  position : Nat
deriving DecidableEq, Repr

structure Bus (α : Type) where
  capacity : Nat
  /-- How many events were delivered since the bus was made. -/
  sent : Nat := 0
  /-- The most recent events, oldest first. -/
  kept : List α := []
  receivers : List Receiver := []
  unobserved : Nat := 0
  isOpen : Bool := true
deriving Repr

namespace Bus

def doubleUntil : Nat → Nat → Nat → Nat
  | 0, power, _ => power
  | fuel + 1, power, least => if least ≤ power then power else doubleUntil fuel (2 * power) least

/-- The least power of two that is at least one and at least a number. -/
def roundedCapacity (least : Nat) : Nat := doubleUntil least 1 least

def defaultCapacity : Nat := 1000

def withCapacity {α : Type} (capacity : Nat) : Bus α := { capacity := roundedCapacity capacity }

variable {α : Type}

/-- Adds a receiver of the events to come; it takes the place of one of its name. -/
def subscribe (b : Bus α) (name : String) : Bus α :=
  { b with receivers := b.receivers.filter (fun r => r.name ≠ name) ++ [⟨name, b.sent⟩] }

def find? (b : Bus α) (name : String) : Option Receiver := b.receivers.find? fun r => r.name = name

def unsubscribe (b : Bus α) (name : String) : Bus α :=
  { b with receivers := b.receivers.filter fun r => r.name ≠ name }

/-- Sends an event; gives the number of receivers that it reaches. -/
def send (b : Bus α) (a : α) : Bus α × Nat :=
  if b.receivers.isEmpty then ({ b with unobserved := b.unobserved + 1 }, 0)
  else
    let kept := b.kept ++ [a]
    ({ b with sent := b.sent + 1, kept := kept.drop (kept.length - b.capacity) }, b.receivers.length)

def close (b : Bus α) : Bus α := { b with isOpen := false }

inductive Delivery (α : Type) where
  | event (event : α)
  | lagged (missed : Nat)
  | empty
  | closed
deriving Repr

/-- The number of the oldest event that is kept. -/
def oldest (b : Bus α) : Nat := b.sent - b.kept.length

def move (b : Bus α) (name : String) (position : Nat) : Bus α :=
  { b with receivers := b.receivers.map fun r => if r.name = name then { r with position } else r }

def receive (b : Bus α) (r : Receiver) : Bus α × Delivery α :=
  if r.position < b.oldest then (b.move r.name b.oldest, .lagged (b.oldest - r.position))
  else match b.kept[r.position - b.oldest]? with
    | some a => (b.move r.name (r.position + 1), .event a)
    | none => (b, if b.isOpen then .empty else .closed)

def drainWithin : Nat → Bus α → String → Bus α × List (Delivery α)
  | 0, b, _ => (b, [])
  | fuel + 1, b, name =>
    match b.find? name with
    | none => (b, [])
    | some r => match b.receive r with
      | (b, .event a) =>
        let (b, more) := drainWithin fuel b name
        (b, .event a :: more)
      | (b, .lagged missed) =>
        let (b, more) := drainWithin fuel b name
        (b, .lagged missed :: more)
      | (b, last) => (b, [last])

def drain (b : Bus α) (name : String) : Bus α × List (Delivery α) :=
  drainWithin (b.kept.length + 2) b name

def describe (b : Bus α) : String :=
  "EventBus \x7b subscribers: " ++ toString b.receivers.length ++ ", unobserved: " ++
    toString b.unobserved ++ " \x7d"

end Bus

def Summary.collect (s : Summary) : Bus.Delivery Event → Summary
  | .event e => s.record e
  | .lagged missed => { s with lagged := s.lagged + missed }
  | .empty | .closed => s

end PhasedWorkload.Telemetry
