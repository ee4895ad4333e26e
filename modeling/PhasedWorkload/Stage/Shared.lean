/-! # Shared counters

All actors of a type share one counter for each of their states. A counter exists from its first use on.
-/
namespace PhasedWorkload

structure CounterKey where
  owner : String
  state : String
deriving DecidableEq, Repr

structure SharedCounters where
  counters : List (CounterKey × Int) := []
deriving DecidableEq, Repr, Inhabited

namespace SharedCounters

def get (s : SharedCounters) (key : CounterKey) : Int := (s.counters.lookup key).getD 0

def size (s : SharedCounters) : Nat := s.counters.length

def addTo (key : CounterKey) (amount : Int) : List (CounterKey × Int) → List (CounterKey × Int)
  | [] => [(key, amount)]
  | (k, count) :: rest => if k = key then (k, count + amount) :: rest else (k, count) :: addTo key amount rest

/-- Adds to a counter, which starts at zero. -/
def add (s : SharedCounters) (key : CounterKey) (amount : Int) : SharedCounters :=
  ⟨addTo key amount s.counters⟩

def describe (s : SharedCounters) : String := "SharedStateRegistry \x7b len: " ++ toString s.size ++ " \x7d"

end SharedCounters

end PhasedWorkload
