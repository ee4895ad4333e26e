import PhasedWorkload.Fault
import PhasedWorkload.Quantity.Elapsed

/-! # When work in a phase stops

A block says how long its actor works in a phase: a number of iterations, a span of time, until the
other participants end the phase, or not at all. A block that is flagged as doing nothing is not looked
at any further.
-/
namespace PhasedWorkload

inductive StopRule where
  | iterations (count : Nat)
  | elapsed (limit : TimeSpan)
  | untilPhaseEnd
  | nothing
deriving DecidableEq, Repr, Inhabited

namespace StopRule

def location : String := "phase"

def make (repeats : Option Count) (duration : Option TimeSpan) (rate : Option Rate) (nop : Bool) :
    Except Fault StopRule :=
  let refuse := fun reason => Except.error (Fault.configuration location reason)
  if nop then .ok .nothing
  else match repeats, duration with
    | some _, some _ => refuse .repeatAndDuration
    | some count, none => if count.value = 0 then refuse .zeroRepeat else .ok (.iterations count.value)
    | none, some limit => if limit.nanos = 0 then refuse .zeroDuration else .ok (.elapsed limit)
    | none, none => if rate.isSome then refuse .rateAlone else .ok .untilPhaseEnd

def ofBlock (b : Block) : Except Fault StopRule := make b.repeats b.duration b.rate b.isNop

/-- Whether the phase cannot end before this work is over. -/
def blocksPhase (r : StopRule) : Bool := r ≠ .untilPhaseEnd

def isNothing (r : StopRule) : Bool := r = .nothing

/-- Whether the rule ends on its own and so bounds its phase for everyone. -/
def bounds : StopRule → Bool
  | .iterations _ | .elapsed _ => true
  | .untilPhaseEnd | .nothing => false

def describe : StopRule → String
  | .iterations count => "Repeat(" ++ toString count ++ ")"
  | .elapsed limit => "Duration(" ++ limit.exactText ++ ")"
  | .untilPhaseEnd => "UntilPhaseEnd"
  | .nothing => "Nop"

end StopRule

end PhasedWorkload
