import PhasedWorkload.Document.Fault
import PhasedWorkload.Plan.Basic

/-! # Why a run is refused or fails

A configuration fault carries the place in the plan that it belongs to. The place becomes more specific
on the way out; a rejected input becomes a configuration fault when it is given a place.
-/
namespace PhasedWorkload

inductive InputFault where
  | timeSpan (input reason : String)
  | count (input reason : String)
  | rate (input reason : String)
  | unreadable (reason : String)
  | invalid (reason : String)
deriving DecidableEq, Repr

namespace InputFault

def message : InputFault → String
  | .timeSpan input reason => "Invalid time spec '" ++ input ++ "': " ++ reason
  | .count input reason => "Invalid integer spec '" ++ input ++ "': " ++ reason
  | .rate input reason => "Invalid rate spec '" ++ input ++ "': " ++ reason
  | .unreadable reason => "Failed to parse workload: " ++ reason
  | .invalid reason => "Validation error: " ++ reason

def ofTimeSpan (e : TimeSpan.ReadError) : InputFault := .timeSpan e.input e.reason.message

def ofCount (e : Count.ReadError) : InputFault := .count e.input e.reason.message

def ofRate (e : Rate.ReadError) : InputFault := .rate e.input e.reason.message

def ofPlan (f : Plan.Fault) : InputFault := .invalid f.reason

end InputFault

inductive ConfigurationFault where
  | repeatAndDuration
  | zeroRepeat
  | zeroDuration
  | rateAlone
  | unsteadyClock
  | clockTick (nanos : Nat)
  | duplicatePhase (phase : Nat)
  | limiterRedefined (name : String) (defined requested : Rate)
  | invalidKey (key : String) (fault : ReadFault)
  | missingKey (key : String)
  | lateParticipant
  | unboundedPhase (phase : Nat) (actors : List String)
  | input (fault : InputFault)
  | other (reason : String)
deriving DecidableEq, Repr

def ConfigurationFault.message : ConfigurationFault → String
  | .repeatAndDuration => "Only one of Repeat or Duration may be specified"
  | .zeroRepeat => "Repeat must be positive"
  | .zeroDuration => "Duration must be positive"
  | .rateAlone => "Rate must be specified alongside either Duration or Repeat"
  | .unsteadyClock => "Clock must be steady"
  | .clockTick nanos => "Clock tick must be exactly one nanosecond, got " ++ toString nanos ++ "ns"
  | .duplicatePhase phase => "Duplicate phase " ++ toString phase
  | .limiterRedefined name defined requested =>
    "Rate limiter '" ++ name ++ "' already defined as '" ++ defined.render ++
      "', cannot redefine as '" ++ requested.render ++ "'"
  | .invalidKey key fault => "Invalid '" ++ key ++ "': " ++ (fault.message? .data).getD ""
  | .missingKey key => "Missing required key '" ++ key ++ "'"
  | .lateParticipant => "Cannot add required tokens after a phase has started"
  | .unboundedPhase phase actors =>
    "Actors [" ++ ", ".intercalate actors ++
      "] run until the phase ends but no actor bounds phase " ++ toString phase ++
      " with Repeat or Duration"
  | .input fault => fault.message
  | .other reason => reason

inductive Fault where
  | configuration (location : String) (reason : ConfigurationFault)
  | aborted
  | actorFailed (actor reason : String)
  | actorPanicked (actor : String)
  | unknownActor (type : String) (known : List String)
  | duplicateProducer (type : String)
  | input (fault : InputFault)
  | io (reason : String)
deriving DecidableEq, Repr

namespace Fault

def message : Fault → String
  | .configuration location reason => "Invalid configuration at " ++ location ++ ": " ++ reason.message
  | .aborted => "Run aborted"
  | .actorFailed actor reason => "Actor " ++ actor ++ " failed: " ++ reason
  | .actorPanicked actor => "Actor " ++ actor ++ " panicked"
  | .unknownActor type known =>
    "Unknown actor type '" ++ type ++ "' (known: " ++ ", ".intercalate known ++ ")"
  | .duplicateProducer type => "Actor producer already registered: " ++ type
  | .input fault => fault.message
  | .io reason => "IO error: " ++ reason

/-- Gives a configuration fault a more specific place. -/
def relocate (location : String) : Fault → Fault
  | .configuration _ reason => .configuration location reason
  | .input fault => .configuration location (.input fault)
  | fault => fault

def isAborted : Fault → Bool
  | .aborted => true
  | _ => false

/-- Whether the plan is at fault, and not the run. -/
def isConfiguration : Fault → Bool
  | .configuration .. | .unknownActor .. | .duplicateProducer _ | .input _ => true
  | _ => false

end Fault

end PhasedWorkload
