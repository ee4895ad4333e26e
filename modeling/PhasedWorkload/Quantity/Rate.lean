import PhasedWorkload.Quantity.Count
import PhasedWorkload.Quantity.TimeSpan

/-! # Rates

A rate is a positive number of operations per positive span of time, written with the word `per`
between the two. The cost of one operation in whole nanoseconds is what a limiter works with.
-/
namespace PhasedWorkload

structure Rate where
  operations : Nat
  per : TimeSpan
deriving DecidableEq, Repr, Inhabited

namespace Rate

inductive Reason where
  | shape
  | operations (cause : Count.ReadError)
  | duration (cause : TimeSpan.ReadError)
  | zeroOperations
  | zeroDuration
deriving DecidableEq, Repr

def Reason.message : Reason → String
  | .shape => "expected '<operations> per <duration>'"
  | .operations cause => cause.message
  | .duration cause => cause.message
  | .zeroOperations => "operations must be positive"
  | .zeroDuration => "duration must be positive"

structure ReadError where
  input : String
  reason : Reason
deriving DecidableEq, Repr

def ReadError.message (e : ReadError) : String :=
  "Invalid rate spec '" ++ e.input ++ "': " ++ e.reason.message

def render (r : Rate) : String := toString r.operations ++ " per " ++ r.per.render

def make (operations : Nat) (per : TimeSpan) : Except ReadError Rate :=
  let r : Rate := ⟨operations, per⟩
  if operations = 0 then .error ⟨r.render, .zeroOperations⟩
  else if per.nanos = 0 then .error ⟨r.render, .zeroDuration⟩
  else .ok r

/-- The duration part of a rate: what follows the blanks after `per`, without the blanks at its end.
Where only blanks follow, it is the last of them that is no line feed, but not the first one. -/
def durationPart? (afterPer : List Char) : Option (List Char) :=
  let text := Text.trim afterPer
  if !Text.isBlank (afterPer.headD 'x') then none
  else if text.isEmpty then ((afterPer.drop 1).reverse.find? (· ≠ '\n')).map fun c => [c]
  else if text.contains '\n' then none
  else some text

/-- Splits a text at the word `per`, in any case, between blanks. -/
def split? (cs : List Char) : Option (List Char × List Char) :=
  let (operations, rest) := Text.splitAtBlank (Text.dropBlanks cs)
  match Text.dropBlanks rest with
  | p :: e :: r :: afterPer =>
    if operations.isEmpty || ([p, e, r].map Char.toLower ≠ ['p', 'e', 'r']) then none
    else (durationPart? afterPer).map fun duration => (operations, duration)
  | _ => none

def parse (s : String) : Except ReadError Rate :=
  match split? s.toList with
  | none => .error ⟨s, .shape⟩
  | some (operations, duration) =>
    match Count.parse (String.ofList operations) with
    | .error cause => .error ⟨s, .operations cause⟩
    | .ok count => match TimeSpan.parse (String.ofList duration) with
      | .error cause => .error ⟨s, .duration cause⟩
      | .ok per => make count.value per

/-- Nanoseconds that one operation costs, up to the largest signed number. -/
def ticksPerToken (r : Rate) : Int := min ((r.per.nanos / r.operations : Nat) : Int) maxSigned

end Rate

end PhasedWorkload
