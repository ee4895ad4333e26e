import PhasedWorkload.Quantity.TimeSpan
import PhasedWorkload.Text.Scan

/-! # Elapsed time as it is shown

A span is shown in seconds if it has any, else in the largest unit below that it fills, either with all
the digits of its fraction or rounded to two places, a half going to the even neighbour.
-/
namespace PhasedWorkload.TimeSpan

/-- A unit for showing a span: its length, the places of its fraction down to nanoseconds, and its name. -/
structure DisplayUnit where
  nanos : Nat
  places : Nat
  name : String
deriving DecidableEq, Repr

def displayUnit (t : TimeSpan) : DisplayUnit :=
  if nanosPerSecond ≤ t.nanos then ⟨nanosPerSecond, 9, "s"⟩
  else if nanosPerMillisecond ≤ t.nanos then ⟨nanosPerMillisecond, 6, "ms"⟩
  else if nanosPerMicrosecond ≤ t.nanos then ⟨nanosPerMicrosecond, 3, "µs"⟩
  else ⟨1, 0, "ns"⟩

def exactText (t : TimeSpan) : String :=
  let u := t.displayUnit
  let digits := if u.places = 0 then [] else (Text.padded u.places (t.nanos % u.nanos)).toList
  let kept := (digits.reverse.dropWhile (· = '0')).reverse
  toString (t.nanos / u.nanos) ++ (if kept.isEmpty then "" else String.ofList ('.' :: kept)) ++ u.name

/-- Divides to the nearest whole number, a half going to the even one. -/
def divToEven (n unit : Nat) : Nat :=
  let quotient := n / unit
  let doubled := 2 * (n % unit)
  if unit < doubled ∨ (doubled = unit ∧ quotient % 2 = 1) then quotient + 1 else quotient

def roundedText (t : TimeSpan) : String :=
  let u := t.displayUnit
  let hundredths := divToEven (100 * t.nanos) u.nanos
  toString (hundredths / 100) ++ "." ++ Text.padded 2 (hundredths % 100) ++ u.name

end PhasedWorkload.TimeSpan
