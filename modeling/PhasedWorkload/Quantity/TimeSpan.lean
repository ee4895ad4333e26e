import PhasedWorkload.Quantity.Scalar
import PhasedWorkload.Quantity.Word
import PhasedWorkload.Text.Blank
import PhasedWorkload.Text.DecimalDigit

/-! # Spans of time

A span is written as a count and an optional unit, a bare count being milliseconds. Reading a text
finds its shape first, then refuses it for the first of: a minus sign, a count that is no 64-bit
number, an unknown unit, a product that is no 64-bit number of nanoseconds.
-/
namespace PhasedWorkload

structure TimeSpan where
  nanos : Nat
deriving DecidableEq, Repr, Inhabited

namespace TimeSpan

def nanosPerMicrosecond : Nat := 1000
def nanosPerMillisecond : Nat := 1000000
def nanosPerSecond : Nat := 1000000000

inductive Reason where
  | shape
  | negative
  | outOfRange
  | unknownUnit (unit : String)
  | overflow
  | notMilliseconds
deriving DecidableEq, Repr

def Reason.message : Reason → String
  | .shape => "expected '<count> <unit>'"
  | .negative => "must not be negative"
  | .outOfRange => "count is out of range"
  | .unknownUnit unit => "unknown unit '" ++ unit ++ "'"
  | .overflow => "duration overflows"
  | .notMilliseconds => "expected integer milliseconds or '<count> <unit>'"

structure ReadError where
  input : String
  reason : Reason
deriving DecidableEq, Repr

def ReadError.message (e : ReadError) : String :=
  "Invalid time spec '" ++ e.input ++ "': " ++ e.reason.message

def ofMillis (millis : Nat) : TimeSpan := ⟨millis * nanosPerMillisecond⟩

def ofSeconds (seconds : Nat) : TimeSpan := ⟨seconds * nanosPerSecond⟩

def unitNanos? (unit : List Char) : Option Nat :=
  match String.ofList unit with
  | "nanosecond" | "nanoseconds" | "ns" => some 1
  | "microsecond" | "microseconds" | "us" => some nanosPerMicrosecond
  | "" | "millisecond" | "milliseconds" | "ms" => some nanosPerMillisecond
  | "second" | "seconds" | "s" => some nanosPerSecond
  | "minute" | "minutes" | "min" | "m" => some (60 * nanosPerSecond)
  | "hour" | "hours" | "h" => some (3600 * nanosPerSecond)
  | _ => none

structure Shape where
  negative : Bool
  digits : List Char
  unit : List Char
deriving DecidableEq, Repr

/-- Blanks, an optional minus, digits of any script, blanks, ASCII letters, blanks. -/
def shape? (cs : List Char) : Option Shape :=
  let cs := Text.dropBlanks cs
  let (negative, cs) := match cs with
    | '-' :: rest => (true, rest)
    | _ => (false, cs)
  let digits := cs.takeWhile Text.isDecimalDigit
  let afterDigits := Text.dropBlanks (cs.dropWhile Text.isDecimalDigit)
  let unit := afterDigits.takeWhile Char.isAlpha
  let rest := Text.dropBlanks (afterDigits.dropWhile Char.isAlpha)
  if digits.isEmpty || !rest.isEmpty then none else some ⟨negative, digits, unit⟩

def word? (digits : List Char) : Option Nat :=
  (Text.natOfDigits? digits).filter (· < wordBound)

def ofChars? (cs : List Char) : Except Reason TimeSpan :=
  match shape? cs with
  | none => .error .shape
  | some s =>
    if s.negative then .error .negative
    else match word? s.digits with
      | none => .error .outOfRange
      | some count => match unitNanos? (s.unit.map Char.toLower) with
        | none => .error (.unknownUnit (String.ofList s.unit))
        | some scale => if count * scale < wordBound then .ok ⟨count * scale⟩ else .error .overflow

def parse (s : String) : Except ReadError TimeSpan :=
  (ofChars? s.toList).mapError fun reason => ⟨s, reason⟩

/-- An integer is a number of milliseconds and a text is read; a double is refused. -/
def ofScalar : Scalar → Except ReadError TimeSpan
  | .int millis => if millis < 0 then .error ⟨toString millis, .negative⟩ else .ok (ofMillis millis.toNat)
  | .float value => .error ⟨value.toText, .notMilliseconds⟩
  | .text s => parse s

/-- The count and the singular unit in which a span is printed: the largest printed unit that
divides it. -/
def printedUnit (t : TimeSpan) : Nat × String :=
  if t.nanos = 0 then (0, "nanosecond")
  else if t.nanos % nanosPerSecond = 0 then (t.nanos / nanosPerSecond, "second")
  else if t.nanos % nanosPerMillisecond = 0 then (t.nanos / nanosPerMillisecond, "millisecond")
  else if t.nanos % nanosPerMicrosecond = 0 then (t.nanos / nanosPerMicrosecond, "microsecond")
  else (t.nanos, "nanosecond")

def render (t : TimeSpan) : String :=
  let (count, unit) := t.printedUnit
  toString count ++ " " ++ unit ++ if count = 1 then "" else "s"

/-- From short to long, equal spans once. -/
def sorted (ts : List TimeSpan) : List TimeSpan :=
  (ts.mergeSort fun a b => a.nanos ≤ b.nanos).eraseDups

end TimeSpan

end PhasedWorkload
