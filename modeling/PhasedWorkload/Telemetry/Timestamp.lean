import PhasedWorkload.Calendar
import PhasedWorkload.Quantity.TimeSpan

/-! # Instants

An instant is a number of seconds since the start of 1970 in universal time and a fraction. It is read
from a date, a time and an offset, blanks being allowed between the parts, and written in universal time
with 0, 3, 6 or 9 digits of the fraction. A fraction of a second or more stands for an inserted second.
-/
namespace PhasedWorkload.Telemetry

structure Timestamp where
  seconds : Int
  nanos : Nat
deriving DecidableEq, Repr

namespace Timestamp

open Text (Scan expect fixedDigits? padded)

/-- A number of one to `width` digits, blanks before it being skipped. -/
def number? (width : Nat) : Scan Nat := fun cs =>
  let cs := Text.dropBlanks cs
  let digits := (cs.take width).takeWhile Char.isDigit
  (Text.natOfDigits? digits).map fun n => (n, cs.drop digits.length)

/-- A year: four digits at most, or any number of them after a sign. -/
def year? : Scan Int := fun cs =>
  match Text.dropBlanks cs with
  | '-' :: rest => signed rest (-1)
  | '+' :: rest => signed rest 1
  | cs => (number? 4 cs).map fun (n, rest) => ((n : Int), rest)
where
  signed (cs : List Char) (sign : Int) : Option (Int × List Char) :=
    let digits := cs.takeWhile Char.isDigit
    (Text.natOfDigits? digits).map fun n => (sign * n, cs.drop digits.length)

def mark? (c : Char) (cs : List Char) : Option (List Char) := expect c (Text.dropBlanks cs)

/-- The fraction of a second in nanoseconds; digits after the ninth are dropped. -/
def fraction? : Scan Nat
  | '.' :: rest =>
    let digits := rest.takeWhile Char.isDigit
    if digits.isEmpty then none
    else
      let kept := digits.take 9
      some (Nat.ofDigitChars 10 kept 0 * Nat.pow 10 (9 - kept.length), rest.drop digits.length)
  | cs => some (0, cs)

def offset? (cs : List Char) : Option (Int × List Char) :=
  match cs with
  | [] => none
  | c :: rest =>
    if c = 'Z' ∨ c = 'z' then some (0, rest)
    else if (cs.take 3).map Char.toUpper = ['U', 'T', 'C'] then some (0, cs.drop 3)
    else if c = '+' ∨ c = '-' ∨ c = '\u2212' then do
      let (hours, rest) ← fixedDigits? 2 0 99 rest
      let (minutes, rest) ← fixedDigits? 2 0 59 (rest.dropWhile fun c => c = ':' || Text.isBlank c)
      let offset : Int := 3600 * hours + 60 * minutes
      if offset < 86400 then return (if c = '+' then offset else -offset, rest) else none
    else none

def bounds : Int × Int :=
  (Day.toNumber ⟨Day.minYear, 1, 1⟩ * 86400, Day.toNumber ⟨Day.maxYear + 1, 1, 1⟩ * 86400)

def ofChars? (cs : List Char) : Option Timestamp := do
  let (year, rest) ← year? cs
  let (month, rest) ← number? 2 (← mark? '-' rest)
  let (day, rest) ← number? 2 (← mark? '-' rest)
  let rest ← match rest with
    | c :: rest => if c = 'T' ∨ c = 't' ∨ c = ' ' then some rest else none
    | [] => none
  let (hour, rest) ← number? 2 rest
  let (minute, rest) ← number? 2 (← mark? ':' rest)
  let (second, rest) ← number? 2 (← mark? ':' rest)
  let (nanos, rest) ← fraction? rest
  let (offset, rest) ← offset? (Text.dropBlanks rest)
  let date ← Day.make? year month day
  if hour < 24 ∧ minute < 60 ∧ second ≤ 60 ∧ Text.dropBlanks rest = [] then
    let inserted := second = 60
    let second := if inserted then 59 else second
    let seconds : Int := date.toNumber * 86400 + 3600 * hour + 60 * minute + second - offset
    if bounds.1 ≤ seconds ∧ seconds < bounds.2 then
      return ⟨seconds, if inserted then nanos + TimeSpan.nanosPerSecond else nanos⟩
    else none
  else none

def fractionText (nanos : Nat) : String :=
  if nanos = 0 then ""
  else if nanos % 1000000 = 0 then "." ++ padded 3 (nanos / 1000000)
  else if nanos % 1000 = 0 then "." ++ padded 6 (nanos / 1000)
  else "." ++ padded 9 nanos

def render (t : Timestamp) : String :=
  let day := Day.ofNumber (t.seconds.fdiv 86400)
  let ofDay := (t.seconds.fmod 86400).toNat
  let second := ofDay % 60 + t.nanos / TimeSpan.nanosPerSecond
  day.render ++ "T" ++ padded 2 (ofDay / 3600) ++ ":" ++ padded 2 (ofDay / 60 % 60) ++ ":" ++
    padded 2 second ++ fractionText (t.nanos % TimeSpan.nanosPerSecond) ++ "Z"

end Timestamp

end PhasedWorkload.Telemetry
