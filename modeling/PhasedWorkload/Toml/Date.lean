import PhasedWorkload.Calendar
import PhasedWorkload.Toml.Scan

/-! # Dates and times

A date, a time, or both with an optional offset. The written form is kept, with a capital `T` between
the two parts, a capital `Z` for no offset, and a fraction of at most nine digits without zeros at its
end.
-/
namespace PhasedWorkload.Toml

open Text (Scan expect fixedDigits? padded)

def date? : Scan String := fun cs => do
  let (year, rest) ← fixedDigits? 4 0 9999 cs
  let (month, rest) ← fixedDigits? 2 1 12 (← expect '-' rest)
  let (day, rest) ← fixedDigits? 2 1 (Day.monthLength year month) (← expect '-' rest)
  return (padded 4 year ++ "-" ++ padded 2 month ++ "-" ++ padded 2 day, rest)

def fractionText (ds : List Char) : String :=
  let kept := ((ds.take 9).reverse.dropWhile (· = '0')).reverse
  if kept.isEmpty then "" else String.ofList ('.' :: kept)

/-- A time of day in its written form; a minute may have a second 60. -/
def time? : Scan String := fun cs => do
  let (hour, rest) ← fixedDigits? 2 0 23 cs
  let (minute, rest) ← fixedDigits? 2 0 59 (← expect ':' rest)
  let (second, rest) ← fixedDigits? 2 0 60 (← expect ':' rest)
  let text := padded 2 hour ++ ":" ++ padded 2 minute ++ ":" ++ padded 2 second
  match rest with
  | '.' :: afterPoint =>
    let (fraction, rest) := Binary64.spanDigits afterPoint
    if fraction.isEmpty then return (text, '.' :: afterPoint)
    else return (text ++ fractionText fraction, rest)
  | rest => return (text, rest)

def offset? : Scan String := fun cs =>
  match cs with
  | [] => some ("", cs)
  | sign :: rest =>
    if sign = 'Z' ∨ sign = 'z' then some ("Z", rest)
    else if sign = '+' ∨ sign = '-' then do
      let (hour, rest) ← fixedDigits? 2 0 23 rest
      let (minute, rest) ← fixedDigits? 2 0 59 (← expect ':' rest)
      let shown := if sign = '-' ∧ 0 < hour + minute then "-" else "+"
      return (shown ++ padded 2 hour ++ ":" ++ padded 2 minute, rest)
    else some ("", cs)

def timeAfterDate? : Scan String := fun cs =>
  match cs with
  | delimiter :: rest =>
    if delimiter = 'T' ∨ delimiter = 't' ∨ delimiter = ' ' then
      match time? rest with
      | some (time, rest) => (offset? rest).map fun (offset, rest) => ("T" ++ time ++ offset, rest)
      | none => some ("", cs)
    else some ("", cs)
  | [] => some ("", [])

/-- A date and time is a table of one member that holds its written form. -/
def dateNode (s : String) : Node := .table [("$__toml_private_datetime", .text s)] true

def dateTime? : Scan Node := fun cs =>
  match date? cs with
  | some (date, rest) => (timeAfterDate? rest).map fun (time, rest) => (dateNode (date ++ time), rest)
  | none => (time? cs).map fun (time, rest) => (dateNode time, rest)

end PhasedWorkload.Toml
