import PhasedWorkload.Text.DecimalDigit

/-! # Scanning the front of a text

A scanner takes its part from the front of a text and gives the rest, or nothing where the part does not
stand there.
-/
namespace PhasedWorkload.Text

abbrev Scan (α : Type) := List Char → Option (α × List Char)

def expect (c : Char) : List Char → Option (List Char)
  | d :: rest => if d = c then some rest else none
  | [] => none

/-- A number of exactly `count` digits within a range. -/
def fixedDigits? (count low high : Nat) : Scan Nat := fun cs =>
  let digits := cs.take count
  if digits.length = count then
    match natOfDigits? digits with
    | some n => if low ≤ n ∧ n ≤ high then some (n, cs.drop count) else none
    | none => none
  else none

def padded (width n : Nat) : String :=
  let digits := Nat.toDigits 10 n
  String.ofList (List.replicate (width - digits.length) '0' ++ digits)

end PhasedWorkload.Text
