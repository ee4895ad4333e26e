import PhasedWorkload.Binary64.Basic

/-! # The shortest decimal that reads back

The reals that round to a finite double form an interval around it. Among the decimals inside the
interval those with the fewest digits are kept, and of these the one nearest to the double; what
happens to an exact tie is for the format that writes the number to say.
-/
namespace PhasedWorkload.Binary64

inductive TieRule where
  | up
  | even
deriving DecidableEq, Repr

structure Decimal where
  digits : Nat
  exponent : Int
deriving DecidableEq, Repr

/-- The interval of reals that round to a positive double, as numerators over one denominator. -/
structure Interval where
  low : Nat
  value : Nat
  high : Nat
  denominator : Nat
  closed : Bool

def interval (significand : Nat) (exponent : Int) : Interval :=
  let narrow := significand == hiddenBit && minExponent < exponent
  let unit := if exponent < 2 then 1 else Nat.pow 2 (exponent - 2).toNat
  { low := (4 * significand - if narrow then 1 else 2) * unit
    value := 4 * significand * unit
    high := (4 * significand + 2) * unit
    denominator := if exponent < 2 then Nat.pow 2 (2 - exponent).toNat else 1
    closed := significand % 2 == 0 }

def decimalLength (n : Nat) : Nat := (Nat.toDigits 10 n).length

def leadingExponent (numerator denominator : Nat) : Int :=
  if denominator ≤ numerator then (decimalLength (numerator / denominator) : Int) - 1
  else
    let places := decimalLength (denominator / numerator)
    if denominator ≤ numerator * Nat.pow 10 (places - 1) then 1 - (places : Int) else -(places : Int)

namespace Interval

def contains (i : Interval) (digits : Nat) (exponent : Int) : Bool :=
  let point := digits * i.denominator * if exponent < 0 then 1 else Nat.pow 10 exponent.toNat
  let factor := if exponent < 0 then Nat.pow 10 (-exponent).toNat else 1
  let low := i.low * factor
  let high := i.high * factor
  (low < point && point < high) || (i.closed && (point == low || point == high))

/-- The two neighbours of the double on the grid of multiples of `10 ^ exponent`, and on which side of
their middle it lies. -/
def below (i : Interval) (exponent : Int) : Nat × Ordering :=
  let top := if exponent < 0 then i.value * Nat.pow 10 (-exponent).toNat else i.value
  let bottom := if exponent < 0 then i.denominator else i.denominator * Nat.pow 10 exponent.toNat
  (top / bottom, compare (2 * (top % bottom)) bottom)

/-- The decimal of the grid that reads back, the nearer of two. -/
def onGrid? (i : Interval) (tie : TieRule) (exponent : Int) : Option Decimal :=
  let (down, side) := i.below exponent
  let up := down + 1
  let nearer := match side, tie with
    | .lt, _ => down
    | .gt, _ => up
    | .eq, .up => up
    | .eq, .even => if down % 2 = 0 then down else up
  match i.contains down exponent, i.contains up exponent with
  | true, true => some ⟨nearer, exponent⟩
  | true, false => some ⟨down, exponent⟩
  | false, true => some ⟨up, exponent⟩
  | false, false => none

end Interval

def Decimal.trimZeros : Nat → Decimal → Decimal
  | 0, d => d
  | fuel + 1, d =>
    if d.digits ≠ 0 ∧ d.digits % 10 = 0 then Decimal.trimZeros fuel ⟨d.digits / 10, d.exponent + 1⟩ else d

def shortest (tie : TieRule) (significand : Nat) (exponent : Int) : Decimal :=
  let i := interval significand exponent
  let leading := leadingExponent i.value i.denominator
  let found := (List.range 17).findSome? fun (count : Nat) => i.onGrid? tie (leading - count)
  Decimal.trimZeros 18 (found.getD ⟨0, 0⟩)

def Decimal.positional (d : Decimal) : String :=
  let digits := Nat.toDigits 10 d.digits
  if 0 ≤ d.exponent then String.ofList (digits ++ List.replicate d.exponent.toNat '0')
  else
    let places := (-d.exponent).toNat
    let padded := List.replicate (places + 1 - digits.length) '0' ++ digits
    let whole := padded.length - places
    String.ofList (padded.take whole ++ '.' :: padded.drop whole)

def powerText (power : Int) : String :=
  (if power < 0 then "e-" else "e+") ++ toString power.natAbs

def Decimal.scientific (d : Decimal) : String :=
  let digits := Nat.toDigits 10 d.digits
  let mantissa := match digits with
    | first :: second :: rest => first :: '.' :: second :: rest
    | _ => digits
  String.ofList mantissa ++ powerText (d.exponent + (digits.length : Int) - 1)

/-- The plain text of a double: shortest digits, never an exponent. -/
def toText : Binary64 → String
  | .nan => "NaN"
  | .infinite negative => if negative then "-inf" else "inf"
  | .finite negative significand exponent =>
    (if negative then "-" else "") ++
      if significand = 0 then "0" else (shortest .up significand exponent).positional

def toPointedText (x : Binary64) : String :=
  match x with
  | .finite .. => let text := x.toText; if text.contains '.' then text else text ++ ".0"
  | _ => x.toText

/-- The text of a double in a data file: positional from `1e-5` up to below `1e16`, else with a power
of ten; what is not finite has no number there. -/
def toDataText : Binary64 → String
  | .finite negative significand exponent =>
    (if negative then "-" else "") ++
      if significand = 0 then "0.0"
      else
        let d := shortest .even significand exponent
        let leading := (decimalLength d.digits : Int) + d.exponent - 1
        if -5 ≤ leading && leading ≤ 15 then
          if 0 ≤ d.exponent then d.positional ++ ".0" else d.positional
        else d.scientific
  | _ => "null"

end PhasedWorkload.Binary64
