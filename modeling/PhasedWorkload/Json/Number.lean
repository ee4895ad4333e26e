import PhasedWorkload.Binary64.Reading
import PhasedWorkload.Quantity.Word

/-! # Numbers in JSON text

A number without point and power that fits 64 bits is an integer. Any other one is a double: as many
leading digits as fit a 64-bit significand are kept, and the significand is scaled by one power of ten,
each of the two steps rounding. A double beyond the finite range is a fault.
-/
namespace PhasedWorkload.Json

inductive Number where
  | int (value : Int)
  | float (value : Binary64)
deriving DecidableEq, Repr

/-- Takes in digits while the significand fits 64 bits; gives it and the number of digits taken in. -/
def absorb (significand : Nat) : List Char → Nat × Nat
  | [] => (significand, 0)
  | c :: rest =>
    let next := 10 * significand + (c.toNat - '0'.toNat)
    if next < wordBound then
      let (final, count) := absorb next rest
      (final, count + 1)
    else (significand, 0)

def maxPower : Nat := 308

def powerOfTen (power : Nat) : Binary64 := Binary64.ofNat (Nat.pow 10 power)

/-- Scales a significand by a power of ten, dividing by the largest power first where the power is too
small for one division. -/
def scale? : Nat → Binary64 → Int → Option Binary64
  | 0, _, _ => none
  | fuel + 1, x, power =>
    if power.natAbs ≤ maxPower then
      if 0 ≤ power then
        let scaled := x.mul (powerOfTen power.natAbs)
        if scaled.isFinite then some scaled else none
      else some (x.div (powerOfTen power.natAbs))
    else if x.isZero then some x
    else if 0 ≤ power then none
    else scale? fuel (x.div (powerOfTen maxPower)) (power + maxPower)

def maxStatedPower : Nat := 2147483647

/-- The double of a significand and two parts of its power of ten: the one that follows from the place
of the point and the stated one. Two divisions by the largest power make every significand zero. -/
def float? (negative : Bool) (significand : Nat) (places stated : Int) : Option Number :=
  let unsigned :=
    if stated.natAbs ≤ maxStatedPower then scale? 4 (Binary64.ofNat significand) (places + stated)
    else if significand ≠ 0 ∧ 0 < stated then none
    else some (Binary64.zero false)
  unsigned.map fun x => .float (if negative then x.neg else x)

def spanPower? : List Char → Option (Int × List Char)
  | c :: rest =>
    if c = 'e' ∨ c = 'E' then
      let (negative, afterSign) := Binary64.spanSign rest
      let (digits, rest) := Binary64.spanDigits afterSign
      (Text.natOfDigits? digits).map fun n => (if negative then -(n : Int) else n, rest)
    else some (0, c :: rest)
  | [] => some (0, [])

/-- The integer of a significand. Minus zero is a double, and so is a negative number below the signed
range. -/
def integer (negative : Bool) (significand : Nat) : Number :=
  if !negative then .int significand
  else if significand ≠ 0 ∧ (significand : Int) ≤ -minSigned then .int (-(significand : Int))
  else .float (Binary64.ofNat significand).neg

def spanNumber? (negative : Bool) (cs : List Char) : Option (Number × List Char) :=
  let (whole, afterWhole) := Binary64.spanDigits cs
  let (significand, taken) := absorb 0 whole
  let dropped := whole.length - taken
  if whole.isEmpty || (whole.head? = some '0' && 1 < whole.length) then none
  else match afterWhole with
    | '.' :: rest =>
      let (fraction, afterFraction) := Binary64.spanDigits rest
      if fraction.isEmpty then none
      else do
        let (significand, taken) := absorb significand fraction
        let (power, rest) ← spanPower? afterFraction
        let number ← float? negative significand ((dropped : Int) - taken) power
        return (number, rest)
    | _ => do
      let (power, rest) ← spanPower? afterWhole
      if dropped = 0 ∧ rest.length = afterWhole.length then return (integer negative significand, rest)
      else return (← float? negative significand dropped power, rest)

def afterFraction? : List Char → Option (List Char)
  | '.' :: rest =>
    let (fraction, rest) := Binary64.spanDigits rest
    if fraction.isEmpty then none else some rest
  | cs => some cs

def afterNumber? (cs : List Char) : Option (List Char) :=
  let (whole, rest) := Binary64.spanDigits cs
  if whole.isEmpty || (whole.head? = some '0' && 1 < whole.length) then none
  else ((afterFraction? rest).bind spanPower?).map Prod.snd

end PhasedWorkload.Json
