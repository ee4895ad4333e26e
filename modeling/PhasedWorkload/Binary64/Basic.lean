/-! # Double-precision numbers

A finite double is `significand * 2 ^ exponent` with a sign. Rounding takes an exact quotient of
natural numbers to the nearest double, a tie going to the even significand, so every operation here
is computed from exact values and is the same in proofs and in a running program.
-/
namespace PhasedWorkload

inductive Binary64 where
  | nan
  | infinite (negative : Bool)
  | finite (negative : Bool) (significand : Nat) (exponent : Int)
deriving DecidableEq, Repr, Inhabited

namespace Binary64

def minExponent : Int := -1074

def maxExponent : Int := 971

/-- Significands of normal numbers are at least this and below its double. -/
def hiddenBit : Nat := 4503599627370496

def zero (negative : Bool) : Binary64 := .finite negative 0 minExponent

/-- The quotient of `numerator * 2 ^ (-exponent)` by `denominator`, and whether half of the unit is
exceeded, met or not reached by the remainder. -/
def scaledQuotient (numerator denominator : Nat) (exponent : Int) : Nat × Ordering :=
  let top := if exponent < 0 then numerator * Nat.pow 2 (-exponent).toNat else numerator
  let bottom := if exponent < 0 then denominator else denominator * Nat.pow 2 exponent.toNat
  (top / bottom, compare (2 * (top % bottom)) bottom)

def nearestEven : Nat × Ordering → Nat
  | (q, .gt) => q + 1
  | (q, .eq) => q + q % 2
  | (q, .lt) => q

/-- The exponent at which a positive quotient has a significand of full length, or the least one. -/
def quotientExponent (numerator denominator : Nat) : Int :=
  let guess := max ((numerator.log2 : Int) - (denominator.log2 : Int) - 53) minExponent
  if (scaledQuotient numerator denominator guess).1 < 2 * hiddenBit then guess else guess + 1

/-- The double nearest to a quotient; beyond the largest finite number it is infinite. -/
def roundQuotient (negative : Bool) (numerator denominator : Nat) : Binary64 :=
  if numerator = 0 then zero negative
  else
    let exponent := quotientExponent numerator denominator
    let significand := nearestEven (scaledQuotient numerator denominator exponent)
    let carried := significand = 2 * hiddenBit
    let significand := if carried then hiddenBit else significand
    let exponent := if carried then exponent + 1 else exponent
    if maxExponent < exponent then .infinite negative else .finite negative significand exponent

def roundScaled (negative : Bool) (significand base : Nat) (exponent : Int) : Binary64 :=
  if exponent < 0 then roundQuotient negative significand (Nat.pow base (-exponent).toNat)
  else roundQuotient negative (significand * Nat.pow base exponent.toNat) 1

def ofNat (n : Nat) : Binary64 := roundQuotient false n 1

def ofInt (n : Int) : Binary64 := roundQuotient (n < 0) n.natAbs 1

def neg : Binary64 → Binary64
  | .nan => .nan
  | .infinite negative => .infinite !negative
  | .finite negative significand exponent => .finite (!negative) significand exponent

def mul : Binary64 → Binary64 → Binary64
  | .finite n m e, .finite n' m' e' => roundScaled (n != n') (m * m') 2 (e + e')
  | .finite n m _, .infinite n' => if m = 0 then .nan else .infinite (n != n')
  | .infinite n, .finite n' m _ => if m = 0 then .nan else .infinite (n != n')
  | .infinite n, .infinite n' => .infinite (n != n')
  | _, _ => .nan

def div : Binary64 → Binary64 → Binary64
  | .finite n m e, .finite n' m' e' =>
    if m' = 0 then (if m = 0 then .nan else .infinite (n != n'))
    else if e < e' then roundQuotient (n != n') m (m' * Nat.pow 2 (e' - e).toNat)
    else roundQuotient (n != n') (m * Nat.pow 2 (e - e').toNat) m'
  | .finite n _ _, .infinite n' => zero (n != n')
  | .infinite n, .finite n' _ _ => .infinite (n != n')
  | _, _ => .nan

def isFinite : Binary64 → Bool
  | .finite .. => true
  | _ => false

def isZero : Binary64 → Bool
  | .finite _ significand _ => significand == 0
  | _ => false

def isNegative : Binary64 → Bool
  | .nan => false
  | .infinite negative => negative
  | .finite negative significand _ => negative && significand != 0

def wholePart? : Binary64 → Option Nat
  | .finite _ significand exponent =>
    if 0 ≤ exponent then some (significand * Nat.pow 2 exponent.toNat)
    else
      let unit := Nat.pow 2 (-exponent).toNat
      if significand % unit = 0 then some (significand / unit) else none
  | _ => none

/-- The sign, exponent and fraction fields of the interchange format, as one word. -/
def toBits : Binary64 → Nat
  | .nan => 0x7FF * hiddenBit + hiddenBit / 2
  | .infinite negative => (if negative then 9223372036854775808 else 0) + 0x7FF * hiddenBit
  | .finite negative significand exponent =>
    (if negative then 9223372036854775808 else 0) +
      if significand < hiddenBit then significand
      else (exponent - minExponent + 1).toNat * hiddenBit + (significand - hiddenBit)

end Binary64

end PhasedWorkload
