import PhasedWorkload.Binary64.Basic
import PhasedWorkload.Text.DecimalDigit

/-! # Decimal numbers in text

A decimal is an optional sign, digits with an optional point among or beside them, and an optional
power of ten. It denotes an exact number; reading a double rounds that number once.
-/
namespace PhasedWorkload.Binary64

/-- The exact number `(-1) ^ negative * digits * 10 ^ exponent`. -/
structure DecimalText where
  negative : Bool
  digits : Nat
  exponent : Int
deriving DecidableEq, Repr

def spanDigits (cs : List Char) : List Char × List Char :=
  (cs.takeWhile Char.isDigit, cs.dropWhile Char.isDigit)

def spanSign : List Char → Bool × List Char
  | '-' :: rest => (true, rest)
  | '+' :: rest => (false, rest)
  | cs => (false, cs)

def readPower? : List Char → Option Int
  | [] => some 0
  | c :: rest =>
    if c = 'e' ∨ c = 'E' then
      let (negative, digits) := spanSign rest
      (Text.natOfDigits? digits).map fun n => if negative then -(n : Int) else n
    else none

def readDecimal? (cs : List Char) : Option DecimalText :=
  let (negative, unsigned) := spanSign cs
  let (whole, afterWhole) := spanDigits unsigned
  let (fraction, afterFraction) := match afterWhole with
    | '.' :: rest => spanDigits rest
    | rest => ([], rest)
  if whole.isEmpty && fraction.isEmpty then none
  else (readPower? afterFraction).map fun power =>
    ⟨negative, Nat.ofDigitChars 10 (whole ++ fraction) 0, power - fraction.length⟩

/-- The nearest double. Beyond a thousand places on either side of the point the answer is settled
without forming the power of ten. -/
def DecimalText.toBinary64 (d : DecimalText) : Binary64 :=
  let leading := d.exponent + (Nat.toDigits 10 d.digits).length
  if d.digits = 0 ∨ leading < -1000 then zero d.negative
  else if 1000 < leading then .infinite d.negative
  else roundScaled d.negative d.digits 10 d.exponent

end PhasedWorkload.Binary64
