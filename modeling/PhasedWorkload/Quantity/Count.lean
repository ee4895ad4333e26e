import PhasedWorkload.Binary64.Reading
import PhasedWorkload.Quantity.Scalar
import PhasedWorkload.Quantity.Word
import PhasedWorkload.Text.Blank

/-! # Counts

A count is a 64-bit number. Its text is a run of digits, with underscores anywhere, or a decimal with
a power of ten, which is read as a double and has to be whole.
-/
namespace PhasedWorkload

structure Count where
  value : Nat
deriving DecidableEq, Repr, Inhabited

namespace Count

inductive Reason where
  | empty
  | negative
  | outOfRange
  | notNumber
  | notNonNegative
  | notWhole
deriving DecidableEq, Repr

def Reason.message : Reason → String
  | .empty => "is empty"
  | .negative => "must not be negative"
  | .outOfRange => "is out of range"
  | .notNumber => "is not a number"
  | .notNonNegative => "must be a non-negative number"
  | .notWhole => "must be a whole number"

structure ReadError where
  input : String
  reason : Reason
deriving DecidableEq, Repr

def ReadError.message (e : ReadError) : String :=
  "Invalid integer spec '" ++ e.input ++ "': " ++ e.reason.message

/-- A whole double up to two to the 64th is a count; that bound itself gives the largest count. -/
def ofBinary64? (x : Binary64) : Except Reason Count :=
  if !x.isFinite || x.isNegative then .error .notNonNegative
  else match x.wholePart? with
    | none => .error .notWhole
    | some n => if wordBound < n then .error .outOfRange else .ok ⟨min n (wordBound - 1)⟩

def ofChars? (cs : List Char) : Except Reason Count :=
  let cleaned := (Text.trim cs).filter (· ≠ '_')
  if cleaned.isEmpty then .error .empty
  else if cleaned.head? = some '-' then .error .negative
  else match Text.natOfDigits? cleaned with
    | some n => if n < wordBound then .ok ⟨n⟩ else .error .outOfRange
    | none =>
      if cleaned.any fun c => c = 'e' ∨ c = 'E' then
        match Binary64.readDecimal? cleaned with
        | some d => ofBinary64? d.toBinary64
        | none => .error .notNumber
      else .error .notNumber

def parse (s : String) : Except ReadError Count :=
  (ofChars? s.toList).mapError fun reason => ⟨s, reason⟩

def ofScalar : Scalar → Except ReadError Count
  | .int n => if n < 0 then .error ⟨toString n, .negative⟩ else .ok ⟨n.toNat⟩
  | .float x => (ofBinary64? x).mapError fun reason => ⟨x.toText, reason⟩
  | .text s => parse s

def render (n : Count) : String := toString n.value

/-- From small to large, equal counts once. -/
def sorted (ns : List Count) : List Count :=
  (ns.mergeSort fun a b => a.value ≤ b.value).eraseDups

end Count

end PhasedWorkload
