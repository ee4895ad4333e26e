/-! # Ranges of machine integers

Counts, identifiers and clock readings are plain numbers; these are the ranges a reader accepts. Sums are
plain numbers too: every total that a run builds up is taken to stay below `wordBound`, so that no
addition of machine words overflows. Where a sum or a product saturates or is refused, its definition
says so.
-/
namespace PhasedWorkload

def wordBound : Nat := 18446744073709551616

def maxSigned : Int := 9223372036854775807

def minSigned : Int := -9223372036854775808

/-- The nearest signed value. -/
def saturate (n : Int) : Int := if maxSigned < n then maxSigned else if n < minSigned then minSigned else n

theorem saturate_of_mem {n : Int} (low : minSigned ≤ n) (high : n ≤ maxSigned) : saturate n = n := by
  unfold saturate
  split
  · omega
  · split
    · omega
    · rfl

end PhasedWorkload
