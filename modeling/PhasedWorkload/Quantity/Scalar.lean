import PhasedWorkload.Binary64.Shortest

/-! # Scalars of a plan

A duration or a count may be given as an integer, a double or a text.
-/
namespace PhasedWorkload

inductive Scalar where
  | int (value : Int)
  | float (value : Binary64)
  | text (value : String)
deriving DecidableEq, Repr

end PhasedWorkload
