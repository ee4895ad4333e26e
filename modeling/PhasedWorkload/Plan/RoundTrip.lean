import PhasedWorkload.Json.Printing
import PhasedWorkload.Plan.Printing
import PhasedWorkload.Plan.Reading

/-! # Plans written and read again

A plan is written as JSON text and read back. Whether the second plan is written the same is a property
of the plan: doubles of a plan are read with two roundings.
-/
namespace PhasedWorkload.Plan

def render (p : Plan) : String := Json.render p.toValue

/-- Whether the plan that is read from the text is written as this plan is. -/
def survivesPrinting (p : Plan) : Except ReadFault Bool :=
  (read .json p.render).map fun q => p.toValue.same q.toValue

end PhasedWorkload.Plan
