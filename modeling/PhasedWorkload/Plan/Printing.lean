import PhasedWorkload.Plan.Basic

/-! # Values of plans

The value from which a plan is read again: absent optional fields are left out, quantities are in their
printed form.
-/
namespace PhasedWorkload

/-- A member that is present only if there is a value for it. -/
def memberOf? {α : Type} (key : String) (toValue : α → Value) (a : Option α) : List (String × Value) :=
  (a.map fun a => (key, toValue a)).toList

namespace Block

def toValue (b : Block) : Value :=
  .object (Members.ofList (
    memberOf? "Phase" (fun (n : Nat) => .int n) b.phase ++
    memberOf? "Repeat" (fun (n : Count) => .int n.value) b.repeats ++
    memberOf? "Duration" (fun t => .text t.render) b.duration ++
    memberOf? "Rate" (fun r => .text r.render) b.rate ++
    memberOf? "RateLimiterName" .text b.limiterName ++
    [("SkipFirstLoop", .bool b.skipFirst)] ++
    memberOf? "Nop" .bool b.nop ++
    memberOf? "Operation" id b.operation ++
    b.extra))

end Block

def Entry.toValue (e : Entry) : Value :=
  .object (Members.ofList (
    memberOf? "Name" .text e.givenName ++
    [("Type", .text e.type), ("Threads", .int e.threads.value),
      ("Phases", .list (e.blocks.map Block.toValue))] ++
    e.extra))

def Plan.toValue (p : Plan) : Value :=
  .object (Members.ofList (
    [("SchemaVersion", .text p.schema), ("Actors", .list (p.entries.map Entry.toValue))] ++ p.extra))

end PhasedWorkload
