import PhasedWorkload.Document.Reader
import PhasedWorkload.Json.Reading
import PhasedWorkload.Plan.Basic
import PhasedWorkload.Toml.Reading

/-! # Reading plans

Each table of a plan is read field by field in the order of the file. A known field may come once; of a
key that is not known the last value is kept.
-/
namespace PhasedWorkload

inductive FileFormat where
  | json
  | toml
deriving DecidableEq, Repr

namespace FileFormat

def document : FileFormat → String → Document
  | .json => Json.read
  | .toml => Toml.read

def floatForm : FileFormat → FloatForm
  | .json => .data
  | .toml => .pointed

end FileFormat

namespace Block

/-- The fields of a block that have been read; an absent value that was read counts as read. -/
structure Fields where
  phase : Option (Option Nat) := none
  repeats : Option (Option Count) := none
  duration : Option (Option TimeSpan) := none
  rate : Option (Option Rate) := none
  limiterName : Option (Option String) := none
  skipFirst : Option Bool := none
  nop : Option (Option Bool) := none
  operation : Option (Option Value) := none
  extra : Members := []

namespace Fields

def field (f : Fields) (key : String) (n : Node) : Except ReadFault Fields :=
  match key with
  | "Phase" => do return { f with phase := ← Reader.once key f.phase (Reader.optional Reader.word) n }
  | "Repeat" => do return { f with repeats := ← Reader.once key f.repeats (Reader.optional Reader.count) n }
  | "Duration" => do return { f with duration := ← Reader.once key f.duration (Reader.optional Reader.timeSpan) n }
  | "Rate" => do return { f with rate := ← Reader.once key f.rate (Reader.optional Reader.rate) n }
  | "RateLimiterName" => do
    return { f with limiterName := ← Reader.once key f.limiterName (Reader.optional Reader.text) n }
  | "SkipFirstLoop" => do return { f with skipFirst := ← Reader.once key f.skipFirst Reader.bool n }
  | "Nop" | "nop" | "NoOp" | "noop" => do
    return { f with nop := ← Reader.once "Nop" f.nop (Reader.optional Reader.bool) n }
  | "Operation" => do return { f with operation := ← Reader.once key f.operation (Reader.optional Reader.value) n }
  | _ => do return { f with extra := f.extra.put key (← Reader.value n) }

def block (f : Fields) : Block :=
  { phase := f.phase.join
    repeats := f.repeats.join
    duration := f.duration.join
    rate := f.rate.join
    limiterName := f.limiterName.join
    skipFirst := f.skipFirst.getD false
    nop := f.nop.join
    operation := f.operation.join
    extra := f.extra }

end Fields

def reader : Reader Block := fun n =>
  (Reader.table "struct PhaseNode" {} Fields.field n).map Fields.block

end Block

namespace Entry

structure Fields where
  name : Option (Option String) := none
  type : Option String := none
  threads : Option Count := none
  blocks : Option (List Block) := none
  extra : Members := []

namespace Fields

def field (f : Fields) (key : String) (n : Node) : Except ReadFault Fields :=
  match key with
  | "Name" => do return { f with name := ← Reader.once key f.name (Reader.optional Reader.text) n }
  | "Type" => do return { f with type := ← Reader.once key f.type Reader.text n }
  | "Threads" => do return { f with threads := ← Reader.once key f.threads Reader.count n }
  | "Phases" => do return { f with blocks := ← Reader.once key f.blocks (Reader.list Block.reader) n }
  | _ => do return { f with extra := f.extra.put key (← Reader.value n) }

/-- The entry: its type has to be given, and there is one thread unless it says otherwise. -/
def entry (f : Fields) : Except ReadFault Entry := do
  return {
    givenName := f.name.join
    type := ← Reader.required "Type" f.type
    threads := f.threads.getD ⟨1⟩
    blocks := f.blocks.getD []
    extra := f.extra }

end Fields

def reader : Reader Entry := fun n =>
  (Reader.table "struct ActorConfig" {} Fields.field n).bind Fields.entry

end Entry

namespace Plan

structure Fields where
  schema : Option String := none
  entries : Option (List Entry) := none
  extra : Members := []

namespace Fields

def field (f : Fields) (key : String) (n : Node) : Except ReadFault Fields :=
  match key with
  | "SchemaVersion" => do return { f with schema := ← Reader.once key f.schema Reader.text n }
  | "Actors" => do return { f with entries := ← Reader.once key f.entries (Reader.list Entry.reader) n }
  | _ => do return { f with extra := f.extra.put key (← Reader.value n) }

def plan (f : Fields) : Except ReadFault Plan := do
  return {
    schema := ← Reader.required "SchemaVersion" f.schema
    entries := ← Reader.required "Actors" f.entries
    extra := f.extra }

end Fields

def reader : Reader Plan := fun n =>
  (Reader.table "struct WorkloadConfig" {} Fields.field n).bind Fields.plan

def read (format : FileFormat) (s : String) : Except ReadFault Plan :=
  Reader.document reader (format.document s)

end Plan

end PhasedWorkload
