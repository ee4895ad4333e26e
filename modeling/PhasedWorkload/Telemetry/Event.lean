import PhasedWorkload.Document.Reader

/-! # Events of a run

Actors report when they start, when they return and what became of each operation; the run reports why
it was aborted. An event is written as an object with a member that names its kind. It is read from that
form, or from a list of the kind and the fields in order.

The numbers of an event fit a machine word, which its reader checks. Their sums are plain numbers.
-/
namespace PhasedWorkload.Telemetry

/-- What one operation did. -/
structure Measure where
  documents : Nat := 0
  bytes : Nat := 0
  micros : Nat := 0
deriving DecidableEq, Repr, Inhabited

inductive Event where
  | actorStarted (actor : String) (id : Nat)
  | actorFinished (actor : String) (id : Nat) (success : Bool)
  | operationCompleted (actor : String) (id : Nat) (operation : String) (measure : Measure)
  | operationFailed (actor : String) (id : Nat) (operation : String) (measure : Measure) (error : String)
  | runAborted (reason : String)
  | error (message : String) (context : Option String)
deriving DecidableEq, Repr

namespace Measure

/-- The sums are exact: each is taken to stay below `wordBound`, where a machine word holds it. -/
def add (a b : Measure) : Measure := ⟨a.documents + b.documents, a.bytes + b.bytes, a.micros + b.micros⟩

def toValue (m : Measure) : Value :=
  .object [("bytes", .int m.bytes), ("documents", .int m.documents), ("duration_us", .int m.micros)]

structure Fields where
  documents : Option Nat := none
  bytes : Option Nat := none
  micros : Option Nat := none

def fieldNames : List String := ["documents", "bytes", "duration_us"]

def Fields.field (f : Fields) (key : String) (n : Node) : Except ReadFault Fields :=
  match key with
  | "documents" => do return { f with documents := ← Reader.once key f.documents Reader.word n }
  | "bytes" => do return { f with bytes := ← Reader.once key f.bytes Reader.word n }
  | "duration_us" => do return { f with micros := ← Reader.once key f.micros Reader.word n }
  | _ => .ok f

def Fields.measure (f : Fields) : Except ReadFault Measure := do
  return ⟨← Reader.required "documents" f.documents, ← Reader.required "bytes" f.bytes,
    ← Reader.required "duration_us" f.micros⟩

end Measure

def elements (count : Nat) : String := toString count ++ if count = 1 then " element" else " elements"

/-- Reads fields by position; there have to be as many as names. -/
def readPositions {σ : Type} (owner : String) (names : List String) (start : σ)
    (field : σ → String → Node → Except ReadFault σ) (items : List Node) : Except ReadFault σ := do
  let final ← (names.zip items).foldlM (fun s member => field s member.1 member.2) start
  if items.length < names.length then
    Reader.refuse (.invalidLength items.length (owner ++ " with " ++ elements names.length))
  else if names.length < items.length then
    Reader.refuse (.invalidLength items.length (elements names.length ++ " in sequence"))
  else .ok final

def Measure.reader : Reader Measure
  | .list items closed =>
    if closed then
      (readPositions "struct OperationData" fieldNames {} Fields.field items).bind Fields.measure
    else .error .grammar
  | n => (Reader.table "struct OperationData" {} Fields.field n).bind Fields.measure

namespace Event

def actorId? : Event → Option Nat
  | .actorStarted _ id | .actorFinished _ id _ | .operationCompleted _ id _ _
  | .operationFailed _ id _ _ _ => some id
  | .runAborted _ | .error .. => none

inductive Kind where
  | actorStarted
  | actorFinished
  | operationCompleted
  | operationFailed
  | runAborted
  | failure
deriving DecidableEq, Repr

namespace Kind

def all : List Kind :=
  [.actorStarted, .actorFinished, .operationCompleted, .operationFailed, .runAborted, .failure]

def name : Kind → String
  | .actorStarted => "actor.started"
  | .actorFinished => "actor.finished"
  | .operationCompleted => "operation.completed"
  | .operationFailed => "operation.failed"
  | .runAborted => "run.aborted"
  | .failure => "error"

def title : Kind → String
  | .actorStarted => "struct variant Event::ActorStarted"
  | .actorFinished => "struct variant Event::ActorFinished"
  | .operationCompleted => "struct variant Event::OperationCompleted"
  | .operationFailed => "struct variant Event::OperationFailed"
  | .runAborted => "struct variant Event::RunAborted"
  | .failure => "struct variant Event::Error"

def fieldNames : Kind → List String
  | .actorStarted => ["actor", "actor_id"]
  | .actorFinished => ["actor", "actor_id", "success"]
  | .operationCompleted => ["actor", "actor_id", "operation", "data"]
  | .operationFailed => ["actor", "actor_id", "operation", "data", "error"]
  | .runAborted => ["reason"]
  | .failure => ["message", "context"]

def reader : Reader Kind := fun n => do
  let found ← Reader.textAs "variant identifier" n
  match all.find? fun kind => kind.name = found with
  | some kind => .ok kind
  | none => Reader.refuse (.unknownVariant found (all.map name))

end Kind

def kind : Event → Kind
  | .actorStarted .. => .actorStarted
  | .actorFinished .. => .actorFinished
  | .operationCompleted .. => .operationCompleted
  | .operationFailed .. => .operationFailed
  | .runAborted _ => .runAborted
  | .error .. => .failure

def toValue (e : Event) : Value :=
  let fields : List (String × Value) := match e with
    | .actorStarted actor id => [("actor", .text actor), ("actor_id", .int id)]
    | .actorFinished actor id success =>
      [("actor", .text actor), ("actor_id", .int id), ("success", .bool success)]
    | .operationCompleted actor id operation measure =>
      [("actor", .text actor), ("actor_id", .int id), ("operation", .text operation), ("data", measure.toValue)]
    | .operationFailed actor id operation measure cause =>
      [("actor", .text actor), ("actor_id", .int id), ("operation", .text operation), ("data", measure.toValue),
        ("error", .text cause)]
    | .runAborted reason => [("reason", .text reason)]
    | .error message context =>
      [("message", .text message), ("context", (context.map Value.text).getD .null)]
  .object (Members.ofList (("type", .text e.kind.name) :: fields))

structure Fields where
  actor : Option String := none
  id : Option Nat := none
  success : Option Bool := none
  operation : Option String := none
  measure : Option Measure := none
  error : Option String := none
  reason : Option String := none
  message : Option String := none
  context : Option (Option String) := none

namespace Fields

/-- Reads a field of a kind; the kind's other members are passed over. -/
def field (kind : Kind) (f : Fields) (key : String) (n : Node) : Except ReadFault Fields :=
  if !kind.fieldNames.contains key then .ok f
  else match key with
    | "actor" => do return { f with actor := ← Reader.once key f.actor Reader.text n }
    | "actor_id" => do return { f with id := ← Reader.once key f.id Reader.word n }
    | "success" => do return { f with success := ← Reader.once key f.success Reader.bool n }
    | "operation" => do return { f with operation := ← Reader.once key f.operation Reader.text n }
    | "data" => do return { f with measure := ← Reader.once key f.measure Measure.reader n }
    | "error" => do return { f with error := ← Reader.once key f.error Reader.text n }
    | "reason" => do return { f with reason := ← Reader.once key f.reason Reader.text n }
    | "message" => do return { f with message := ← Reader.once key f.message Reader.text n }
    | _ => do return { f with context := ← Reader.once key f.context (Reader.optional Reader.text) n }

/-- The event of a kind, every field but the context being required. -/
def event (f : Fields) : Kind → Except ReadFault Event
  | .actorStarted => do
    return .actorStarted (← Reader.required "actor" f.actor) (← Reader.required "actor_id" f.id)
  | .actorFinished => do
    return .actorFinished (← Reader.required "actor" f.actor) (← Reader.required "actor_id" f.id)
      (← Reader.required "success" f.success)
  | .operationCompleted => do
    return .operationCompleted (← Reader.required "actor" f.actor) (← Reader.required "actor_id" f.id)
      (← Reader.required "operation" f.operation) (← Reader.required "data" f.measure)
  | .operationFailed => do
    return .operationFailed (← Reader.required "actor" f.actor) (← Reader.required "actor_id" f.id)
      (← Reader.required "operation" f.operation) (← Reader.required "data" f.measure)
      (← Reader.required "error" f.error)
  | .runAborted => do return .runAborted (← Reader.required "reason" f.reason)
  | .failure => do return .error (← Reader.required "message" f.message) f.context.join

end Fields

/-- The kind of an object and its other members, which are only looked at once all have been read. -/
def tagged (members : List (String × Node)) : Except ReadFault (Option Kind × List (String × Node)) :=
  members.foldlM (fun (kind, rest) member => do
    if member.1 = "type" then return (← Reader.once "type" kind Kind.reader member.2, rest)
    else
      let _ ← Reader.value member.2
      return (kind, rest ++ [member])) (none, [])

def reader : Reader Event
  | .table members closed => do
    let (kind, rest) ← tagged members
    if !closed then .error .grammar
    else
      let kind ← Reader.required "type" kind
      let fields ← rest.foldlM (fun f member => Fields.field kind f member.1 member.2) {}
      fields.event kind
  | .list items closed => do
    match items with
    | [] => if closed then Reader.refuse (.missingField "type") else .error .grammar
    | first :: rest =>
      let kind ← Kind.reader first
      let _ ← rest.mapM Reader.value
      if !closed then .error .grammar
      else
        let fields ← readPositions kind.title kind.fieldNames {} (Fields.field kind) rest
        fields.event kind
  | n => Reader.mismatch "internally tagged enum Event" n

end Event

end PhasedWorkload.Telemetry
