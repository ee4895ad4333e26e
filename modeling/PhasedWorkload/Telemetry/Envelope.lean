import PhasedWorkload.Json.Selection
import PhasedWorkload.Telemetry.Event
import PhasedWorkload.Telemetry.Timestamp

/-! # Envelopes

An event travels in an envelope with an identifier and the time at which it occurred. An identifier is
128 bits in hexadecimal digits: bare, in five groups, or the groups in braces or after a scheme, whose
letters may be of either case. It is written in five lower-case groups.
-/
namespace PhasedWorkload.Telemetry

namespace Identifier

def groups : List Nat := [8, 4, 4, 4, 12]

def grouped : List Nat → List Char → List Char
  | [], _ => []
  | [size], cs => cs.take size
  | size :: sizes, cs => cs.take size ++ '-' :: grouped sizes (cs.drop size)

def ungrouped? (cs : List Char) : Option (List Char) :=
  let digits := cs.filter (· ≠ '-')
  if digits.length = 32 ∧ grouped groups digits = cs then some digits else none

def scheme : List Char := "urn:uuid:".toList

/-- The digits inside the wrapping of a text. -/
def digits? (cs : List Char) : Option (List Char) :=
  if cs.length = 32 then some cs
  else if cs.length = 36 then ungrouped? cs
  else if cs.length = 38 ∧ cs.head? = some '\x7b' ∧ cs.getLast? = some '\x7d' then
    ungrouped? (cs.drop 1).dropLast
  else if cs.length = 45 ∧ (cs.take 9).map Char.toLower = scheme then ungrouped? (cs.drop 9)
  else none

def normal? (s : String) : Option String :=
  (digits? s.toList).bind fun digits =>
    if digits.all fun c => (Text.hexValue? c).isSome then
      some (String.ofList (grouped groups (digits.map Char.toLower)))
    else none

end Identifier

structure Envelope where
  id : String
  timestamp : Timestamp
  event : Event
deriving DecidableEq, Repr

namespace Envelope

def toValue (e : Envelope) : Value :=
  .object [("event", e.event.toValue), ("id", .text e.id), ("timestamp", .text e.timestamp.render)]

def idReader : Reader String := fun n => do
  match Identifier.normal? (← Reader.textAs "a formatted UUID string" n) with
  | some id => .ok id
  | none => .error .grammar

def timestampReader : Reader Timestamp := fun n => do
  let s ← Reader.textAs "an RFC 3339 formatted date and time string" n
  match Timestamp.ofChars? s.toList with
  | some t => .ok t
  | none => .error .grammar

structure Fields where
  id : Option String := none
  timestamp : Option Timestamp := none
  event : Option Event := none

namespace Fields

def field (f : Fields) (key : String) (n : Node) : Except ReadFault Fields :=
  match key with
  | "id" => do return { f with id := ← Reader.once key f.id idReader n }
  | "timestamp" => do return { f with timestamp := ← Reader.once key f.timestamp timestampReader n }
  | "event" => do return { f with event := ← Reader.once key f.event Event.reader n }
  | _ => do
    let _ ← Reader.value n
    return f

def envelope (f : Fields) : Except ReadFault Envelope := do
  return ⟨← Reader.required "id" f.id, ← Reader.required "timestamp" f.timestamp,
    ← Reader.required "event" f.event⟩

end Fields

def fieldNames : List String := ["id", "timestamp", "event"]

/-- Reads an object, or a list of the three fields, which must end after them. -/
def reader : Reader Envelope
  | .list items closed => do
    let fields ← (fieldNames.zip items).foldlM (fun f member => Fields.field f member.1 member.2) {}
    if items.length < fieldNames.length then
      if closed then
        Reader.refuse (.invalidLength items.length ("struct EventEnvelope with " ++ elements fieldNames.length))
      else .error .grammar
    else if closed ∧ items.length = fieldNames.length then fields.envelope
    else .error .grammar
  | n => (Reader.table "struct EventEnvelope" {} Fields.field n).bind Fields.envelope

/-- Reads an envelope from its text, passing over what is not one of its fields. -/
def read (s : String) : Except ReadFault Envelope :=
  Reader.document reader (Json.readMembers fieldNames s)

end Envelope

end PhasedWorkload.Telemetry
