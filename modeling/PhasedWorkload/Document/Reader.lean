import PhasedWorkload.Document.Fault
import PhasedWorkload.Document.Node

/-! # Readers of trees

A reader turns a tree into a value of the domain or says what is wrong first in the order of the file.
Fields of a table are read as they come, a repeated field being refused before its value is looked at.
-/
namespace PhasedWorkload

abbrev Reader (α : Type) := Node → Except ReadFault α

namespace Node

/-- What a reader that wanted something else says about a node. -/
def found? : Node → Option Found
  | .null => some .null
  | .bool b => some (.bool b)
  | .int n => some (.int n)
  | .float x => some (.float x)
  | .text s => some (.text s)
  | .list .. => some .list
  | .table .. => some .table
  | .broken => none

end Node

namespace Reader

def refuse {α : Type} (fault : DataFault) : Except ReadFault α := .error (.data fault)

def mismatch {α : Type} (expected : String) (n : Node) : Except ReadFault α :=
  match n.found? with
  | some found => refuse (.invalidType found expected)
  | none => .error .grammar

def textAs (expected : String) : Reader String
  | .text s => .ok s
  | n => mismatch expected n

def text : Reader String := textAs "a string"

def bool : Reader Bool
  | .bool b => .ok b
  | n => mismatch "a boolean" n

def integer (low high : Int) (name : String) : Reader Int
  | .int n => if low ≤ n ∧ n ≤ high then .ok n else refuse (.invalidValue (.int n) name)
  | n => mismatch name n

def word : Reader Nat := fun n => (integer 0 (wordBound - 1) "u64" n).map Int.toNat

def signed : Reader Int := integer minSigned maxSigned "i64"

def byte : Reader Nat := fun n => (integer 0 255 "u8" n).map Int.toNat

def float : Reader Binary64
  | .float x => .ok x
  | .int n => .ok (Binary64.ofInt n)
  | n => mismatch "f64" n

def value : Reader Value := fun n =>
  match n.toValue? with
  | some v => .ok v
  | none => .error .grammar

def optional {α : Type} (read : Reader α) : Reader (Option α)
  | .null => .ok none
  | n => (read n).map some

/-- The items of a list in order; a list that is not closed breaks off after them. -/
def list {α : Type} (read : Reader α) : Reader (List α)
  | .list items closed => do
    let values ← items.mapM read
    if closed then .ok values else .error .grammar
  | n => mismatch "a sequence" n

/-- An integer of the signed range, else a number as a double, else a text. -/
def scalar : Reader Scalar := fun n =>
  match n with
  | .int i => .ok (if minSigned ≤ i ∧ i ≤ maxSigned then .int i else .float (Binary64.ofInt i))
  | .float x => .ok (.float x)
  | .text s => .ok (.text s)
  | n => if n.toValue?.isSome then refuse .noScalar else .error .grammar

def timeSpan : Reader TimeSpan := fun n => do
  (TimeSpan.ofScalar (← scalar n)).mapError fun cause => .data (.timeSpan cause)

def count : Reader Count := fun n => do
  (Count.ofScalar (← scalar n)).mapError fun cause => .data (.count cause)

def rate : Reader Rate := fun n => do
  (Rate.parse (← text n)).mapError fun cause => .data (.rate cause)

def table {σ : Type} (expected : String) (start : σ) (field : σ → String → Node → Except ReadFault σ) :
    Reader σ
  | .table members closed => do
    let final ← members.foldlM (fun s member => field s member.1 member.2) start
    if closed then .ok final else .error .grammar
  | n => mismatch expected n

def once {α : Type} (name : String) (seen : Option α) (read : Reader α) (n : Node) :
    Except ReadFault (Option α) :=
  if seen.isSome then refuse (.duplicateField name) else (read n).map some

def required {α : Type} (name : String) : Option α → Except ReadFault α
  | some a => .ok a
  | none => refuse (.missingField name)

/-- Reads a whole document: after its tree nothing may follow. -/
def document {α : Type} (read : Reader α) (d : Document) : Except ReadFault α := do
  let a ← read d.root
  if d.trailing then .error .grammar else .ok a

end Reader

end PhasedWorkload
