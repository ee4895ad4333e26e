import PhasedWorkload.Document.Node
import PhasedWorkload.Json.Token

/-! # Trees of JSON text

The tokens are folded into a stack of open lists and tables. A token that the grammar does not allow
ends the tree where it stands; what is open then stays open.
-/
namespace PhasedWorkload.Json

/-- An open list or table, its parts in reverse; a table may have read a key without its value. -/
inductive Frame where
  | list (items : List Node)
  | table (members : List (String × Node)) (key : Option String)
deriving Repr

inductive Expectation where
  | value
  | valueOrClose
  | commaOrClose
  | key
  | keyOrClose
  | colon
  | ending
deriving DecidableEq, Repr

structure Builder where
  frames : List Frame := []
  expectation : Expectation := .value
  root : Option Node := none
  faulted : Bool := false
deriving Repr

/-- Lists and tables may be open inside each other up to this depth. -/
def maxDepth : Nat := 127

namespace Builder

def fail (b : Builder) : Builder := { b with faulted := true }

def place (b : Builder) (n : Node) : Builder :=
  match b.frames with
  | [] => { b with root := some n, expectation := .ending }
  | .list items :: frames => { b with frames := .list (n :: items) :: frames, expectation := .commaOrClose }
  | .table members (some key) :: frames =>
    { b with frames := .table ((key, n) :: members) none :: frames, expectation := .commaOrClose }
  | .table _ none :: _ => b.fail

def openFrame (b : Builder) (frame : Frame) (expectation : Expectation) : Builder :=
  if b.frames.length < maxDepth then { b with frames := frame :: b.frames, expectation := expectation }
  else b.fail

def close (b : Builder) (isList : Bool) : Builder :=
  match b.frames, isList with
  | .list items :: frames, true => { b with frames := frames }.place (.list items.reverse true)
  | .table members none :: frames, false => { b with frames := frames }.place (.table members.reverse true)
  | _, _ => b.fail

def comma (b : Builder) : Builder :=
  match b.frames with
  | .list _ :: _ => { b with expectation := .value }
  | .table .. :: _ => { b with expectation := .key }
  | [] => b.fail

def key (b : Builder) (s : String) : Builder :=
  match b.frames with
  | .table members _ :: frames => { b with frames := .table members (some s) :: frames, expectation := .colon }
  | _ => b.fail

def value (b : Builder) : Token → Builder
  | .openList => b.openFrame (.list []) .valueOrClose
  | .openTable => b.openFrame (.table [] none) .keyOrClose
  | .null => b.place .null
  | .bool v => b.place (.bool v)
  | .number (.int n) => b.place (.int n)
  | .number (.float x) => b.place (.float x)
  | .text s => b.place (.text s)
  | _ => b.fail

def step (b : Builder) (t : Token) : Builder :=
  if b.faulted then b
  else match b.expectation, t with
    | .valueOrClose, .closeList => b.close true
    | .value, t => b.value t
    | .valueOrClose, t => b.value t
    | .commaOrClose, .comma => b.comma
    | .commaOrClose, .closeList => b.close true
    | .commaOrClose, .closeTable => b.close false
    | .keyOrClose, .closeTable => b.close false
    | .keyOrClose, .text s => b.key s
    | .key, .text s => b.key s
    | .colon, .colon => { b with expectation := .value }
    | _, _ => b.fail

/-- The tree of what is open, around the part that could not be read. -/
def unfinished : List Frame → Option Node → Node
  | [], inner => inner.getD .broken
  | .list items :: frames, inner => unfinished frames (some (.list (inner.toList ++ items).reverse false))
  | .table members key :: frames, inner =>
    let last := key.map fun k => (k, inner.getD .broken)
    unfinished frames (some (.table (last.toList ++ members).reverse false))

def document (b : Builder) : Document :=
  match b.root with
  | some root => ⟨root, b.faulted⟩
  | none => ⟨unfinished b.frames none, false⟩

end Builder

def ofTokens (tokens : List Token) : Document := (tokens.foldl Builder.step {}).document

def read (s : String) : Document := ofTokens (tokens s)

end PhasedWorkload.Json
