import PhasedWorkload.Json.Reading

/-! # Reading the members that are asked for

A reader that needs only some members of the outermost table passes over the values of the others. Such
a value has to follow the grammar and nothing more: its numbers may be of any size, its texts may hold
half of a surrogate pair, and its lists and tables may be open inside each other to any depth. In the
tree it is null.
-/
namespace PhasedWorkload.Json

/-- A value that is passed over: which of its open parts are lists, the innermost first, and what the
grammar allows next. -/
structure Passage where
  nesting : List Bool := []
  expectation : Expectation := .value
deriving DecidableEq, Repr

namespace Passage

def pass (nesting : List Bool) : Passage :=
  ⟨nesting, if nesting.isEmpty then .ending else .commaOrClose⟩

def hasEnded (p : Passage) : Bool := p.expectation = .ending

def value? (p : Passage) : Token → Option Passage
  | .openList => some ⟨true :: p.nesting, .valueOrClose⟩
  | .openTable => some ⟨false :: p.nesting, .keyOrClose⟩
  | .null | .bool _ | .number _ | .vastNumber | .text _ | .unpairedText => some (pass p.nesting)
  | _ => none

def close? (p : Passage) (isList : Bool) : Option Passage :=
  match p.nesting with
  | innermost :: nesting => if innermost = isList then some (pass nesting) else none
  | [] => none

def comma (p : Passage) : Passage :=
  { p with expectation := if p.nesting.headD true then .value else .key }

def step? (p : Passage) (t : Token) : Option Passage :=
  match p.expectation, t with
  | .valueOrClose, .closeList => p.close? true
  | .value, t => p.value? t
  | .valueOrClose, t => p.value? t
  | .commaOrClose, .comma => some p.comma
  | .commaOrClose, .closeList => p.close? true
  | .commaOrClose, .closeTable => p.close? false
  | .keyOrClose, .closeTable => p.close? false
  | .keyOrClose, .text _ | .keyOrClose, .unpairedText => some { p with expectation := .colon }
  | .key, .text _ | .key, .unpairedText => some { p with expectation := .colon }
  | .colon, .colon => some { p with expectation := .value }
  | _, _ => none

end Passage

def Builder.awaitsOther (keys : List String) (b : Builder) : Bool :=
  match b.faulted, b.expectation, b.frames with
  | false, .value, [.table _ (some key)] => !keys.contains key
  | _, _, _ => false

/-- A tree in the making, and the value that is passed over meanwhile. -/
structure Selector where
  builder : Builder := {}
  passage : Option Passage := none
deriving Repr

namespace Selector

def take (keys : List String) (b : Builder) (t : Token) : Selector :=
  let next := b.step t
  ⟨next, if next.awaitsOther keys then some {} else none⟩

def step (keys : List String) (s : Selector) (t : Token) : Selector :=
  match s.passage with
  | none => take keys s.builder t
  | some p => match p.step? t with
    | none => ⟨s.builder.fail, none⟩
    | some p => if p.hasEnded then take keys s.builder .null else { s with passage := some p }

end Selector

/-- Reads a text of which only the outermost members with these keys are asked for. -/
def readMembers (keys : List String) (s : String) : Document :=
  ((tokens s).foldl (Selector.step keys) {}).builder.document

end PhasedWorkload.Json
