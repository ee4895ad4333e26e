import PhasedWorkload.Json.Number
import PhasedWorkload.Text.Hex

/-! # Tokens of JSON text

The tokens of a text up to its first lexical fault, which is a token of its own. Blanks between tokens
are the space, the tab and the two line ends. Some numbers and texts follow the grammar and yet have no
value: a number beyond the range of doubles, and a text whose escapes leave a surrogate without its
other half. They are tokens too, since a value that nobody asks for may hold them.
-/
namespace PhasedWorkload.Json

inductive Token where
  | openList
  | closeList
  | openTable
  | closeTable
  | colon
  | comma
  | null
  | bool (value : Bool)
  | number (value : Number)
  /-- a number beyond the range of doubles -/
  | vastNumber
  | text (value : String)
  /-- a text with half a surrogate pair -/
  | unpairedText
  | fault
deriving DecidableEq, Repr

def isSpace (c : Char) : Bool := c = ' ' || c = '\t' || c = '\n' || c = '\r'

open Text (hexNumber?)

def spanHex? : List Char → Option (Nat × List Char)
  | a :: b :: c :: d :: rest => (hexNumber? [a, b, c, d]).map fun n => (n, rest)
  | _ => none

/-- The character of an escape by code units: one unit outside the surrogates, or a high and a low
surrogate in two escapes. -/
def spanUnits? (cs : List Char) : Option (Char × List Char) := do
  let (unit, rest) ← spanHex? cs
  if unit < 0xD800 ∨ 0xDFFF < unit then return (Char.ofNat unit, rest)
  else if 0xDBFF < unit then none
  else match rest with
    | '\\' :: 'u' :: rest =>
      let (low, rest) ← spanHex? rest
      if 0xDC00 ≤ low ∧ low ≤ 0xDFFF then
        return (Char.ofNat (0x10000 + (unit - 0xD800) * 0x400 + (low - 0xDC00)), rest)
      else none
    | _ => none

def spanEscape? : List Char → Option (Char × List Char)
  | '"' :: rest => some ('"', rest)
  | '\\' :: rest => some ('\\', rest)
  | '/' :: rest => some ('/', rest)
  | 'b' :: rest => some ('\x08', rest)
  | 'f' :: rest => some ('\x0c', rest)
  | 'n' :: rest => some ('\n', rest)
  | 'r' :: rest => some ('\r', rest)
  | 't' :: rest => some ('\t', rest)
  | 'u' :: rest => spanUnits? rest
  | _ => none

def spanText? : Nat → List Char → Option (List Char × List Char)
  | 0, _ => none
  | _, [] => none
  | fuel + 1, c :: rest =>
    if c = '"' then some ([], rest)
    else if c = '\\' then do
      let (escaped, rest) ← spanEscape? rest
      let (more, rest) ← spanText? fuel rest
      return (escaped :: more, rest)
    else if c.toNat < 0x20 then none
    else do
      let (more, rest) ← spanText? fuel rest
      return (c :: more, rest)

/-- The rest after the closing quote of a text, whatever its escapes by code units stand for. -/
def afterText? : List Char → Option (List Char)
  | [] => none
  | '"' :: rest => some rest
  | '\\' :: 'u' :: a :: b :: c :: d :: rest =>
    if (hexNumber? [a, b, c, d]).isSome then afterText? rest else none
  | '\\' :: c :: rest => if c ∈ ['"', '\\', '/', 'b', 'f', 'n', 'r', 't'] then afterText? rest else none
  | c :: rest => if c.toNat < 0x20 then none else afterText? rest

def spanTextToken? (cs : List Char) : Option (Token × List Char) :=
  match spanText? (cs.length + 1) cs with
  | some (s, rest) => some (.text (String.ofList s), rest)
  | none => (afterText? cs).map fun rest => (.unpairedText, rest)

def spanNumberToken? (negative : Bool) (cs : List Char) : Option (Token × List Char) :=
  match spanNumber? negative cs with
  | some (n, rest) => some (.number n, rest)
  | none => (afterNumber? cs).map fun rest => (.vastNumber, rest)

/-- The token at the front of a text that starts with no blank. -/
def spanToken? : List Char → Option (Token × List Char)
  | [] => none
  | '[' :: rest => some (.openList, rest)
  | ']' :: rest => some (.closeList, rest)
  | '\x7b' :: rest => some (.openTable, rest)
  | '\x7d' :: rest => some (.closeTable, rest)
  | ':' :: rest => some (.colon, rest)
  | ',' :: rest => some (.comma, rest)
  | 'n' :: 'u' :: 'l' :: 'l' :: rest => some (.null, rest)
  | 't' :: 'r' :: 'u' :: 'e' :: rest => some (.bool true, rest)
  | 'f' :: 'a' :: 'l' :: 's' :: 'e' :: rest => some (.bool false, rest)
  | '"' :: rest => spanTextToken? rest
  | '-' :: rest => spanNumberToken? true rest
  | cs => spanNumberToken? false cs

def tokensWithin : Nat → List Char → List Token
  | 0, _ => []
  | fuel + 1, cs =>
    match cs.dropWhile isSpace with
    | [] => []
    | rest => match spanToken? rest with
      | some (token, rest) => token :: tokensWithin fuel rest
      | none => [.fault]

def tokens (s : String) : List Token := tokensWithin (s.length + 1) s.toList

end PhasedWorkload.Json
