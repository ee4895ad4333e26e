import PhasedWorkload.Document.Value

/-! # JSON text of values

The compact form: no blanks, members in the order of the keys, only what has to be escaped escaped.
-/
namespace PhasedWorkload.Json

def hexDigit (n : Nat) : Char := Nat.digitChar n

/-- The written form of one character inside quotes. -/
def escapedChar (c : Char) : List Char :=
  if c = '"' then ['\\', '"']
  else if c = '\\' then ['\\', '\\']
  else if c = '\x08' then ['\\', 'b']
  else if c = '\x0c' then ['\\', 'f']
  else if c = '\n' then ['\\', 'n']
  else if c = '\r' then ['\\', 'r']
  else if c = '\t' then ['\\', 't']
  else if c.toNat < 0x20 then ['\\', 'u', '0', '0', hexDigit (c.toNat / 16), hexDigit (c.toNat % 16)]
  else [c]

def renderText (s : String) : List Char := '"' :: s.toList.flatMap escapedChar ++ ['"']

def renderChars : Value → List Char
  | .null => "null".toList
  | .bool b => if b then "true".toList else "false".toList
  | .int n => (toString n).toList
  | .float x => x.toDataText.toList
  | .text s => renderText s
  | .list items => '[' :: renderItems items ++ [']']
  | .object members => '\x7b' :: renderMembers members ++ ['\x7d']
where
  renderItems : List Value → List Char
    | [] => []
    | [v] => renderChars v
    | v :: vs => renderChars v ++ ',' :: renderItems vs
  renderMembers : List (String × Value) → List Char
    | [] => []
    | [(k, v)] => renderText k ++ ':' :: renderChars v
    | (k, v) :: vs => renderText k ++ ':' :: renderChars v ++ ',' :: renderMembers vs

def render (v : Value) : String := String.ofList (renderChars v)

end PhasedWorkload.Json
