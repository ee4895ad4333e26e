import PhasedWorkload.Binary64.Reading
import PhasedWorkload.Document.Node
import PhasedWorkload.Text.Hex
import PhasedWorkload.Text.Scan

/-! # Keys, texts, numbers and dates

The scanners of the parts of a line. None of them takes anything that does not follow the grammar.
-/
namespace PhasedWorkload.Toml

open Text (Scan expect)

def isSpace (c : Char) : Bool := c = ' ' || c = '\t'

def skipSpace (cs : List Char) : List Char := cs.dropWhile isSpace

def newline? : List Char → Option (List Char)
  | '\n' :: rest => some rest
  | '\r' :: '\n' :: rest => some rest
  | _ => none

/-- A character that may stand in a comment or a text as it is: the tab and all that is no control. -/
def isPlain (c : Char) : Bool := c = '\t' || (0x20 ≤ c.toNat && c.toNat ≠ 0x7F)

def skipComment (cs : List Char) : List Char :=
  match skipSpace cs with
  | '#' :: rest => rest.dropWhile isPlain
  | rest => rest

/-- Skips blanks and a comment, and the line end that must follow; the end of the text is one. -/
def endLine? (cs : List Char) : Option (List Char) :=
  match skipComment cs with
  | [] => some []
  | rest => newline? rest

def skipLines : Nat → List Char → List Char
  | 0, cs => cs
  | fuel + 1, cs =>
    match newline? (skipComment cs) with
    | some rest => skipLines fuel rest
    | none => skipSpace cs

def escape? : Scan Char
  | 'b' :: rest => some ('\x08', rest)
  | 't' :: rest => some ('\t', rest)
  | 'n' :: rest => some ('\n', rest)
  | 'f' :: rest => some ('\x0c', rest)
  | 'r' :: rest => some ('\r', rest)
  | '"' :: rest => some ('"', rest)
  | '\\' :: rest => some ('\\', rest)
  | 'u' :: rest => scalar? 4 rest
  | 'U' :: rest => scalar? 8 rest
  | _ => none
where
  scalar? (count : Nat) : Scan Char := fun cs =>
    if cs.length < count then none
    else (Text.hexNumber? (cs.take count)).bind fun code =>
      if code.isValidChar then some (Char.ofNat code, cs.drop count) else none

def basicText? : Nat → Scan (List Char)
  | 0, _ => none
  | _, [] => none
  | fuel + 1, c :: rest =>
    if c = '"' then some ([], rest)
    else if c = '\\' then do
      let (escaped, rest) ← escape? rest
      let (more, rest) ← basicText? fuel rest
      return (escaped :: more, rest)
    else if isPlain c then do
      let (more, rest) ← basicText? fuel rest
      return (c :: more, rest)
    else none

def literalText? : Scan (List Char) := fun cs =>
  let body := cs.takeWhile fun c => isPlain c && c ≠ '\''
  (expect '\'' (cs.drop body.length)).map fun rest => (body, rest)

/-- Takes the quotes that end a text of several lines: three, and up to two more that belong to it. -/
def closing? (quote : Char) (cs : List Char) : Option (List Char × List Char) :=
  let count := (cs.takeWhile (· = quote)).length
  if count < 3 then none
  else
    let extra := min (count - 3) 2
    some (List.replicate extra quote, cs.drop (extra + 3))

def skipEmptyLines : Nat → List Char → List Char
  | 0, cs => cs
  | fuel + 1, cs =>
    match newline? (skipSpace cs) with
    | some rest => skipEmptyLines fuel rest
    | none => skipSpace cs

/-- Skips the blanks around line ends after a backslash; at least one line end must come. -/
def skipContinuation? (cs : List Char) : Option (List Char) :=
  (newline? (skipSpace cs)).map fun rest => skipEmptyLines (rest.length + 1) rest

def linesBody? (quote : Char) (escapes : Bool) : Nat → Scan (List Char)
  | 0, _ => none
  | fuel + 1, cs =>
    match closing? quote cs with
    | some closed => some closed
    | none => match newline? cs, cs with
      | some rest, _ => (linesBody? quote escapes fuel rest).map fun (more, rest) => ('\n' :: more, rest)
      | none, [] => none
      | none, c :: rest =>
        if escapes && c = '\\' then
          match skipContinuation? rest with
          | some rest => linesBody? quote escapes fuel rest
          | none => do
            let (escaped, rest) ← escape? rest
            let (more, rest) ← linesBody? quote escapes fuel rest
            return (escaped :: more, rest)
        else if isPlain c then
          (linesBody? quote escapes fuel rest).map fun (more, rest) => (c :: more, rest)
        else none

/-- A text of several lines after its three quotes; a line end right after them is not part of it. -/
def linesText? (quote : Char) (escapes : Bool) : Scan (List Char) := fun cs =>
  let body := (newline? cs).getD cs
  linesBody? quote escapes (body.length + 1) body

def text? : Scan String := fun cs =>
  let found := match cs with
    | '"' :: '"' :: '"' :: rest => linesText? '"' true rest
    | '\'' :: '\'' :: '\'' :: rest => linesText? '\'' false rest
    | '"' :: rest => basicText? (rest.length + 1) rest
    | '\'' :: rest => literalText? rest
    | _ => none
  found.map fun (s, rest) => (String.ofList s, rest)

def isBareKey (c : Char) : Bool := c.isAlphanum || c = '_' || c = '-'

def keyPart? : Scan String := fun cs =>
  match cs with
  | '"' :: rest => (basicText? (rest.length + 1) rest).map fun (s, rest) => (String.ofList s, rest)
  | '\'' :: rest => (literalText? rest).map fun (s, rest) => (String.ofList s, rest)
  | _ =>
    let name := cs.takeWhile isBareKey
    if name.isEmpty then none else some (String.ofList name, cs.dropWhile isBareKey)

def keyParts? : Nat → Scan (List String)
  | 0, _ => none
  | fuel + 1, cs => do
    let (part, rest) ← keyPart? (skipSpace cs)
    match skipSpace rest with
    | '.' :: rest =>
      let (parts, rest) ← keyParts? fuel rest
      return (part :: parts, rest)
    | rest => return ([part], rest)

/-- Keys have fewer parts than this, and lists and tables fewer levels. -/
def depthBound : Nat := 80

def key? : Scan (List String × String) := fun cs => do
  let (parts, rest) ← keyParts? depthBound cs
  let last ← parts.getLast?
  if parts.length < depthBound then return ((parts.dropLast, last), rest) else none

/-- Digits with single underscores between them, and the rest; the underscores are dropped. -/
def groupedDigits? (isDigit : Char → Bool) : Nat → Scan (List Char)
  | 0, _ => none
  | _, [] => none
  | fuel + 1, c :: rest =>
    if !isDigit c then none
    else match rest with
      | '_' :: rest => (groupedDigits? isDigit fuel rest).map fun (more, rest) => (c :: more, rest)
      | d :: _ =>
        if isDigit d then (groupedDigits? isDigit fuel rest).map fun (more, rest) => (c :: more, rest)
        else some ([c], rest)
      | [] => some ([c], [])

def digits? : Scan (List Char) := fun cs => groupedDigits? Char.isDigit (cs.length + 1) cs

/-- The integer part of a number: a zero alone, or digits that start with another one. -/
def wholeDigits? : Scan (List Char)
  | '0' :: rest => some (['0'], rest)
  | cs => digits? cs

def power? : Scan Int
  | c :: rest =>
    if c = 'e' ∨ c = 'E' then
      let (negative, rest) := Binary64.spanSign rest
      (digits? rest).map fun (ds, rest) =>
        let n : Int := Nat.ofDigitChars 10 ds 0
        (if negative then -n else n, rest)
    else none
  | [] => none

/-- A double above the finite range is refused; one below it is minus infinity. -/
def doubleOf? (negative : Bool) (whole fraction : List Char) (power : Int) : Option Node :=
  let x := (Binary64.DecimalText.mk negative (Nat.ofDigitChars 10 (whole ++ fraction) 0)
    (power - fraction.length)).toBinary64
  if x = .infinite false then none else some (.float x)

def integerOf? (n : Int) : Option Node :=
  if minSigned ≤ n ∧ n ≤ maxSigned then some (.int n) else none

def decimal? : Scan Node := fun cs => do
  let (negative, unsigned) := Binary64.spanSign cs
  let (whole, rest) ← wholeDigits? unsigned
  match rest with
  | '.' :: rest =>
    let (fraction, rest) ← digits? rest
    let (power, rest) := (power? rest).getD (0, rest)
    return (← doubleOf? negative whole fraction power, rest)
  | rest => match power? rest with
    | some (power, rest) => return (← doubleOf? negative whole [] power, rest)
    | none =>
      let n : Int := Nat.ofDigitChars 10 whole 0
      return (← integerOf? (if negative then -n else n), rest)

def based? (base : Nat) (isDigit : Char → Bool) : Scan Node := fun cs => do
  let (ds, rest) ← groupedDigits? isDigit (cs.length + 1) cs
  let n := ds.foldl (fun n c => base * n + (Text.hexValue? c).getD 0) 0
  return (← integerOf? n, rest)

def special? (negative : Bool) : Scan Node
  | 'i' :: 'n' :: 'f' :: rest => some (.float (.infinite negative), rest)
  | 'n' :: 'a' :: 'n' :: rest => some (.float .nan, rest)
  | _ => none

def number? : Scan Node := fun cs =>
  match cs with
  | '0' :: 'x' :: rest => based? 16 (fun c => (Text.hexValue? c).isSome) rest
  | '0' :: 'o' :: rest => based? 8 (fun c => '0' ≤ c && c ≤ '7') rest
  | '0' :: 'b' :: rest => based? 2 (fun c => c = '0' || c = '1') rest
  | _ =>
    let (negative, unsigned) := Binary64.spanSign cs
    (special? negative unsigned).or (decimal? cs)

end PhasedWorkload.Toml
