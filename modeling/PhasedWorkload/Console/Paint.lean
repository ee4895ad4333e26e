/-! # Colours on a terminal

A painted text stands between the codes of its style and a reset. Where the text itself holds a reset,
the codes are written again after it. Padding belongs to the text, so it is painted too.
-/
namespace PhasedWorkload.Console

inductive Style where
  | plain
  | bold
  | red
  | green
  | yellow
  | boldRed
  | boldGreen
deriving DecidableEq, Repr

namespace Style

def code? : Style → Option String
  | .plain => none
  | .bold => some "1"
  | .red => some "31"
  | .green => some "32"
  | .yellow => some "33"
  | .boldRed => some "1;31"
  | .boldGreen => some "1;32"

end Style

def reset : String := "\x1b[0m"

def padRight (width : Nat) (s : String) : String := s ++ String.ofList (List.replicate (width - s.length) ' ')

structure Painter where
  hasColors : Bool
deriving DecidableEq, Repr

namespace Painter

def paintPadded (p : Painter) (style : Style) (width : Nat) (s : String) : String :=
  match p.hasColors, style.code? with
  | true, some code =>
    let start := "\x1b[" ++ code ++ "m"
    start ++ padRight width ((reset ++ start).intercalate (s.splitOn reset)) ++ reset
  | _, _ => padRight width s

def paint (p : Painter) (style : Style) (s : String) : String := p.paintPadded style 0 s

end Painter

def isOn (value : String) : Bool := value ≠ "0"

/-- The painter for a terminal or not, given what the environment says about colours: whether they are
allowed, whether they are forced, and whether they are unwanted. -/
def Painter.choose (isTerminal : Bool) (allowed forced unwanted : Option String) : Painter :=
  if forced.any isOn then ⟨true⟩
  else if unwanted.isSome then ⟨false⟩
  else ⟨isTerminal && (allowed.map isOn).getD true⟩

end PhasedWorkload.Console
