import PhasedWorkload.Fault

/-! # Rate limiters

A limiter is one word: the reading of the clock at which its last token was handed out. The next token
may be taken once the clock reaches that reading plus the cost of a token; taking it moves the word by
exactly that cost, so slots that nobody used can be taken later. All arithmetic stays at the ends of the
signed range instead of wrapping.
-/
namespace PhasedWorkload

structure Limiter where
  spec : Rate
  lastEmptied : Int
  users : Nat := 0
deriving DecidableEq, Repr, Inhabited

structure ClockKind where
  isSteady : Bool
  tickNanos : Nat
deriving DecidableEq, Repr

namespace Limiter

def rate (l : Limiter) : Int := l.spec.ticksPerToken

/-- Advisory; nothing enforces it. -/
def burst (l : Limiter) : Nat := l.spec.operations

def slot (l : Limiter) : TimeSpan := ⟨l.rate.toNat⟩

/-- A limiter whose first token can be taken at the reading at which it is made. -/
def start (spec : Rate) (now : Int) : Limiter := { spec, lastEmptied := saturate (now - spec.ticksPerToken) }

def location : String := "rate limiter"

/-- Only a clock that never goes back and counts nanoseconds will do. -/
def make (clock : ClockKind) (spec : Rate) (now : Int) : Except Fault Limiter :=
  if !clock.isSteady then .error (.configuration location .unsteadyClock)
  else if clock.tickNanos ≠ 1 then .error (.configuration location (.clockTick clock.tickNanos))
  else .ok (start spec now)

/-- The reading from which the next token can be taken. -/
def due (l : Limiter) : Int := saturate (l.lastEmptied + l.rate)

def consume (l : Limiter) (now : Int) : Limiter × Bool :=
  if now < l.due then (l, false) else ({ l with lastEmptied := l.due }, true)

def consumeAll (l : Limiter) (readings : List Int) : Limiter × List Bool :=
  match readings with
  | [] => (l, [])
  | now :: rest =>
    let (l, granted) := l.consume now
    let (l, results) := l.consumeAll rest
    (l, granted :: results)

def addUser (l : Limiter) : Limiter := { l with users := l.users + 1 }

end Limiter

end PhasedWorkload
