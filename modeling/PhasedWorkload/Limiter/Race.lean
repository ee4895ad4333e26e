import PhasedWorkload.Limiter.Basic

/-! # Callers that share a limiter

Taking a token is not one step: a caller loads the word, and if a token is due it tries to exchange the
word it loaded for the next one. The exchange fails if the word has changed since, and may fail for no
reason; the caller then goes on with the word that is there now. Any order of such steps of any callers
is a run.
-/
namespace PhasedWorkload.Limiter

/-- A call that is under way: the reading it was made with and the word it goes by. -/
structure Attempt where
  reading : Int
  seen : Int
deriving DecidableEq, Repr

structure Caller where
  attempt : Option Attempt := none
  readings : List Int
  results : List Bool := []
deriving DecidableEq, Repr

def Caller.finish (c : Caller) (granted : Bool) : Caller :=
  { c with attempt := none, results := c.results ++ [granted] }

structure Race where
  rate : Int
  word : Int
  callers : List Caller
deriving DecidableEq, Repr

inductive Exchange where
  | done
  | spuriousFailure
deriving DecidableEq, Repr

namespace Race

def next (r : Race) (word : Int) : Int := saturate (word + r.rate)

/-- Goes on with a word that was just read: a refusal ends the call at once. -/
def look (r : Race) (c : Caller) (reading : Int) : Caller :=
  if reading < r.next r.word then c.finish false else { c with attempt := some ⟨reading, r.word⟩ }

/-- One atomic step of a caller: the load of its next call, or the exchange of the one under way. -/
def stepCaller (r : Race) (c : Caller) (exchange : Exchange) : Int × Caller :=
  match c.attempt, c.readings with
  | none, [] => (r.word, c)
  | none, reading :: rest => (r.word, r.look { c with readings := rest } reading)
  | some a, _ =>
    if a.seen = r.word ∧ exchange = .done then (r.next r.word, c.finish true)
    else (r.word, r.look c a.reading)

def step (r : Race) (i : Nat) (exchange : Exchange) : Race :=
  match r.callers[i]? with
  | none => r
  | some c =>
    let (word, c) := r.stepCaller c exchange
    { r with word, callers := r.callers.set i c }

def round (r : Race) : Race := (List.range r.callers.length).foldl (fun r i => r.step i .done) r

def isOver (r : Race) : Bool := r.callers.all fun c => c.attempt.isNone && c.readings.isEmpty

def runWithin : Nat → Race → Race
  | 0, r => r
  | fuel + 1, r => if r.isOver then r else runWithin fuel r.round

/-- Lets the callers take turns until all calls have ended. A call takes a turn to load the word and one
for each exchange, and each failed exchange is due to a call that another caller ended. -/
def run (r : Race) : Race :=
  runWithin ((r.callers.foldr (fun c n => c.readings.length + n) 0) * (r.callers.length + 2) + 1) r

def grants (r : Race) : Nat := r.callers.foldr (fun c n => c.results.count true + n) 0

end Race

def race (l : Limiter) (callers tries : Nat) (now : Int) : Limiter × Nat :=
  let start : Race := ⟨l.rate, l.lastEmptied, List.replicate callers { readings := List.replicate tries now }⟩
  let final := start.run
  ({ l with lastEmptied := final.word }, final.grants)

end PhasedWorkload.Limiter
