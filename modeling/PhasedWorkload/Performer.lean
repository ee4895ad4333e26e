import PhasedWorkload.Participant.Turn

/-! # Performers

A performer is a participant at work: at rest, asking for the next phase, or asking for the next
iteration. The world is what performers share: the barrier, the limiters and the clock. A step is one
critical section or one read of a shared word; what is asked of a performer at rest is up to the one who
drives it.
-/
namespace PhasedWorkload

structure World where
  barrier : Barrier := {}
  limiters : List Limiter := []
  /-- Nanoseconds on the clock. -/
  now : Nat := 0
deriving Repr

inductive Activity where
  | resting
  /-- asking for the next phase, and perhaps waiting inside a section -/
  | advancing (point : Participant.Point) (wait : Option Barrier.Wait)
  | iterating (point : Turn.Point)
deriving DecidableEq, Repr

structure Performer (τ : Type) where
  participant : Participant τ
  turn : Option Turn := none
  activity : Activity := .resting
deriving Repr

inductive Report where
  | phase (reply : Participant.Reply)
  | iteration (reply : Turn.Reply)
deriving DecidableEq, Repr

namespace Performer

variable {τ : Type}

def askPhase (p : Performer τ) : Performer τ × Option Report :=
  let (participant, progress) := p.participant.begin
  let next := { p with participant, turn := none }
  match progress with
  | .at point => ({ next with activity := .advancing point none }, none)
  | .replied reply => ({ next with activity := .resting }, some (.phase reply))

def openTurn (p : Performer τ) (now : Nat) : Performer τ :=
  { p with turn := p.turn.map fun t => t.iterator p.participant now }

/-- Asks the iterator for an iteration; without configuration there is none. -/
def askIteration (p : Performer τ) : Performer τ × Option Report :=
  match p.turn.bind fun t => p.participant.slot? t.phase with
  | some _ => ({ p with activity := .iterating .watching }, none)
  | none => ({ p with activity := .resting }, some (.iteration .exhausted))

def isBlocked (p : Performer τ) (w : World) : Bool :=
  match p.activity with
  | .advancing _ (some wait) => w.barrier.holds wait
  | .iterating (.asleep wake) => w.barrier.holds .slept && w.now < wake
  | _ => false

def wakeTime? (p : Performer τ) : Option Nat :=
  match p.activity with
  | .iterating (.asleep wake) => some wake
  | _ => none

def takePhase (p : Performer τ) : Participant.Progress → Performer τ × Option Report
  | .at point => ({ p with activity := .advancing point none }, none)
  | .replied (.phase number) =>
    ({ p with turn := some { phase := number }, activity := .resting }, some (.phase (.phase number)))
  | .replied reply => ({ p with activity := .resting }, some (.phase reply))

def advance (p : Performer τ) (w : World) (point : Participant.Point) (wait : Option Barrier.Wait) :
    World × Performer τ × Option Report :=
  let visit := match wait with
    | none => point.enter w.barrier
    | some wait => w.barrier.wake wait
  let world := { w with barrier := visit.barrier }
  match visit.outcome with
  | .waiting wait => (world, { p with activity := .advancing point (some wait) }, none)
  | .answered answer =>
    let (participant, progress) := p.participant.proceed point answer
    (world, takePhase { p with participant } progress)

def exhaust (p : Performer τ) : Performer τ × Option Report :=
  ({ p with activity := .resting }, some (.iteration .exhausted))

def goTo (p : Performer τ) (point : Turn.Point) : Performer τ × Option Report :=
  ({ p with activity := .iterating point }, none)

def grant (p : Performer τ) (t : Turn) (tracker : Tracker) : Performer τ × Option Report :=
  ({ p with turn := some { t with tracker := some tracker.countIteration }, activity := .resting },
    some (.iteration .item))

/-- Replaces the first iteration by a pause, counting it. -/
def skip (p : Performer τ) (t : Turn) (tracker : Tracker) : Performer τ × Option Report :=
  goTo { p with
    participant := p.participant.updateSlot t.phase fun s => { s with skipFirst := false }
    turn := some { t with tracker := some tracker.countIteration } } (.pausing p.participant.pause.nanos)

/-- Skips, or takes a token, or pauses for a slot and a jitter where no token is due. -/
def choose (p : Performer τ) (w : World) (t : Turn) (tracker : Tracker) (slot : Slot τ) (jitter : Nat) :
    World × Performer τ × Option Report :=
  if slot.skipFirst then (w, p.skip t tracker)
  else match slot.limiter, slot.limiter.bind fun id => w.limiters[id]? with
    | some id, some limiter =>
      let (next, granted) := limiter.consume w.now
      let world := { w with limiters := w.limiters.set id next }
      if granted then (world, p.grant t tracker)
      else (world, p.goTo (.pausing (limiter.slot.nanos + jitter)))
    | _, _ => (w, p.grant t tracker)

def iterate (p : Performer τ) (w : World) (t : Turn) (tracker : Tracker) (slot : Slot τ) (jitter : Nat) :
    Turn.Point → World × Performer τ × Option Report
  | .watching => (w, if w.barrier.publishedAbort then p.exhaust else p.goTo .checking)
  | .checking =>
    let (tracker, done) := tracker.check w.barrier.publishedPhase w.now
    let p := { p with turn := some { t with tracker := some tracker } }
    (w, if done then p.exhaust else p.goTo .choosing)
  | .choosing => p.choose w t tracker slot jitter
  | .pausing span =>
    let span := (tracker.remaining? w.now).elim span (min span)
    if span = 0 then (w, if w.barrier.publishedAbort then p.exhaust else p.goTo .watching)
    else (w, if w.barrier.errored then p.exhaust else p.goTo (.asleep (w.now + span)))
  | .asleep wake =>
    if w.barrier.errored then (w, p.exhaust)
    else (w, p.goTo (if w.now < wake then .asleep wake else .watching))

/-- One step of a performer; a jitter is added where it has to wait for a token. -/
def step (p : Performer τ) (w : World) (jitter : Nat) : World × Performer τ × Option Report :=
  match p.activity with
  | .resting => (w, p, none)
  | .advancing point wait => p.advance w point wait
  | .iterating point =>
    match p.turn.bind fun t => t.tracker.bind fun tracker =>
      (p.participant.slot? t.phase).map fun slot => (t, tracker, slot) with
    | some (t, tracker, slot) => p.iterate w t tracker slot jitter point
    | none => (w, p.exhaust)

end Performer

end PhasedWorkload
