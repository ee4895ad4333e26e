import PhasedWorkload.Performer
import PhasedWorkload.Stage.Cast

/-! # Rehearsals

In a rehearsal the performers act on cue: one is told to ask for its next phase or to take some
iterations, and follows the cue as far as the others let it. The schedule is prompt: after every cue all
who can go on do so until nobody can. The clock moves with every round, and over short sleeps; whoever
sleeps longer than that stays asleep. Whoever is denied a token backs off for a slot and the mean jitter.
-/
namespace PhasedWorkload

inductive Errand where
  | next
  /-- taking iterations: how many it still wants and how many it has got -/
  | take (left got : Nat)
deriving DecidableEq, Repr

inductive Fulfilment where
  | phase (reply : Participant.Reply)
  | taken (got : Nat)
deriving DecidableEq, Repr

structure Member (τ : Type) where
  performer : Performer τ
  errand : Option Errand := none
  isGone : Bool := false
deriving Repr

namespace Member

variable {τ : Type}

def isBusy (m : Member τ) : Bool := m.errand.isSome

def isInPhase (m : Member τ) : Bool := m.performer.turn.isSome

def fulfil (m : Member τ) (f : Fulfilment) : Member τ × Option Fulfilment := ({ m with errand := none }, some f)

/-- Goes on with an errand after a report; one more iteration is asked for while some are wanted. -/
def hear (m : Member τ) : Report → Member τ × Option Fulfilment
  | .phase reply => m.fulfil (.phase reply)
  | .iteration .exhausted => match m.errand with
    | some (.take _ got) => m.fulfil (.taken got)
    | _ => m.fulfil (.taken 0)
  | .iteration .item => match m.errand with
    | some (.take (left + 2) got) =>
      let (performer, report) := m.performer.askIteration
      if report.isSome then { m with performer }.fulfil (.taken (got + 1))
      else ({ m with performer, errand := some (.take (left + 1) (got + 1)) }, none)
    | some (.take _ got) => m.fulfil (.taken (got + 1))
    | _ => m.fulfil (.taken 0)

def hear? (m : Member τ) : Option Report → Member τ × Option Fulfilment
  | some report => m.hear report
  | none => (m, none)

def cueNext (m : Member τ) : Member τ × Option Fulfilment :=
  let (performer, report) := m.performer.askPhase
  { m with performer, errand := some .next }.hear? report

def cueTake (m : Member τ) (count now : Nat) : Member τ × Option Fulfilment :=
  let performer := m.performer.openTurn now
  if count = 0 then { m with performer }.fulfil (.taken 0)
  else
    let (performer, report) := performer.askIteration
    { m with performer, errand := some (.take count 0) }.hear? report

def config? (m : Member τ) : Option τ :=
  m.performer.turn.bind fun t => (m.performer.participant.slot? t.phase).map Slot.config

end Member

structure Rehearsal (τ : Type) where
  stage : Stage
  members : List (Member τ) := []
deriving Repr

namespace Stage

def world (s : Stage) : World := ⟨s.barrier, s.limiters, s.now⟩

def resume (s : Stage) (w : World) : Stage := { s with barrier := w.barrier, limiters := w.limiters, now := w.now }

end Stage

namespace Rehearsal

variable {τ : Type}

def roundNanos : Nat := 1000

/-- A sleep up to this many nanoseconds is waited for. -/
def patience : Nat := 1000000000

def maxRounds : Nat := 1000000000

def castRole (factory : Scene → Except Fault τ) (pause : TimeSpan) (role : Role) :
    Nat → Stage → Except Fault (Stage × List (Member τ))
  | 0, stage => .ok (stage, [])
  | count + 1, stage =>
    match Participant.make role factory stage with
    | (_, .error f) => .error f
    | (stage, .ok participant) => do
      let (stage, rest) ← castRole factory pause role count stage
      return (stage, { performer := { participant := { participant with pause } } } :: rest)

/-- Casts the entries one after another: each is checked when those before it have their participants. -/
def castAll (factory : Scene → Except Fault τ) (pause : TimeSpan) (most : Nat) :
    Stage → List Entry → Except Fault (Stage × List Role × List (Member τ))
  | stage, [] => .ok (stage, [], [])
  | stage, entry :: rest =>
    match Role.make stage entry with
    | (_, .error f) => .error f
    | (stage, .ok role) => do
      let (stage, members) ← castRole factory pause role (min role.threads most) stage
      let (stage, roles, more) ← castAll factory pause most stage rest
      return (stage, role :: roles, members ++ more)

def isFree (r : Rehearsal τ) (m : Member τ) : Bool := m.isBusy && !m.performer.isBlocked r.stage.world

/-- The mean jitter of a member that is denied a token: it has up to a slot for every user of its
limiter. -/
def jitter (r : Rehearsal τ) (m : Member τ) : Nat :=
  let slot := m.performer.turn.bind fun t => m.performer.participant.slot? t.phase
  let limiter := (slot.bind Slot.limiter).bind fun id => r.stage.limiters[id]?
  limiter.elim 0 fun l => l.slot.nanos * max l.users 1 / 2

def step (r : Rehearsal τ) (i : Nat) : Rehearsal τ × Option Fulfilment :=
  match r.members[i]? with
  | none => (r, none)
  | some m =>
    if r.isFree m then
      let (world, performer, report) := m.performer.step r.stage.world (r.jitter m)
      let (m, done) := { m with performer }.hear? report
      (⟨r.stage.resume world, r.members.set i m⟩, done)
    else (r, none)

def tick (r : Rehearsal τ) (nanos : Nat) : Rehearsal τ :=
  { r with stage := { r.stage with now := r.stage.now + nanos } }

def round (r : Rehearsal τ) : Rehearsal τ × List (Nat × Fulfilment) :=
  let (r, done) := (List.range r.members.length).foldl (fun (r, done) i =>
    let (r, f) := r.step i
    (r, done ++ (f.map fun f => (i, f)).toList)) (r, [])
  (r.tick roundNanos, done)

def untilWake? (r : Rehearsal τ) : Option Nat :=
  ((r.members.filter Member.isBusy).filterMap fun m => m.performer.wakeTime?).min?.map (· - r.stage.now)

/-- Plays rounds until nobody can go on; what came of cues is added to what came before. -/
def settleWithin : Nat → Rehearsal τ → List (Nat × Fulfilment) → Rehearsal τ × List (Nat × Fulfilment)
  | 0, r, done => (r, done)
  | fuel + 1, r, done =>
    if r.members.any r.isFree then
      let (r, more) := r.round
      settleWithin fuel r (done ++ more)
    else match r.untilWake? with
      | some nanos => if nanos ≤ patience then settleWithin fuel (r.tick nanos) done else (r, done)
      | none => (r, done)

def settle (r : Rehearsal τ) : Rehearsal τ × List (Nat × Fulfilment) := settleWithin maxRounds r []

def cue (r : Rehearsal τ) (i : Nat) (go : Member τ → Member τ × Option Fulfilment) :
    Rehearsal τ × List (Nat × Fulfilment) :=
  match r.members[i]? with
  | none => (r, [])
  | some m =>
    let (m, done) := go m
    let (r, more) := { r with members := r.members.set i m }.settle
    (r, (done.map fun f => (i, f)).toList ++ more)

def interfere (r : Rehearsal τ) (b : Barrier) : Rehearsal τ × List (Nat × Fulfilment) :=
  { r with stage := { r.stage with barrier := b } }.settle

def dismiss (r : Rehearsal τ) (i : Nat) : Rehearsal τ × List (Nat × Fulfilment) :=
  match r.members[i]? with
  | none => (r, [])
  | some m =>
    { r with members := r.members.set i { m with isGone := true } }.interfere
      (m.performer.participant.release r.stage.barrier)

/-- What an attempt to make one more participant of a role leaves behind, whether one is made or not. -/
def attempt (r : Rehearsal τ) (role : Role) (factory : Scene → Except Fault τ) : Rehearsal τ :=
  { r with stage := (Participant.make role factory r.stage).1 }

/-- Makes one more participant of a role, which goes away at once; its place at the barrier stays. -/
def join (r : Rehearsal τ) (role : Role) (factory : Scene → Except Fault τ) : Except Fault (Rehearsal τ) :=
  (Participant.make role factory r.stage).2.map fun participant =>
    let stage := (r.attempt role factory).stage
    { r with stage := { stage with barrier := participant.release stage.barrier } }

def blocked (r : Rehearsal τ) : List Nat :=
  (List.range r.members.length).filter fun i => (r.members[i]?.map Member.isBusy).getD false

end Rehearsal

end PhasedWorkload
