import Mathlib.Algebra.GroupWithZero.Nat
import Mathlib.Algebra.Ring.Int.Defs
import PhasedWorkload.Proofs.Performer.Phases
import PhasedWorkload.Run.Playing

/-! # Scripts

What an actor does in a run is fixed before the run begins if each of its phases is a number of iterations or
nothing, if it does not go wrong, and if it does not note what it sees. Its script is what it does to the log
and the counters, in order: it starts, goes through the phases, and finishes. At every point the performer, the
slots of its participant and the agenda tell what of the script is still owed, and each step pays the next part
of it, if anything.
-/
namespace PhasedWorkload

open Barrier Telemetry Keyed
open Participant (Reply)

/-! ## Effects -/

def Effect.event? : Effect → Option Event
  | .emit e => some e
  | _ => none

def Effect.amount (key : CounterKey) : Effect → ℤ
  | .count key' amount => if key = key' then amount else 0
  | _ => 0

theorem SharedCounters.get_add (s : SharedCounters) (key : CounterKey) (amount : ℤ) (k : CounterKey) :
    (s.add key amount).get k = s.get k + if k = key then amount else 0 := by
  obtain ⟨counters⟩ := s
  simp only [add, get]
  induction counters with
  | nil => by_cases hk : k = key <;> simp [addTo, lookup_cons, hk]
  | cons first rest ih =>
    simp only [addTo]
    split
    · next heq =>
      rw [lookup_cons, lookup_cons]
      by_cases hk : k = key
      · simp [hk, heq]
      · simp [hk, heq]
    · next hne =>
      rw [lookup_cons, lookup_cons]
      by_cases hk : k = first.1
      · simp [hk, hne]
      · simpa [hk] using ih

namespace Run

variable {τ : Type} {r r' : Run τ} {done : List Effect}

/-- The log and the counters say what has been done, the latest first. -/
structure Logs (r : Run τ) (done : List Effect) : Prop where
  emitted : r.emitted = done.filterMap Effect.event?
  counters : ∀ key, r.counters.get key = (done.map (Effect.amount key)).sum

theorem Logs.congr (h : r.Logs done) (hemitted : r'.emitted = r.emitted) (hcounters : r'.counters = r.counters) :
    r'.Logs done := ⟨hemitted.trans h.emitted, hcounters ▸ h.counters⟩

theorem Logs.apply (h : r.Logs done) (e : Effect) : (r.apply e).Logs (e :: done) := by
  have hemitted := h.emitted
  have hcounters := h.counters
  cases e with
  | emit e =>
    refine ⟨?_, fun k => ?_⟩
    · simp [Run.apply, emit, hemitted, Effect.event?]
    · simp [Run.apply, emit, hcounters k, Effect.amount]
  | count key amount =>
    refine ⟨?_, fun k => ?_⟩
    · exact hemitted
    · simp [Run.apply, SharedCounters.get_add, hcounters k, Effect.amount, Int.add_comm]
  | observe o =>
    refine ⟨?_, fun k => ?_⟩
    · exact hemitted
    · simp [Run.apply, hcounters k, Effect.amount]

end Run

/-! ## Scripts -/

def Move.effect? : Move → Option Effect
  | .act effect => some effect
  | _ => none

/-- The number of iterations that are still to be handed out, after so many. -/
def Slot.left {τ : Type} (s : Slot τ) (count : ℕ) : ℕ :=
  match s.rule with
  | .iterations limit => limit - count - s.skipFirst.toNat
  | _ => 0

/-- The number of iterations is fixed. -/
def Slot.IsBounded {τ : Type} (s : Slot τ) : Prop := s.rule = .nothing ∨ ∃ limit, s.rule = .iterations limit

def Task.isSteady : Task → Bool
  | .misbehave (some _) => false
  | _ => true

namespace Actor

/-- What an actor does once per iteration. -/
def acts (a : Actor) (task : Task) : List Effect := (a.perform 0 task).filterMap Move.effect?

theorem perform_steady (a : Actor) {task : Task} (h : task.isSteady = true) (phase : ℕ) :
    a.perform phase task = (a.acts task).map .act ++ [.askIteration] := by
  cases task with
  | misbehave trouble =>
    cases trouble with
    | none => rfl
    | some trouble => cases h
  | greet | idle | addUp | report => rfl

def turnScript (a : Actor) (s : Slot Task) (count : ℕ) : List Effect :=
  (List.replicate (s.left count) (a.acts s.config)).flatten

def phaseScript (a : Actor) (phase : ℕ) : List Effect :=
  (a.participant.slot? phase).elim [] fun s => a.turnScript s 0

/-- What is done from a phase on to the last one. -/
def later (a : Actor) (last m : ℕ) : List Effect := (List.range' m (last + 1 - m)).flatMap a.phaseScript

def finish (a : Actor) : Effect := .emit (.actorFinished a.name a.id true)

def script (a : Actor) (last : ℕ) : List Effect :=
  .emit (.actorStarted a.name a.id) :: (a.later last 0 ++ [a.finish])

theorem later_over (a : Actor) {last m : ℕ} (h : last < m) : a.later last m = [] := by
  have hnone : last + 1 - m = 0 := by omega
  simp [later, hnone]

theorem later_of_le (a : Actor) {last m : ℕ} (h : m ≤ last) :
    a.later last m = a.phaseScript m ++ a.later last (m + 1) := by
  have hsome : last + 1 - m = last + 1 - (m + 1) + 1 := by omega
  rw [later, hsome, List.range'_succ]
  rfl

/-- All that an actor does is fixed before the run. -/
structure IsScripted (a : Actor) : Prop where
  quiet : a.observes = false
  bounded : ∀ phase s, a.participant.slot? phase = some s → s.IsBounded
  steady : ∀ phase s, a.participant.slot? phase = some s → s.config.isSteady = true

theorem IsScripted.conclude {a : Actor} (h : a.IsScripted) (p : Performer Task) : a.conclude p = [.askPhase] := by
  simp [Actor.conclude, h.quiet]

end Actor

/-! ## What a performer owes -/

namespace Performer

variable {a : Actor} {last m n : ℕ} {p q : Performer Task} {agenda : List Move} {owed : List Effect}

/-- A performer is in its turn of a phase that it is configured for. -/
structure Works (p : Performer Task) (n : ℕ) (tracker : Tracker) (s : Slot Task) : Prop where
  turn : p.turn = some ⟨n, some tracker⟩
  slot : p.participant.slot? n = some s
  rule : tracker.rule = s.rule
  unfinished : p.participant.finished = false
  bounded : s.IsBounded
  steady : s.config.isSteady = true

/-- There is an iteration to be handed out or to be skipped. -/
def IsDue (tracker : Tracker) (s : Slot Task) : Prop := ∃ limit, s.rule = .iterations limit ∧ tracker.count < limit

/-- What is still to be done in the phases, by the number of phases that were given, by what the performer is
doing and by the agenda. -/
inductive Owes (a : Actor) (last : ℕ) (p : Performer Task) : ℕ → List Move → List Effect → Prop where
  | asking (m : ℕ) (rests : p.activity = .resting) (unfinished : p.participant.finished = false) :
    Owes a last p m [.askPhase] (a.later last m)
  | advancing (m : ℕ) (asks : p.isAdvancing = true) : Owes a last p m [] (a.later last m)
  | opening (n : ℕ) (rests : p.activity = .resting) (unfinished : p.participant.finished = false)
    (turn : p.turn = some { phase := n }) (slot : p.participant.slot? n = a.participant.slot? n) :
    Owes a last p (n + 1) [.openTurn, .askIteration] (a.phaseScript n ++ a.later last (n + 1))
  /-- in a phase that it is not configured for -/
  | passing (n : ℕ) (tracker : Tracker) (rests : p.activity = .resting) (unfinished : p.participant.finished = false)
    (turn : p.turn = some ⟨n, some tracker⟩) (slot : p.participant.slot? n = none) :
    Owes a last p (n + 1) [.askIteration] (a.later last (n + 1))
  | acting (n : ℕ) (acts : List Effect) (tracker : Tracker) (s : Slot Task) (rests : p.activity = .resting)
    (works : p.Works n tracker s) : Owes a last p (n + 1) (acts.map .act ++ [.askIteration])
      (acts ++ (a.turnScript s tracker.count ++ a.later last (n + 1)))
  | iterating (n : ℕ) (point : Turn.Point) (tracker : Tracker) (s : Slot Task) (asks : p.activity = .iterating point)
    (works : p.Works n tracker s) (due : point = .choosing → IsDue tracker s) :
    Owes a last p (n + 1) [] (a.turnScript s tracker.count ++ a.later last (n + 1))
  | leaving (m : ℕ) (rests : p.activity = .resting) (finished : p.participant.finished = true) :
    Owes a last p m [.leave .finished] []

/-- The slots of the phases that are still to be given have not been touched. -/
def Untouched (a : Actor) (p : Performer Task) (m : ℕ) : Prop :=
  ∀ phase, m ≤ phase → p.participant.slot? phase = a.participant.slot? phase

theorem Untouched.congr (h : p.Untouched a m) (hslots : q.participant.slots = p.participant.slots) :
    q.Untouched a m := by
  intro phase hphase
  rw [Participant.slot?, hslots]
  exact h phase hphase

theorem Works.congr {tracker : Tracker} {s : Slot Task} (h : p.Works n tracker s) (hturn : q.turn = p.turn)
    (hparticipant : q.participant = p.participant) : q.Works n tracker s :=
  ⟨hturn.trans h.turn, hparticipant ▸ h.slot, h.rule, hparticipant ▸ h.unfinished, h.bounded, h.steady⟩

/-! ## Requests for a phase -/

theorem slots_proceed (participant : Participant Task) (point : Participant.Point) (answer : Answer) :
    (participant.proceed point answer).1.slots = participant.slots := by
  unfold Participant.proceed
  split
  · rfl
  · rfl
  · split <;> rfl
  · split <;> rfl
  · rfl
  · rfl

/-- What comes of a section of a request for a phase: another section, the phase, or another reply. -/
inductive Proceeds (q : Performer Task) : Option Report → Prop where
  | on (asks : q.isAdvancing = true) : Proceeds q none
  | given (number : ℕ) (rests : q.activity = .resting) (turn : q.turn = some { phase := number }) :
    Proceeds q (some (.phase (.phase number)))
  | told (reply : Reply) (rests : q.activity = .resting) (other : ∀ number, reply ≠ .phase number) :
    Proceeds q (some (.phase reply))

theorem proceeds_advance (p : Performer Task) (w : World) (point : Participant.Point) (wait : Option Wait) :
    let r := p.advance w point wait
    r.2.1.participant.slots = p.participant.slots ∧ r.2.1.Proceeds r.2.2 := by
  intro r
  have hr : r = p.advance w point wait := rfl
  rw [advance_eq] at hr
  split at hr
  · rw [hr]
    exact ⟨rfl, .on rfl⟩
  · next answer _ =>
    have hslots := slots_proceed p.participant point answer
    rw [hr]
    cases (p.participant.proceed point answer).2 with
    | «at» point' => exact ⟨hslots, .on rfl⟩
    | replied reply =>
      cases reply with
      | phase number => exact ⟨hslots, .given number rfl rfl⟩
      | «over» => exact ⟨hslots, .told _ rfl nofun⟩
      | aborted => exact ⟨hslots, .told _ rfl nofun⟩

/-! ## Requests for an iteration -/

/-- What comes of a step of a request for an iteration, by what is left of the turn. -/
inductive Yields (a : Actor) (n : ℕ) (script : List Effect) (q : Performer Task) : Option Report → Prop where
  | on (point : Turn.Point) (tracker : Tracker) (s : Slot Task) (asks : q.activity = .iterating point)
    (works : q.Works n tracker s) (due : point = .choosing → IsDue tracker s)
    (same : a.turnScript s tracker.count = script) : Yields a n script q none
  | item (tracker : Tracker) (s : Slot Task) (rests : q.activity = .resting) (works : q.Works n tracker s)
    (next : script = a.acts s.config ++ a.turnScript s tracker.count) :
    Yields a n script q (some (.iteration .item))
  | exhausted (rests : q.activity = .resting) (unfinished : q.participant.finished = false) (nothing : script = []) :
    Yields a n script q (some (.iteration .exhausted))

theorem Works.grant {tracker : Tracker} {s : Slot Task} (h : p.Works n tracker s) (hdue : IsDue tracker s)
    (hskip : s.skipFirst = false) (a : Actor) :
    Yields a n (a.turnScript s tracker.count) (p.grant ⟨n, some tracker⟩ tracker).1
      (p.grant ⟨n, some tracker⟩ tracker).2 := by
  obtain ⟨limit, hlimit, hlt⟩ := hdue
  refine .item tracker.countIteration s rfl ⟨rfl, h.slot, h.rule, h.unfinished, h.bounded, h.steady⟩ ?_
  have hleft : s.left tracker.count = s.left (tracker.count + 1) + 1 := by
    simp only [Slot.left, hlimit, hskip, Bool.toNat_false]
    omega
  rw [Actor.turnScript, hleft, List.replicate_succ, List.flatten_cons]
  rfl

theorem Works.skip {tracker : Tracker} {s : Slot Task} (h : p.Works n tracker s) (hdue : IsDue tracker s)
    (hskip : s.skipFirst = true) (a : Actor) :
    Yields a n (a.turnScript s tracker.count) (p.skip ⟨n, some tracker⟩ tracker).1
      (p.skip ⟨n, some tracker⟩ tracker).2 := by
  obtain ⟨limit, hlimit, hlt⟩ := hdue
  have hslot : (p.participant.updateSlot n fun s => { s with skipFirst := false }).slot? n =
      some { s with skipFirst := false } := by
    rw [Participant.slot?_updateSlot, if_pos rfl, h.slot]
    rfl
  refine .on _ tracker.countIteration { s with skipFirst := false } rfl
    ⟨rfl, hslot, h.rule, h.unfinished, h.bounded, h.steady⟩ nofun ?_
  have hleft : Slot.left { s with skipFirst := false } (tracker.count + 1) = s.left tracker.count := by
    simp only [Slot.left, hlimit, hskip, Bool.toNat_false, Bool.toNat_true]
    omega
  rw [Actor.turnScript, Tracker.countIteration, hleft]
  rfl

theorem Works.goTo {tracker : Tracker} {s : Slot Task} (h : p.Works n tracker s) (point : Turn.Point)
    (hdue : point = .choosing → IsDue tracker s) (a : Actor) :
    Yields a n (a.turnScript s tracker.count) (p.goTo point).1 (p.goTo point).2 :=
  .on point tracker s rfl (h.congr rfl rfl) hdue rfl

theorem Works.choose {tracker : Tracker} {s : Slot Task} (h : p.Works n tracker s) (hdue : IsDue tracker s)
    (w : World) (jitter : ℕ) (a : Actor) :
    let r := p.choose w ⟨n, some tracker⟩ tracker s jitter
    Yields a n (a.turnScript s tracker.count) r.2.1 r.2.2 := by
  intro r
  have hr : r = p.choose w ⟨n, some tracker⟩ tracker s jitter := rfl
  unfold Performer.choose at hr
  cases hskip : s.skipFirst with
  | true =>
    rw [hskip, if_pos rfl] at hr
    rw [hr]
    exact h.skip hdue hskip a
  | false =>
    rw [hskip, if_neg Bool.false_ne_true] at hr
    split at hr
    · dsimp only at hr
      split at hr
      · rw [hr]
        exact h.grant hdue hskip a
      · rw [hr]
        exact h.goTo (.pausing _) nofun a
    · rw [hr]
      exact h.grant hdue hskip a

/-- The check finds an end exactly when nothing is left of the turn. -/
theorem Works.check {tracker : Tracker} {s : Slot Task} (h : p.Works n tracker s) (phase now : ℕ) :
    (tracker.check phase now).1 = tracker ∧
      if (tracker.check phase now).2 then s.left tracker.count = 0 else IsDue tracker s := by
  rcases h.bounded with hrule | ⟨limit, hrule⟩
  · simp [Tracker.check, h.rule, hrule, Slot.left]
  · simp only [Tracker.check, h.rule, hrule, Slot.left, true_and]
    by_cases hle : limit ≤ tracker.count
    · rw [if_pos (decide_eq_true hle)]
      omega
    · rw [if_neg (by simpa using hle)]
      exact ⟨limit, hrule, Nat.lt_of_not_le hle⟩

theorem Works.iterate {tracker : Tracker} {s : Slot Task} (h : p.Works n tracker s) {w : World}
    (halive : w.barrier.errored = false) (hpublished : w.barrier.publishedAbort = false) {point : Turn.Point}
    (hdue : point = .choosing → IsDue tracker s) (jitter : ℕ) (a : Actor) :
    let r := p.iterate w ⟨n, some tracker⟩ tracker s jitter point
    Yields a n (a.turnScript s tracker.count) r.2.1 r.2.2 := by
  cases point with
  | watching =>
    simp only [Performer.iterate, hpublished, Bool.false_eq_true, if_false]
    exact h.goTo .checking (by simp) a
  | checking =>
    obtain ⟨hsame, hcheck⟩ := h.check w.barrier.publishedPhase w.now
    simp only [Performer.iterate, hsame]
    split
    · next hover =>
      rw [if_pos hover] at hcheck
      refine .exhausted rfl h.unfinished ?_
      rw [Actor.turnScript, hcheck]
      rfl
    · next hgoes =>
      rw [if_neg hgoes] at hcheck
      exact .on .choosing tracker s rfl ⟨rfl, h.slot, h.rule, h.unfinished, h.bounded, h.steady⟩ (fun _ => hcheck) rfl
  | choosing => exact h.choose (hdue rfl) w jitter a
  | pausing span =>
    simp only [Performer.iterate, hpublished, halive, Bool.false_eq_true, if_false]
    split
    · exact h.goTo .watching (by simp) a
    · exact h.goTo (.asleep _) (by simp) a
  | asleep wake =>
    simp only [Performer.iterate, halive, Bool.false_eq_true, if_false]
    exact h.goTo _ (by split <;> simp) a

theorem participant_choose (p : Performer Task) (w : World) (t : Turn) (tracker : Tracker) (s : Slot Task)
    (jitter : ℕ) : (p.choose w t tracker s jitter).2.1.participant = p.participant ∨
      ∃ change, (p.choose w t tracker s jitter).2.1.participant = p.participant.updateSlot t.phase change := by
  unfold Performer.choose
  split
  · exact .inr ⟨fun s => { s with skipFirst := false }, rfl⟩
  · left
    split
    · dsimp only
      split <;> rfl
    · rfl

theorem participant_iterate (p : Performer Task) (w : World) (t : Turn) (tracker : Tracker) (s : Slot Task)
    (jitter : ℕ) (point : Turn.Point) : (p.iterate w t tracker s jitter point).2.1.participant = p.participant ∨
      ∃ change, (p.iterate w t tracker s jitter point).2.1.participant =
        p.participant.updateSlot t.phase change := by
  cases point with
  | choosing => exact participant_choose p w t tracker s jitter
  | watching | checking | asleep =>
    left
    simp only [Performer.iterate]
    split <;> rfl
  | pausing =>
    left
    simp only [Performer.iterate]
    split <;> split <;> rfl

theorem Untouched.iterate (h : p.Untouched a (n + 1)) (w : World) (tracker : Tracker) (s : Slot Task) (jitter : ℕ)
    (point : Turn.Point) :
    (p.iterate w ⟨n, some tracker⟩ tracker s jitter point).2.1.Untouched a (n + 1) := by
  intro phase hphase
  rcases participant_iterate p w ⟨n, some tracker⟩ tracker s jitter point with hsame | ⟨change, hchange⟩
  · rw [hsame]
    exact h phase hphase
  · have hne : phase ≠ n := by omega
    rw [hchange, Participant.slot?_updateSlot, if_neg hne]
    exact h phase hphase

/-! ## Steps -/

variable {b : Barrier} {k i : ℕ} {places : List ℕ} {w : World} {point : Participant.Point} {wait : Option Wait}

/-- A performer stands at the barrier and owes the rest of the script of its actor. -/
structure OnScript (a : Actor) (last : ℕ) (b : Barrier) (k m : ℕ) (p : Performer Task) (agenda : List Move)
    (owed : List Effect) : Prop where
  stands : p.Stands b k m
  untouched : p.Untouched a m
  owes : p.Owes a last m agenda owed

/-- The agenda after a report, or without one. -/
def agendaAfter (a : Actor) (q : Performer Task) (left : List Move) (report : Option Report) : List Move :=
  report.elim left (a.react q)

/-- After a step the performer still is on the script, and nothing has been paid. -/
def StaysOnScript (a : Actor) (last i : ℕ) (places : List ℕ) (agenda : List Move) (owed : List Effect)
    (r : World × Performer Task × Option Report) : Prop :=
  ∃ k m, Tally r.1.barrier (places.set i k) ∧
    r.2.1.OnScript a last r.1.barrier k m (agendaAfter a r.2.1 agenda r.2.2) owed

theorem Stands.last_lt (h : p.Stands b k m) (hb : b.errored = false) (hrest : p.isAdvancing = false)
    (hf : p.participant.finished = true) : b.maxPhase < m := by
  cases h.resting hrest hb with
  | finished n shows passed last => exact last
  | fresh shows | inside n shows | left n shows => simp [shows.2.2] at hf

theorem Stands.turn_le {t : Turn} (h : p.Stands b k m) (hturn : p.turn = some t) : t.phase ≤ b.maxPhase := by
  have hle := h.bounded
  obtain ⟨_, hk⟩ := h.turn t hturn
  omega

theorem Owes.of_advancing (h : p.Owes a last m agenda owed) (hact : p.activity = .advancing point wait) :
    agenda = [] ∧ owed = a.later last m := by
  cases h with
  | advancing => exact ⟨rfl, rfl⟩
  | asking _ rests | opening _ rests | passing _ _ rests | acting _ _ _ _ rests | leaving _ rests =>
    cases hact.symm.trans rests
  | iterating _ _ _ _ asks => cases hact.symm.trans asks

theorem Owes.agenda_ne_nil (h : p.Owes a last m agenda owed) (hrest : p.activity = .resting) : agenda ≠ [] := by
  cases h with
  | advancing _ asks => simp [isAdvancing, hrest] at asks
  | iterating _ _ _ _ asks => cases hrest.symm.trans asks
  | acting | asking | opening | passing | leaving => simp

theorem OnScript.advance (h : p.OnScript a last w.barrier k m agenda owed)
    (hact : p.activity = .advancing point wait) (ht : Tally w.barrier places) (hk : places[i]? = some k)
    (hb : w.barrier.errored = false) (hlast : w.barrier.maxPhase = last) :
    StaysOnScript a last i places agenda owed (p.advance w point wait) := by
  obtain ⟨hagenda, howed⟩ := h.owes.of_advancing hact
  have hf : p.participant.finished = false := ((h.stands.asking point wait hact).2 hb).1.2.2
  have hv := point.precedes_visit w.barrier wait
  obtain ⟨k', m', ht', hstands, hreport⟩ := h.stands.advance ht hk hact
  have hreport := hreport hb
  obtain ⟨hslots, hproceeds⟩ := proceeds_advance p w point wait
  have hbarrier := barrier_advance p w point wait
  generalize p.advance w point wait = r at *
  obtain ⟨w', q, report⟩ := r
  dsimp only at *
  have hb' : w'.barrier.errored = false := by rw [hbarrier, point.errored_visit, hb]
  have hlast' : w'.barrier.maxPhase = last := by rw [hbarrier, hv.maxPhase_eq, hlast]
  have huntouched := h.untouched.congr hslots
  rw [hf] at hreport
  subst hagenda howed
  generalize hf' : q.participant.finished = finished at hreport
  cases hproceeds with
  | on asks =>
    cases hreport
    exact ⟨k', m, ht', hstands, huntouched, .advancing m asks⟩
  | given number rests turn =>
    cases hreport
    have hle : m ≤ last := hlast' ▸ hstands.turn_le turn
    refine ⟨k', m + 1, ht', hstands, fun phase hphase => huntouched phase (Nat.le_of_succ_le hphase), ?_⟩
    rw [Actor.later_of_le a hle]
    exact .opening m rests hf' turn (huntouched m le_rfl)
  | told reply rests other =>
    cases hreport with
    | phase => exact absurd rfl (other m)
    | finished =>
      have hover : last < m := hlast' ▸ hstands.last_lt hb' (isAdvancing_eq_false rests) hf'
      refine ⟨k', m, ht', hstands, huntouched, ?_⟩
      rw [Actor.later_over a hover]
      exact .leaving m rests hf'

theorem Owes.of_iterating {point : Turn.Point} (h : p.Owes a last m agenda owed)
    (hact : p.activity = .iterating point) : agenda = [] ∧ ∃ n tracker s, m = n + 1 ∧ p.Works n tracker s ∧
      (point = .choosing → IsDue tracker s) ∧ owed = a.turnScript s tracker.count ++ a.later last (n + 1) := by
  cases h with
  | iterating n _ tracker s asks works due =>
    cases asks.symm.trans hact
    exact ⟨rfl, n, tracker, s, rfl, works, due, rfl⟩
  | advancing _ asks => simp [isAdvancing, hact] at asks
  | asking _ rests | opening _ rests | passing _ _ rests | acting _ _ _ _ rests | leaving _ rests =>
    cases hact.symm.trans rests

theorem Works.step_eq {tracker : Tracker} {s : Slot Task} (h : p.Works n tracker s) {point : Turn.Point}
    (hact : p.activity = .iterating point) (w : World) (jitter : ℕ) :
    p.step w jitter = p.iterate w ⟨n, some tracker⟩ tracker s jitter point := by
  simp [step, hact, h.turn, h.slot]

theorem Works.react_item {tracker : Tracker} {s : Slot Task} (h : p.Works n tracker s) (a : Actor) :
    a.react p (.iteration .item) = (a.acts s.config).map .act ++ [.askIteration] := by
  simp [Actor.react, h.turn, h.slot, a.perform_steady h.steady]

theorem staysOnScript_same {r : World × Performer Task × Option Report} (ht : Tally w.barrier places)
    (hk : places[i]? = some k) (hw : r.1.barrier = w.barrier)
    (h : r.2.1.OnScript a last w.barrier k m (agendaAfter a r.2.1 agenda r.2.2) owed) :
    StaysOnScript a last i places agenda owed r :=
  ⟨k, m, by rwa [hw, set_same hk], hw.symm ▸ h⟩

theorem OnScript.iterate (h : p.OnScript a last w.barrier k m agenda owed) (ha : a.IsScripted)
    {point : Turn.Point} (hact : p.activity = .iterating point) (ht : Tally w.barrier places)
    (hk : places[i]? = some k) (hb : w.barrier.errored = false) (jitter : ℕ) :
    StaysOnScript a last i places agenda owed (p.step w jitter) := by
  obtain ⟨hagenda, n, tracker, s, hm, hworks, hdue, howed⟩ := h.owes.of_iterating hact
  have hrest : p.isAdvancing = false := by simp [isAdvancing, hact]
  obtain ⟨hbarrier, hkeeps, _⟩ := iterates_step hrest w jitter
  have hstands := h.stands.keeps hrest hkeeps
  have hpublished : w.barrier.publishedAbort = false := ht.sound.aborted.trans hb
  have hyields := hworks.iterate hb hpublished hdue jitter a
  subst hm hagenda howed
  have huntouched := h.untouched.iterate w tracker s jitter point
  rw [hworks.step_eq hact] at hbarrier hstands ⊢
  refine staysOnScript_same ht hk hbarrier ⟨hstands, huntouched, ?_⟩
  generalize p.iterate w ⟨n, some tracker⟩ tracker s jitter point = r at *
  obtain ⟨w', q, report⟩ := r
  dsimp only at *
  cases hyields with
  | on point' tracker' s' asks works due same =>
    rw [← same]
    exact .iterating n point' tracker' s' asks works due
  | item tracker' s' rests works next =>
    have hagenda : agendaAfter a q [] (some (.iteration .item)) = (a.acts s'.config).map .act ++ [.askIteration] :=
      works.react_item a
    rw [hagenda, next, List.append_assoc]
    exact .acting n (a.acts s'.config) tracker' s' rests works
  | exhausted rests unfinished nothing =>
    have hagenda : agendaAfter a q [] (some (.iteration .exhausted)) = [.askPhase] := ha.conclude q
    rw [hagenda, nothing]
    exact .asking (n + 1) rests unfinished

/-- What the next move on the agenda of a performer at rest comes to. -/
def KeepsScript (a : Actor) (last i k m : ℕ) (places : List ℕ) (p : Performer Task) (w : World)
    (left : List Move) (owed : List Effect) : Move → Prop
  | .askPhase => StaysOnScript a last i places left owed (w, p.askPhase)
  | .openTurn => StaysOnScript a last i places left owed (w, p.openTurn w.now, none)
  | .askIteration => StaysOnScript a last i places left owed (w, p.askIteration)
  | .act effect => ∃ rest, owed = effect :: rest ∧ p.OnScript a last w.barrier k m left rest
  | .leave departure => departure = .finished ∧ owed = [] ∧ p.participant.finished = true

theorem OnScript.askPhase (h : p.OnScript a last w.barrier k m agenda owed) (hrest : p.activity = .resting)
    (hf : p.participant.finished = false) (howed : owed = a.later last m) (ht : Tally w.barrier places)
    (hk : places[i]? = some k) : StaysOnScript a last i places [] owed (w, p.askPhase) := by
  obtain ⟨hstands, _⟩ := h.stands.askPhase (isAdvancing_eq_false hrest)
  rw [askPhase_unfinished hf] at hstands ⊢
  refine staysOnScript_same ht hk rfl ⟨hstands, h.untouched.congr rfl, ?_⟩
  rw [howed]
  exact .advancing m rfl

theorem OnScript.openTurn (h : p.OnScript a last w.barrier k (n + 1) agenda owed) (ha : a.IsScripted)
    (hrest : p.activity = .resting) (hf : p.participant.finished = false) (hturn : p.turn = some { phase := n })
    (hslot : p.participant.slot? n = a.participant.slot? n)
    (howed : owed = a.phaseScript n ++ a.later last (n + 1)) (ht : Tally w.barrier places)
    (hk : places[i]? = some k) :
    StaysOnScript a last i places [.askIteration] owed (w, p.openTurn w.now, none) := by
  have hact := isAdvancing_eq_false hrest
  have hstands := h.stands.keeps hact (iterates_openTurn hact w).2.1
  refine staysOnScript_same ht hk rfl ⟨hstands, h.untouched.congr rfl, ?_⟩
  have hrests : (p.openTurn w.now).activity = .resting := hrest
  have hopen : (p.openTurn w.now).turn =
      some ⟨n, some (Tracker.begin { rule := Turn.rule p.participant { phase := n }, phase := n } w.now)⟩ := by
    rw [Performer.openTurn, hturn]
    rfl
  cases hs : a.participant.slot? n with
  | none =>
    have hscript : a.phaseScript n = [] := by rw [Actor.phaseScript, hs]; rfl
    rw [howed, hscript]
    exact .passing n _ hrest hf hopen (hslot.trans hs)
  | some s =>
    have hscript : a.phaseScript n = a.turnScript s 0 := by rw [Actor.phaseScript, hs]; rfl
    have hrule : Turn.rule p.participant { phase := n } = s.rule := by simp [Turn.rule, hslot, hs]
    have hworks : (p.openTurn w.now).Works n _ s :=
      ⟨hopen, hslot.trans hs, hrule, hf, ha.bounded n s hs, ha.steady n s hs⟩
    rw [howed, hscript]
    exact .acting n [] _ s hrests hworks

theorem OnScript.askIteration {tracker : Tracker} {s : Slot Task}
    (h : p.OnScript a last w.barrier k (n + 1) agenda owed) (hrest : p.activity = .resting)
    (hworks : p.Works n tracker s) (howed : owed = a.turnScript s tracker.count ++ a.later last (n + 1))
    (ht : Tally w.barrier places) (hk : places[i]? = some k) :
    StaysOnScript a last i places [] owed (w, p.askIteration) := by
  have hstands := h.stands.keeps (isAdvancing_eq_false hrest) (iterates_askIteration p w).2.1
  have hask : p.askIteration = ({ p with activity := .iterating .watching }, none) := by
    simp [Performer.askIteration, hworks.turn, hworks.slot]
  rw [hask] at hstands ⊢
  refine staysOnScript_same ht hk rfl ⟨hstands, h.untouched.congr rfl, ?_⟩
  rw [howed]
  exact .iterating n .watching tracker s rfl (hworks.congr rfl rfl) nofun

theorem OnScript.pass {tracker : Tracker} (h : p.OnScript a last w.barrier k (n + 1) agenda owed)
    (ha : a.IsScripted) (hrest : p.activity = .resting) (hf : p.participant.finished = false)
    (hturn : p.turn = some ⟨n, some tracker⟩) (hslot : p.participant.slot? n = none)
    (howed : owed = a.later last (n + 1)) (ht : Tally w.barrier places) (hk : places[i]? = some k) :
    StaysOnScript a last i places [] owed (w, p.askIteration) := by
  have hstands := h.stands.keeps (isAdvancing_eq_false hrest) (iterates_askIteration p w).2.1
  have hask : p.askIteration = ({ p with activity := .resting }, some (.iteration .exhausted)) := by
    simp [Performer.askIteration, hturn, hslot]
  rw [hask] at hstands ⊢
  refine staysOnScript_same ht hk rfl ⟨hstands, h.untouched.congr rfl, ?_⟩
  have hagenda : agendaAfter a { p with activity := .resting } [] (some (.iteration .exhausted)) = [.askPhase] :=
    ha.conclude _
  rw [hagenda, howed]
  exact .asking (n + 1) rfl hf

theorem OnScript.move {move : Move} {left : List Move}
    (h : p.OnScript a last w.barrier k m (move :: left) owed) (ha : a.IsScripted) (hrest : p.activity = .resting)
    (ht : Tally w.barrier places) (hk : places[i]? = some k) : KeepsScript a last i k m places p w left owed move := by
  have howes := h.owes
  generalize hagenda : move :: left = agenda at howes
  cases howes with
  | asking _ _ hf =>
    cases hagenda
    exact h.askPhase hrest hf rfl ht hk
  | advancing => cases hagenda
  | opening n _ hf hturn hslot =>
    cases hagenda
    exact h.openTurn ha hrest hf hturn hslot rfl ht hk
  | passing n tracker _ hf hturn hslot =>
    cases hagenda
    exact h.pass ha hrest hf hturn hslot rfl ht hk
  | acting n acts tracker s _ hworks =>
    cases acts with
    | nil =>
      cases hagenda
      exact h.askIteration hrest hworks rfl ht hk
    | cons effect acts =>
      cases hagenda
      exact ⟨_, rfl, h.stands, h.untouched, .acting n acts tracker s hrest hworks⟩
  | iterating => cases hagenda
  | leaving _ _ hf =>
    cases hagenda
    exact ⟨rfl, rfl, hf⟩

end Performer

end PhasedWorkload
