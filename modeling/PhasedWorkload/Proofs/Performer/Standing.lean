import PhasedWorkload.Performer
import PhasedWorkload.Proofs.Performer.Points

/-! # Where a performer stands

A performer agrees with a place at the barrier and with a number of phases that it was given. Every step
keeps the agreement: asking for a phase goes from point to point, and asking for an iteration leaves the
barrier and what the participant owes alone. A turn is in a phase whose start the performer has been
through and past whose end it has not gone.
-/
namespace PhasedWorkload

open Barrier
open Participant (Reply)

/-! ## Reports -/

/-- What a report says: the number of phases that the participant was given and whether it knows that the
run is over, before and after it. -/
inductive Report.Says : ℕ → Bool → ℕ → Bool → Option Report → Prop where
  | nothing (m : ℕ) (knows : Bool) : Says m knows m knows none
  | iteration (m : ℕ) (knows : Bool) (reply : Turn.Reply) : Says m knows m knows (some (.iteration reply))
  | phase (m : ℕ) : Says m false (m + 1) false (some (.phase (.phase m)))
  | finished (m : ℕ) (knows : Bool) : Says m knows m true (some (.phase Reply.over))

namespace Performer

variable {τ : Type} {b c : Barrier} {k m i : ℕ} {places : List ℕ} {p q : Performer τ} {w : World}
  {point : Participant.Point} {wait : Option Wait}

def isAdvancing (p : Performer τ) : Bool :=
  match p.activity with
  | .advancing _ _ => true
  | _ => false

/-- A performer agrees with its place and with the number of phases that it was given. After an abort
nothing is said about what it does, but its turn still is in the phase that its place says. -/
structure Stands (b : Barrier) (k m : ℕ) (p : Performer τ) : Prop where
  asking : ∀ point wait, p.activity = .advancing point wait → p.turn = none ∧
    (b.errored = false → p.participant.Shows none true false ∧ point.At b k m wait)
  resting : p.isAdvancing = false → b.errored = false → p.participant.AtRest b k m
  turn : ∀ t, p.turn = some t → t.phase < b.starts ∧ (k = 2 * t.phase + 1 ∨ k = 2 * t.phase + 2)
  bounded : k ≤ 2 * b.maxPhase + 2

theorem Stands.later (h : p.Stands b k m) (hbc : Precedes b c) : p.Stands c k m := by
  refine ⟨fun point wait hact => ?_, fun hact hc => ?_, fun t ht => ?_, ?_⟩
  · obtain ⟨hturn, hat⟩ := h.asking point wait hact
    refine ⟨hturn, fun hc => ?_⟩
    obtain ⟨hs, hp⟩ := hat (hbc.alive hc)
    exact ⟨hs, hp.later hbc⟩
  · exact (h.resting hact (hbc.alive hc)).later hbc
  · obtain ⟨hs, hk⟩ := h.turn t ht
    exact ⟨hs.trans_le hbc.starts_le, hk⟩
  · exact hbc.maxPhase_eq.symm ▸ h.bounded

theorem stands_resting (hact : p.isAdvancing = false)
    (hturn : ∀ t, p.turn = some t → t.phase < b.starts ∧ (k = 2 * t.phase + 1 ∨ k = 2 * t.phase + 2))
    (hrest : b.errored = false → p.participant.AtRest b k m) (hle : k ≤ 2 * b.maxPhase + 2) :
    p.Stands b k m := by
  refine ⟨fun point wait h => ?_, fun _ => hrest, hturn, hle⟩
  simp [isAdvancing, h] at hact

theorem stands_fresh {participant : Participant τ} (h : participant.Shows none false false) :
    Stands b 0 0 { participant } := stands_resting rfl nofun (fun _ => .fresh h) (Nat.zero_le _)

theorem stands_asking (hact : p.activity = .advancing point wait) (hturn : p.turn = none)
    (hat : b.errored = false → p.participant.Shows none true false ∧ point.At b k m wait)
    (hle : k ≤ 2 * b.maxPhase + 2) : p.Stands b k m := by
  refine ⟨fun point wait h => ?_, fun h => ?_, by simp [hturn], hle⟩
  · rw [hact] at h
    cases h
    exact ⟨hturn, hat⟩
  · simp [isAdvancing, hact] at h

theorem stands_aborted (hb : b.errored = true) (hturn : p.turn = none) (hle : k ≤ 2 * b.maxPhase + 2) :
    p.Stands b k m :=
  ⟨fun _ _ _ => ⟨hturn, by simp [hb]⟩, by simp [hb], by simp [hturn], hle⟩

/-! ## Asking for a phase -/

theorem askPhase_finished (hf : p.participant.finished = true) :
    p.askPhase = ({ p with turn := none, activity := .resting }, some (.phase Reply.over)) := by
  simp [askPhase, Participant.begin, hf]

theorem askPhase_unfinished (hf : p.participant.finished = false) :
    p.askPhase = ({ p with
      participant := { p.participant with started := true, pending := none }, turn := none
      activity := .advancing (p.participant.pending.elim .deciding .settling) none }, none) := by
  cases hp : p.participant.pending <;> simp [askPhase, Participant.begin, hf, hp]

/-- To ask for the next phase ends the turn, and what is owed comes first. -/
theorem Stands.askPhase (h : p.Stands b k m) (hact : p.isAdvancing = false) :
    p.askPhase.1.Stands b k m ∧
      Report.Says m p.participant.finished m p.askPhase.1.participant.finished p.askPhase.2 := by
  have hle := h.bounded
  cases hf : p.participant.finished with
  | true =>
    simp only [askPhase_finished hf, hf]
    exact ⟨stands_resting rfl nofun (h.resting hact) hle, .finished m true⟩
  | false =>
    have hnothing : Report.Says m false m p.participant.finished none := by
      rw [hf]
      exact .nothing m false
    rw [askPhase_unfinished hf]
    refine ⟨stands_asking rfl rfl (fun hb => ⟨⟨rfl, rfl, hf⟩, ?_⟩) hle, hnothing⟩
    cases h.resting hact hb with
    | fresh shows =>
      rw [shows.1]
      exact .deciding 0 (Nat.zero_le _)
    | inside n shows running =>
      rw [shows.1]
      exact .finishing n running
    | left n shows =>
      rw [shows.1]
      exact .leaving n
    | finished _ shows => simp [shows.2.2] at hf

theorem advance_eq (p : Performer τ) (w : World) (point : Participant.Point) (wait : Option Wait) :
    p.advance w point wait =
      match (point.visit w.barrier wait).outcome with
      | .waiting wait' => ({ w with barrier := (point.visit w.barrier wait).barrier },
          { p with activity := .advancing point (some wait') }, none)
      | .answered answer => ({ w with barrier := (point.visit w.barrier wait).barrier },
          takePhase { p with participant := (p.participant.proceed point answer).1 }
            (p.participant.proceed point answer).2) := by
  cases wait <;> rfl

theorem barrier_advance (p : Performer τ) (w : World) (point : Participant.Point) (wait : Option Wait) :
    (p.advance w point wait).1.barrier = (point.visit w.barrier wait).barrier := by
  rw [advance_eq]
  split <;> rfl

/-- An answer moves the participant to its next point or gives it the reply. -/
theorem stands_takePhase {answer : Answer} (ha : point.Answers b k m answer)
    (hs : p.participant.Shows none true false) (hturn : p.turn = none) (hact : p.activity = .advancing point wait)
    (hle : k ≤ 2 * b.maxPhase + 2) {r : Performer τ × Option Report}
    (hr : r = takePhase { p with participant := (p.participant.proceed point answer).1 }
      (p.participant.proceed point answer).2) :
    ∃ m', r.1.Stands b k m' ∧ Report.Says m false m' r.1.participant.finished r.2 := by
  obtain ⟨hpending, hstarted, hfinished⟩ := hs
  have hnothing : Report.Says m false m p.participant.finished none := hfinished ▸ .nothing m false
  have hphase : Report.Says m false (m + 1) p.participant.finished (some (.phase (.phase m))) :=
    hfinished ▸ .phase m
  subst hr
  cases ha with
  | settled n pending passed =>
    exact ⟨n + 1, stands_asking rfl hturn (fun _ => ⟨⟨hpending, hstarted, hfinished⟩, .deciding (n + 1) passed⟩) hle,
      hnothing⟩
  | decided n passed =>
    refine ⟨m, stands_asking rfl hturn (fun _ => ⟨⟨hpending, hstarted, hfinished⟩, ?_⟩) hle, hnothing⟩
    by_cases hmore : m ≤ b.maxPhase
    · simpa [hmore] using .arriving m passed hmore
    · simpa [hmore] using .confirming m passed (Nat.lt_of_not_le hmore)
  | confirmed n passed last =>
    refine ⟨m, stands_resting rfl ?_ (fun _ => .finished m ⟨hpending, hstarted, rfl⟩ passed last)
      hle, .finished m false⟩
    simp [takePhase, Participant.proceed, Participant.finish, hturn]
  | given n running =>
    cases hblocks : p.participant.blocks m with
    | true =>
      have hp : p.participant.proceed .arriving (.phase m) =
          ({ p.participant with pending := some .finish }, .replied (.phase m)) := if_pos hblocks
      rw [hp]
      refine ⟨m + 1, stands_resting rfl ?_ (fun _ => .inside m ⟨rfl, hstarted, hfinished⟩ running) hle, hphase⟩
      rintro t ⟨⟩
      exact ⟨running, .inl rfl⟩
    | false =>
      have hp : p.participant.proceed .arriving (.phase m) = (p.participant, .at (.departing m)) :=
        if_neg (by simp [hblocks])
      rw [hp]
      exact ⟨m, stands_asking rfl hturn (fun _ => ⟨⟨hpending, hstarted, hfinished⟩, .departing m running⟩) hle,
        hnothing⟩
  | departed n running =>
    refine ⟨m + 1, stands_resting rfl ?_ (fun _ => .left m ⟨rfl, hstarted, hfinished⟩) hle, hphase⟩
    rintro t ⟨⟩
    exact ⟨running, .inr rfl⟩

theorem turn_takePhase (p : Performer τ) {point : Participant.Point} {answer : Answer}
    (h : answer = .aborted ∨ answer = .went false ∨ point = .deciding ∨ point = .confirming) :
    (takePhase { p with participant := (p.participant.proceed point answer).1 }
      (p.participant.proceed point answer).2).1.turn = p.turn := by
  rcases h with rfl | rfl | rfl | rfl
  · cases point <;> rfl
  · cases point <;> rfl
  · cases answer <;> rfl
  · rcases answer with _ | _ | _ | _ <;> rfl

/-- After an abort no section counts an arrival or gives a phase. -/
theorem visit_aborted (hb : b.errored = true) (point : Participant.Point) (wait : Option Wait) :
    ((point.visit b wait).barrier = b ∨ (point.visit b wait).barrier = { b with started := true }) ∧
    ∃ answer, (point.visit b wait).outcome = .answered answer ∧
      (answer = .aborted ∨ answer = .went false ∨ point = .deciding ∨ point = .confirming) := by
  have hwake : ∀ w, (b.wake w).barrier = b ∧ ∃ answer, (b.wake w).outcome = .answered answer ∧
      (answer = .aborted ∨ answer = .went false) := by
    intro w
    rcases wake_aborted hb w with hw | hw <;> rw [hw] <;> simp
  cases wait with
  | some w =>
    obtain ⟨hsame, answer, ho, ha⟩ := hwake w
    exact ⟨.inl hsame, answer, ho, by tauto⟩
  | none =>
    cases point with
    | settling pending =>
      cases pending with
      | finish => simp [Participant.Point.visit, Participant.Point.enter, enter_finish_aborted true hb]
      | advance phase =>
        obtain ⟨hsame, answer, ho, ha⟩ := hwake (.advanced phase)
        exact ⟨.inl hsame, answer, ho, by tauto⟩
    | deciding => exact ⟨.inl rfl, _, rfl, by simp⟩
    | confirming => exact ⟨.inl rfl, _, rfl, by simp⟩
    | arriving => simp [Participant.Point.visit, Participant.Point.enter, enter_start_aborted hb]
    | departing phase => simp [Participant.Point.visit, Participant.Point.enter, enter_finish_aborted false hb]

/-- The tally and the agreement of the performer with its place are kept, and while the run goes on the
report says what has changed. -/
def KeepsOrder (p : Performer τ) (w : World) (places : List ℕ) (i m : ℕ)
    (r : World × Performer τ × Option Report) : Prop :=
  ∃ k' m', Tally r.1.barrier (places.set i k') ∧ r.2.1.Stands r.1.barrier k' m' ∧
    (w.barrier.errored = false →
      Report.Says m p.participant.finished m' r.2.1.participant.finished r.2.2)

theorem Stands.advance (h : p.Stands w.barrier k m) (ht : Tally w.barrier places) (hk : places[i]? = some k)
    (hact : p.activity = .advancing point wait) :
    p.KeepsOrder w places i m (p.advance w point wait) := by
  obtain ⟨hturn, hasking⟩ := h.asking point wait hact
  cases hb : w.barrier.errored with
  | true =>
    obtain ⟨hbarrier, answer, ho, ha⟩ := visit_aborted hb point wait
    have hturn' := (turn_takePhase p ha).trans hturn
    rw [advance_eq]
    simp only [ho]
    refine ⟨k, m, ?_, ?_, by simp [hb]⟩ <;> rcases hbarrier with hsame | hsame <;> rw [hsame]
    · exact (set_same hk).symm ▸ ht
    · exact (set_same hk).symm ▸ ht.started
    · exact stands_aborted hb hturn' h.bounded
    · exact stands_aborted hb hturn' h.bounded
  | false =>
    obtain ⟨hs, hat⟩ := hasking hb
    obtain ⟨k', ht', hle, hv⟩ := hat.keeps ht hk h.bounded hb
    rw [advance_eq]
    cases ho : (point.visit w.barrier wait).outcome with
    | waiting wait' =>
      simp only [ho] at hv ⊢
      exact ⟨k', m, ht', stands_asking rfl hturn (fun _ => ⟨hs, hv⟩) hle, fun _ => .nothing m _⟩
    | answered answer =>
      simp only [ho] at hv ⊢
      obtain ⟨m', hp, hr⟩ := stands_takePhase hv hs hturn hact hle rfl
      exact ⟨k', m', ht', hp, fun _ => hs.2.2.symm ▸ hr⟩

/-! ## Asking for an iteration -/

/-- What is the same after a request for an iteration, or after a step of it. -/
structure Keeps (p q : Performer τ) : Prop where
  pending : q.participant.pending = p.participant.pending
  started : q.participant.started = p.participant.started
  finished : q.participant.finished = p.participant.finished
  turn : ∀ t, q.turn = some t → ∃ t', p.turn = some t' ∧ t.phase = t'.phase
  rest : q.isAdvancing = false

theorem Keeps.goTo (h : p.Keeps q) (point : Turn.Point) : p.Keeps (q.goTo point).1 :=
  ⟨h.pending, h.started, h.finished, h.turn, rfl⟩

theorem Keeps.exhaust (h : p.Keeps q) : p.Keeps q.exhaust.1 :=
  ⟨h.pending, h.started, h.finished, h.turn, rfl⟩

theorem Stands.keeps (h : p.Stands b k m) (hact : p.isAdvancing = false) (hq : p.Keeps q) :
    q.Stands b k m := by
  refine stands_resting hq.rest (fun t ht => ?_) (fun hb => ?_) h.bounded
  · obtain ⟨t', ht', hphase⟩ := hq.turn t ht
    exact hphase ▸ h.turn t' ht'
  · have hshows : ∀ {pending started finished}, p.participant.Shows pending started finished →
        q.participant.Shows pending started finished := fun hs =>
      ⟨hq.pending.trans hs.1, hq.started.trans hs.2.1, hq.finished.trans hs.2.2⟩
    cases h.resting hact hb with
    | fresh shows => exact .fresh (hshows shows)
    | inside n shows running => exact .inside n (hshows shows) running
    | left n shows => exact .left n (hshows shows)
    | finished _ shows passed last => exact .finished _ (hshows shows) passed last

/-- A step of a request for an iteration, which leaves the barrier alone. -/
def Iterates (p : Performer τ) (w : World) (r : World × Performer τ × Option Report) : Prop :=
  r.1.barrier = w.barrier ∧ p.Keeps r.2.1 ∧ ∀ m knows, Report.Says m knows m knows r.2.2

theorem iterates_goTo (hq : p.Keeps q) (w : World) (point : Turn.Point) : p.Iterates w (w, q.goTo point) :=
  ⟨rfl, hq.goTo point, fun m knows => .nothing m knows⟩

theorem iterates_exhaust (hq : p.Keeps q) (w : World) : p.Iterates w (w, q.exhaust) :=
  ⟨rfl, hq.exhaust, fun m knows => .iteration m knows _⟩

theorem iterates_same (hact : p.isAdvancing = false) (w : World) : p.Iterates w (w, p, none) :=
  ⟨rfl, ⟨rfl, rfl, rfl, fun t ht => ⟨t, ht, rfl⟩, hact⟩, fun m knows => .nothing m knows⟩

theorem iterates_openTurn (hact : p.isAdvancing = false) (w : World) :
    p.Iterates w (w, p.openTurn w.now, none) := by
  refine ⟨rfl, ⟨rfl, rfl, rfl, fun t ht => ?_, hact⟩, fun m knows => .nothing m knows⟩
  obtain ⟨t', ht', rfl⟩ := Option.map_eq_some_iff.mp ht
  exact ⟨t', ht', rfl⟩

theorem iterates_askIteration (p : Performer τ) (w : World) : p.Iterates w (w, p.askIteration) := by
  have hkeeps : p.Keeps { p with activity := .resting } := ⟨rfl, rfl, rfl, fun t ht => ⟨t, ht, rfl⟩, rfl⟩
  unfold askIteration
  split
  · exact ⟨rfl, hkeeps.goTo _, fun m knows => .nothing m knows⟩
  · exact ⟨rfl, hkeeps, fun m knows => .iteration m knows _⟩

theorem iterates_choose {t : Turn} (ht : p.turn = some t) (w : World) (tracker : Tracker) (slot : Slot τ)
    (jitter : ℕ) : p.Iterates w (p.choose w t tracker slot jitter) := by
  have hgrant : p.Keeps (p.grant t tracker).1 := ⟨rfl, rfl, rfl, by rintro _ ⟨⟩; exact ⟨t, ht, rfl⟩, rfl⟩
  have hsame : p.Keeps { p with activity := .resting } := ⟨rfl, rfl, rfl, fun t ht => ⟨t, ht, rfl⟩, rfl⟩
  unfold choose
  split
  · exact ⟨rfl, ⟨rfl, rfl, rfl, by rintro _ ⟨⟩; exact ⟨t, ht, rfl⟩, rfl⟩, fun m knows => .nothing m knows⟩
  · split
    · dsimp only
      split
      · exact ⟨rfl, hgrant, fun m knows => .iteration m knows _⟩
      · exact ⟨rfl, hsame.goTo _, fun m knows => .nothing m knows⟩
    · exact ⟨rfl, hgrant, fun m knows => .iteration m knows _⟩

theorem iterates_iterate {t : Turn} (ht : p.turn = some t) (hact : p.isAdvancing = false) (w : World)
    (tracker : Tracker) (slot : Slot τ) (jitter : ℕ) (point : Turn.Point) :
    p.Iterates w (p.iterate w t tracker slot jitter point) := by
  have hsame : p.Keeps p := ⟨rfl, rfl, rfl, fun t ht => ⟨t, ht, rfl⟩, hact⟩
  cases point with
  | watching =>
    simp only [iterate]
    split
    · exact iterates_exhaust hsame w
    · exact iterates_goTo hsame w _
  | checking =>
    have hchecked : p.Keeps { p with turn := some { t with
        tracker := some (tracker.check w.barrier.publishedPhase w.now).1 } } :=
      ⟨rfl, rfl, rfl, by rintro _ ⟨⟩; exact ⟨t, ht, rfl⟩, hact⟩
    simp only [iterate]
    split
    · exact iterates_exhaust hchecked w
    · exact iterates_goTo hchecked w _
  | choosing => exact iterates_choose ht w tracker slot jitter
  | pausing span =>
    simp only [iterate]
    split <;> split
    · exact iterates_exhaust hsame w
    · exact iterates_goTo hsame w _
    · exact iterates_exhaust hsame w
    · exact iterates_goTo hsame w _
  | asleep wake =>
    simp only [iterate]
    split
    · exact iterates_exhaust hsame w
    · exact iterates_goTo hsame w _

/-! ## A step -/

theorem step_advancing (hact : p.activity = .advancing point wait) (w : World) (jitter : ℕ) :
    p.step w jitter = p.advance w point wait := by
  simp only [step, hact]

theorem iterates_step (hact : p.isAdvancing = false) (w : World) (jitter : ℕ) :
    p.Iterates w (p.step w jitter) := by
  have hsame : p.Keeps p := ⟨rfl, rfl, rfl, fun t ht => ⟨t, ht, rfl⟩, hact⟩
  unfold step
  split
  · exact ⟨rfl, hsame, fun m knows => .nothing m knows⟩
  · next h => simp [isAdvancing, h] at hact
  · split
    · next t tracker slot hturn =>
      obtain ⟨t', ht', hturn⟩ := Option.bind_eq_some_iff.mp hturn
      obtain ⟨_, _, hturn⟩ := Option.bind_eq_some_iff.mp hturn
      obtain ⟨_, _, heq⟩ := Option.map_eq_some_iff.mp hturn
      cases heq
      exact iterates_iterate ht' hact w tracker slot jitter _
    · exact iterates_exhaust hsame w

theorem exists_advancing (h : p.isAdvancing = true) : ∃ point wait, p.activity = .advancing point wait := by
  revert h
  unfold isAdvancing
  split
  · next point wait hact => exact fun _ => ⟨point, wait, hact⟩
  · nofun

theorem precedes_step (p : Performer τ) (w : World) (jitter : ℕ) :
    Precedes w.barrier (p.step w jitter).1.barrier := by
  cases hact : p.isAdvancing with
  | true =>
    obtain ⟨point, wait, hact⟩ := exists_advancing hact
    rw [step_advancing hact, barrier_advance]
    exact point.precedes_visit w.barrier wait
  | false =>
    rw [(iterates_step hact w jitter).1]
    exact .refl w.barrier

theorem errored_step (p : Performer τ) (w : World) (jitter : ℕ) :
    (p.step w jitter).1.barrier.errored = w.barrier.errored := by
  cases hact : p.isAdvancing with
  | true =>
    obtain ⟨point, wait, hact⟩ := exists_advancing hact
    rw [step_advancing hact, barrier_advance]
    exact point.errored_visit w.barrier wait
  | false => rw [(iterates_step hact w jitter).1]

theorem Iterates.keepsOrder {r : World × Performer τ × Option Report} (hr : p.Iterates w r)
    (h : p.Stands w.barrier k m) (hact : p.isAdvancing = false) (ht : Tally w.barrier places)
    (hk : places[i]? = some k) : p.KeepsOrder w places i m r := by
  obtain ⟨hbarrier, hkeeps, hreport⟩ := hr
  refine ⟨k, m, ?_, ?_, fun _ => ?_⟩
  · rw [hbarrier, set_same hk]
    exact ht
  · rw [hbarrier]
    exact h.keeps hact hkeeps
  · rw [hkeeps.finished]
    exact hreport m _

theorem Stands.step (h : p.Stands w.barrier k m) (ht : Tally w.barrier places) (hk : places[i]? = some k)
    (jitter : ℕ) : p.KeepsOrder w places i m (p.step w jitter) := by
  cases hact : p.isAdvancing with
  | true =>
    obtain ⟨point, wait, hact⟩ := exists_advancing hact
    rw [step_advancing hact]
    exact h.advance ht hk hact
  | false => exact (iterates_step hact w jitter).keepsOrder h hact ht hk

end Performer

end PhasedWorkload
