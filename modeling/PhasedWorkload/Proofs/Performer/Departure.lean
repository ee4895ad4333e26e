import PhasedWorkload.Proofs.Cells
import PhasedWorkload.Proofs.Performer.Aftermath
import PhasedWorkload.Proofs.Performer.Phases

/-! # Participants that go away

A participant may go away at any time, whatever it and the others are doing. Nobody takes its place at the
barrier, so if the others still have phases before them it has to abort the run. It does so once it has asked for
a phase. One that goes away before that leaves the barrier as it is, and the others wait for it.
-/
namespace PhasedWorkload

open Barrier
open Participant (Reply)

variable {τ : Type} {p : Performer τ} {w : World}

/-! ## Performers that have begun -/

namespace Performer

/-- It has not asked for a phase yet. -/
structure IsFresh (p : Performer τ) : Prop where
  resting : p.activity = .resting
  turnless : p.turn = none
  unfinished : p.participant.finished = false

theorem started_askPhase (hf : p.participant.finished = false) : p.askPhase.1.participant.started = true := by
  rw [askPhase_unfinished hf]

theorem flags_proceed (participant : Participant τ) (point : Participant.Point) (answer : Answer) :
    (participant.proceed point answer).1.started = participant.started ∧
      (participant.finished = true → (participant.proceed point answer).1.finished = true) := by
  unfold Participant.proceed
  split
  · exact ⟨rfl, id⟩
  · exact ⟨rfl, id⟩
  · exact ⟨rfl, fun _ => rfl⟩
  · split <;> exact ⟨rfl, id⟩
  · exact ⟨rfl, id⟩
  · exact ⟨rfl, fun _ => rfl⟩

theorem participant_takePhase (p : Performer τ) (progress : Participant.Progress) :
    (takePhase p progress).1.participant = p.participant := by
  rcases progress with _ | _ | _ | _ <;> rfl

/-- Nobody forgets that it has begun, or that the run is over. -/
theorem flags_follow (p : Performer τ) (w : World) (cue : Cue) :
    (p.participant.started = true → (p.follow w cue).2.1.participant.started = true) ∧
      (p.participant.finished = true → (p.follow w cue).2.1.participant.finished = true) := by
  have hfollows := p.follows w cue
  generalize p.follow w cue = r at hfollows
  cases hfollows with
  | ignores => exact ⟨id, id⟩
  | iterates _ _ _ hiter => exact ⟨hiter.2.1.started.trans, hiter.2.1.finished.trans⟩
  | asks =>
    cases hf : p.participant.finished with
    | true =>
      rw [askPhase_finished hf]
      exact ⟨id, fun _ => hf⟩
    | false => exact ⟨fun _ => started_askPhase hf, nofun⟩
  | advances jitter point wait =>
    rw [advance_eq]
    split
    · exact ⟨id, id⟩
    · next answer _ =>
      obtain ⟨hstarted, hfinished⟩ := flags_proceed p.participant point answer
      rw [participant_takePhase]
      exact ⟨hstarted.trans, hfinished⟩

/-- Without a turn only the request for a phase changes anything. -/
theorem IsFresh.follow (h : p.IsFresh) (w : World) (cue : Cue) :
    (p.follow w cue).2.1.participant.started = true ∨
      cue ≠ .askPhase ∧ (p.follow w cue).2.1 = p ∧ Troupe.replyIn (p.follow w cue).2.2 = [] := by
  obtain ⟨participant, turn, activity⟩ := p
  obtain ⟨rfl, rfl, hf⟩ := h
  cases cue with
  | askPhase =>
    rw [Performer.follow, if_pos rfl]
    exact .inl (started_askPhase hf)
  | openTurn | askIteration | goOn => exact .inr ⟨(by cases ·), rfl, rfl⟩

end Performer

theorem Participant.release_cases (participant : Participant τ) (b : Barrier) :
    participant.release b = b ∨ participant.release b = b.abort := by
  unfold release
  split
  · exact .inr rfl
  · exact .inl rfl

/-- A participant in the middle of a run aborts it when it goes away, if nobody else has. -/
theorem Participant.release_halts {participant : Participant τ} {b : Barrier} (hb : b.publishedAbort = b.errored)
    (hmiddle : b.errored = false → participant.started = true ∧ participant.finished = false) :
    Halts (participant.release b) (participant.release b) := by
  have haborted : (participant.release b).errored = true ∧ (participant.release b).publishedAbort = true := by
    cases herrored : b.errored with
    | true => simp [release, hb, herrored]
    | false =>
      obtain ⟨hstarted, hfinished⟩ := hmiddle herrored
      simp [release, hb, herrored, hstarted, hfinished, abort]
  exact ⟨haborted.1, haborted.2, rfl, rfl, rfl, rfl, rfl⟩

/-! ## Troupes that members leave -/

/-- A troupe and those of its members that have gone away. -/
structure Roster (τ : Type) where
  troupe : Troupe τ
  gone : List ℕ := []

namespace Roster

inductive Event where
  | acts (action : Troupe.Action)
  | leaves (who : ℕ)
deriving DecidableEq, Repr

/-- Whoever has gone away follows no cue and cannot go away again. -/
def step (r : Roster τ) : Event → Roster τ
  | .acts (.cue who cue) => if who ∈ r.gone then r else { r with troupe := r.troupe.step (.cue who cue) }
  | .acts action => { r with troupe := r.troupe.step action }
  | .leaves who =>
    if who ∈ r.gone then r
    else r.troupe.performers[who]?.elim r fun p =>
      { troupe := { r.troupe with world.barrier := p.participant.release r.troupe.world.barrier }
        gone := who :: r.gone }

def run (r : Roster τ) (events : List Event) : Roster τ := events.foldl step r

def opening (s : Stage) (participants : List (Participant τ)) : Roster τ := ⟨.opening s participants, []⟩

variable {r : Roster τ} {s : Stage} {participants : List (Participant τ)} {places : List ℕ} {e : Event}

/-- What an event does to the troupe: nothing, an action of the troupe, or a departure. -/
inductive Steps (r : Roster τ) : Event → Roster τ → Prop where
  | ignores (e : Event) (absent : ∀ who cue, e = .acts (.cue who cue) → who ∈ r.gone) : Steps r e r
  | acts (action : Troupe.Action) (present : ∀ who cue, action = .cue who cue → who ∉ r.gone) :
    Steps r (.acts action) { r with troupe := r.troupe.step action }
  | leaves (who : ℕ) (p : Performer τ) (member : r.troupe.performers[who]? = some p) (present : who ∉ r.gone) :
    Steps r (.leaves who)
      ⟨{ r.troupe with world.barrier := p.participant.release r.troupe.world.barrier }, who :: r.gone⟩

theorem steps (r : Roster τ) (e : Event) : r.Steps e (r.step e) := by
  cases e with
  | acts action =>
    cases action with
    | cue who cue =>
      simp only [step]
      split
      · next hgone =>
        refine .ignores _ fun other cue' heq => ?_
        cases heq
        exact hgone
      · next hgone =>
        refine .acts _ fun other cue' heq => ?_
        cases heq
        exact hgone
    | tick nanos => exact .acts _ nofun
    | abort => exact .acts _ nofun
  | leaves who =>
    simp only [step]
    split
    · exact .ignores _ nofun
    · next hgone =>
      cases hp : r.troupe.performers[who]? with
      | none => exact .ignores _ nofun
      | some p => exact .leaves who p hp hgone

theorem ordered_step (h : r.troupe.Ordered places) (e : Event) : ∃ places', (r.step e).troupe.Ordered places' := by
  have hsteps := r.steps e
  generalize r.step e = next at hsteps
  cases hsteps with
  | ignores => exact ⟨places, h⟩
  | acts action => exact h.step action
  | leaves who p =>
    rcases p.participant.release_cases r.troupe.world.barrier with hsame | habort
    · rw [hsame]
      exact ⟨places, h⟩
    · rw [habort]
      exact ⟨places, h.abort⟩

theorem ordered_run (h : r.troupe.Ordered places) (events : List Event) :
    ∃ places', (r.run events).troupe.Ordered places' := by
  induction events generalizing r places with
  | nil => exact ⟨places, h⟩
  | cons e events ih =>
    obtain ⟨places', h'⟩ := ordered_step h e
    exact ih h'

theorem length_step (r : Roster τ) (e : Event) :
    (r.step e).troupe.performers.length = r.troupe.performers.length := by
  have hsteps := r.steps e
  generalize r.step e = next at hsteps
  cases hsteps with
  | ignores | leaves => rfl
  | acts action => exact r.troupe.length_step action

theorem length_run (r : Roster τ) (events : List Event) :
    (r.run events).troupe.performers.length = r.troupe.performers.length := by
  induction events generalizing r with
  | nil => rfl
  | cons e events ih => exact (ih _).trans (r.length_step e)

/-- Those who are there have begun, or they have not been asked to. -/
def Awake (r : Roster τ) (past : List Event) : Prop :=
  ∀ i p, r.troupe.performers[i]? = some p → i ∉ r.gone →
    p.participant.started = true ∨ p.IsFresh ∧ .acts (.cue i .askPhase) ∉ past

theorem awake_opening (h : s.Enlisted participants) : (opening s participants).Awake [] := by
  intro i p hp _
  obtain ⟨participant, hi, rfl⟩ := Option.map_eq_some_iff.mp ((List.getElem?_map ..).symm.trans hp)
  have hshows := h.shows _ (List.mem_of_getElem? hi)
  exact .inr ⟨⟨rfl, rfl, hshows.2.2⟩, List.not_mem_nil⟩

theorem Awake.acts {past : List Event} (h : r.Awake past) (action : Troupe.Action) :
    Awake { r with troupe := r.troupe.step action } (past ++ [.acts action]) := by
  intro i p hp hi
  have hoccurs := r.troupe.occurs (.own action)
  change Troupe.Occurs _ _ (r.troupe.step action) at hoccurs
  generalize r.troupe.step action = next at hp hoccurs
  cases hoccurs with
  | ignores who cue absent =>
    refine (h i p hp hi).imp id fun ⟨hfresh, hpast⟩ => ⟨hfresh, ?_⟩
    have hne : who ≠ i := by
      rintro rfl
      cases absent.symm.trans hp
    simpa [hpast] using fun heq => absurd heq.symm hne
  | around _ world others =>
    refine (h i p hp hi).imp id fun ⟨hfresh, hpast⟩ => ⟨hfresh, ?_⟩
    simpa [hpast] using fun heq => others i .askPhase (congrArg Troupe.Occurrence.own heq.symm)
  | follows who cue q present =>
    rcases getElem?_set_cases hp with ⟨rfl, rfl⟩ | ⟨hne, hp⟩
    · rcases h i q present hi with hstarted | ⟨hfresh, hpast⟩
      · exact .inl ((q.flags_follow r.troupe.world cue).1 hstarted)
      · rcases hfresh.follow r.troupe.world cue with hstarted | ⟨hcue, hsame, _⟩
        · exact .inl hstarted
        · refine .inr ⟨hsame.symm ▸ hfresh, ?_⟩
          simpa [hpast] using fun heq => absurd heq.symm hcue
    · refine (h i p hp hi).imp id fun ⟨hfresh, hpast⟩ => ⟨hfresh, ?_⟩
      simpa [hpast] using fun heq => absurd heq hne

theorem Awake.step {past : List Event} (h : r.Awake past) (e : Event) : (r.step e).Awake (past ++ [e]) := by
  have hsteps := r.steps e
  generalize r.step e = next at hsteps
  cases hsteps with
  | ignores _ absent =>
    intro i p hp hi
    refine (h i p hp hi).imp id fun ⟨hfresh, hpast⟩ => ⟨hfresh, ?_⟩
    simpa [hpast] using fun heq => hi (absent i .askPhase heq.symm)
  | acts action => exact h.acts action
  | leaves who =>
    intro i p hp hi
    refine (h i p hp (fun hgone => hi (List.mem_cons_of_mem _ hgone))).imp id fun ⟨hfresh, hpast⟩ => ⟨hfresh, ?_⟩
    simpa using hpast

theorem Awake.run {past : List Event} (h : r.Awake past) (events : List Event) :
    (r.run events).Awake (past ++ events) := by
  induction events generalizing r past with
  | nil => simpa [Roster.run] using h
  | cons e events ih =>
    have hrest := ih (h.step e)
    rwa [List.append_assoc, List.singleton_append] at hrest

/-! ## After a departure -/

theorem halts_step {b : Barrier} (h : Halts b r.troupe.world.barrier) (e : Event) :
    Halts b (r.step e).troupe.world.barrier := by
  have hsteps := r.steps e
  generalize r.step e = next at hsteps
  cases hsteps with
  | ignores => exact h
  | acts action => exact Troupe.halts_occur h (.own action)
  | leaves who p =>
    rcases p.participant.release_cases r.troupe.world.barrier with hsame | habort
    · rw [hsame]
      exact h
    · rw [habort, h.abort_eq]
      exact h

theorem halts_run {b : Barrier} (h : Halts b r.troupe.world.barrier) (events : List Event) :
    Halts b (r.run events).troupe.world.barrier := by
  induction events generalizing r with
  | nil => exact h
  | cons e events ih => exact ih (halts_step h e)

/-- While the run goes on, whoever has been given nothing but phases does not know that it is over. -/
theorem finished_eq_false (h : r.troupe.Ordered places) (hb : r.troupe.world.barrier.errored = false) {who : ℕ}
    (hp : r.troupe.performers[who]? = some p) (hreplies : ∀ reply ∈ r.troupe.replies who, ∃ n, reply = .phase n) :
    p.participant.finished = false := by
  obtain ⟨k, hk⟩ := h.exists_place hp
  obtain ⟨m, _, htold⟩ := h.stands who k p hk hp
  obtain ⟨count, htold, hcount⟩ := htold hb
  cases hf : p.participant.finished with
  | false => rfl
  | true =>
    have hover : Reply.over ∈ r.troupe.replies who := by
      rw [htold]
      exact List.mem_append_right _ (List.mem_replicate.mpr ⟨(hcount.mpr hf).ne', rfl⟩)
    obtain ⟨n, hn⟩ := hreplies _ hover
    cases hn

/-- A participant that has asked for a phase and goes away before it was told that there are no more, or that the
run is aborted, leaves nobody behind: the run is aborted, and nobody waits for anything any more. -/
theorem departure_strands_nobody (h : s.Enlisted participants) (before later : List Event) (who : ℕ)
    (hwho : who < participants.length) :
    let r := (opening s participants).run before
    who ∉ r.gone → .acts (.cue who .askPhase) ∈ before → (∀ reply ∈ r.troupe.replies who, ∃ n, reply = .phase n) →
      let u := ((r.step (.leaves who)).run later).troupe
      u.world.barrier.publishedAbort = true ∧ ∀ p ∈ u.performers, p.isBlocked u.world = false := by
  intro r hpresent hasked hreplies u
  obtain ⟨places, ho⟩ := ordered_run (r := opening s participants) (Troupe.ordered_opening h) before
  have hlength := length_run (opening s participants) before
  obtain ⟨p, hp⟩ : ∃ p, r.troupe.performers[who]? = some p :=
    ⟨_, List.getElem?_eq_getElem (by rw [hlength]; simpa [opening, Troupe.opening] using hwho)⟩
  have hstarted : p.participant.started = true := by
    rcases (awake_opening h).run before who p hp hpresent with hstarted | ⟨_, hpast⟩
    · exact hstarted
    · exact absurd hasked hpast
  have hleaves : (r.step (.leaves who)).troupe.world.barrier = p.participant.release r.troupe.world.barrier := by
    simp only [step, if_neg hpresent, hp, Option.elim_some]
  have hhalts : Halts (p.participant.release r.troupe.world.barrier) (r.step (.leaves who)).troupe.world.barrier := by
    rw [hleaves]
    exact Participant.release_halts ho.tally.sound.aborted fun hb => ⟨hstarted, finished_eq_false ho hb hp hreplies⟩
  have hlater := halts_run hhalts later
  refine ⟨hlater.aborted, fun q _ => ?_⟩
  have hholds := holds_of_errored hlater.errored
  unfold Performer.isBlocked
  split <;> simp [u, hholds]

/-- Both work in the first phase, and the second waits for its end when the first goes away. -/
theorem departure_strands_nobody_midway :
    let participants := [Stage.soloist (.iterations 1), Stage.soloist (.iterations 1)]
    let s : Stage := { plan := default, barrier := { required := 2 } }
    let go (who : ℕ) : Event := .acts (.cue who (.goOn 0))
    let before := [.acts (.cue 0 .askPhase), go 0, go 0, .acts (.cue 1 .askPhase), go 1, go 1, go 0,
      .acts (.cue 1 .askPhase), go 1]
    let r := (opening s participants).run before
    let u := ((r.step (.leaves 0)).run []).troupe
    s.Enlisted participants ∧ 0 < participants.length ∧ r.gone = [] ∧ .acts (.cue 0 .askPhase) ∈ before ∧
      r.troupe.replies 0 = [.phase 0] ∧ r.troupe.performers.map (Performer.isBlocked · r.troupe.world) = [false, true] ∧
      u.world.barrier.publishedAbort = true ∧ ∀ p ∈ u.performers, p.isBlocked u.world = false := by
  intro participants s go before r
  have hpair : s.Enlisted participants := Stage.enlisted_pair _ _ 0
  have hgone : r.gone = [] := by decide
  have hreplies : r.troupe.replies 0 = [.phase 0] := by decide
  refine ⟨hpair, by decide, hgone, by decide, hreplies, by decide, ?_⟩
  have hpresent : 0 ∉ r.gone := by simp [hgone]
  have hphases : ∀ reply ∈ r.troupe.replies 0, ∃ n, reply = .phase n := by simp [hreplies]
  have hfrees := departure_strands_nobody hpair before [] 0 (by decide) hpresent (by decide) hphases
  dsimp only [r]
  exact hfrees

/-- The first of two waits for the first phase, and the second has gone away before it asked for one. -/
def stranded (now : ℕ) : Roster Unit where
  troupe :=
    { world := { barrier := { required := 2, started := true, arrivedStart := 1 }, now }
      performers := [{ participant := { Stage.soloist (.iterations 1) with started := true }
                       activity := .advancing .arriving (some (.started 0)) },
        { participant := Stage.soloist (.iterations 1) }] }
  gone := [1]

theorem step_stranded (now : ℕ) {e : Event} (habort : e ≠ .acts .abort) (hleaves : e ≠ .leaves 0) :
    ∃ now', (stranded now).step e = stranded now' := by
  match e with
  | .acts .abort => exact absurd rfl habort
  | .acts (.tick nanos) => exact ⟨now + nanos, rfl⟩
  | .acts (.cue 0 cue) => cases cue <;> exact ⟨now, rfl⟩
  | .acts (.cue 1 cue) => exact ⟨now, rfl⟩
  | .acts (.cue (who + 2) cue) => exact ⟨now, rfl⟩
  | .leaves 0 => exact absurd rfl hleaves
  | .leaves 1 => exact ⟨now, rfl⟩
  | .leaves (who + 2) => exact ⟨now, rfl⟩

theorem run_stranded (now : ℕ) {later : List Event} (hlater : ∀ e ∈ later, e ≠ .acts .abort ∧ e ≠ .leaves 0) :
    ∃ now', (stranded now).run later = stranded now' := by
  induction later generalizing now with
  | nil => exact ⟨now, rfl⟩
  | cons e later ih =>
    obtain ⟨habort, hleaves⟩ := hlater e List.mem_cons_self
    obtain ⟨now', hstep⟩ := step_stranded now habort hleaves
    rw [run, List.foldl_cons, hstep]
    exact ih now' fun e he => hlater e (List.mem_cons_of_mem _ he)

/-- A participant that has not asked for a phase yet is not missed when it goes away: the run is not aborted, and
another that asks for the first phase waits for it, whatever anybody does, unless that aborts the run. -/
theorem departure_before_begin_strands :
    let participants := [Stage.soloist (.iterations 1), Stage.soloist (.iterations 1)]
    let s : Stage := { plan := default, barrier := { required := 2 } }
    let go : Event := .acts (.cue 0 (.goOn 0))
    let r := (opening s participants).run [.leaves 1, .acts (.cue 0 .askPhase), go, go]
    s.Enlisted participants ∧ r.gone = [1] ∧ r.troupe.past = [] ∧
      ∀ later, (∀ e ∈ later, e ≠ .acts .abort ∧ e ≠ .leaves 0) →
        let u := (r.run later).troupe
        u.world.barrier.publishedAbort = false ∧ u.performers[0]?.any (Performer.isBlocked · u.world) = true := by
  intro participants s go r
  refine ⟨Stage.enlisted_pair _ _ 0, by decide, by decide, fun later hlater => ?_⟩
  have hr : r = stranded 0 := rfl
  obtain ⟨now, hnow⟩ := run_stranded 0 hlater
  rw [hr, hnow]
  exact ⟨rfl, rfl⟩

end Roster
end PhasedWorkload
