import PhasedWorkload.Proofs.Run.Totals

/-! # Rounds

A run that is played in rounds follows a schedule: a round is a step of the conductor, then steps of threads that
can take one, and time that passes. The delays only choose the schedule. So what holds of a run in every order
holds of a run that is played.
-/
namespace PhasedWorkload.Playing

variable {q q' q'' : Playing} {i : ℕ}

/-! ## Delays -/

theorem step_delays (q : Playing) (delays : List ℕ) (i jitter : ℕ) :
    step { q with delays } i jitter = { q.step i jitter with delays } := by
  unfold step
  dsimp only
  split <;> rfl

theorem follow_delays (q : Playing) (delays : List ℕ) (a : Action) :
    follow { q with delays } a = { q.follow a with delays } := by
  cases a with
  | conduct | tick => rfl
  | act i jitter =>
    unfold follow
    dsimp only
    split
    · exact q.step_delays delays i jitter
    · rfl

theorem after_delays (q : Playing) (delays : List ℕ) (actions : List Action) :
    after { q with delays } actions = { q.after actions with delays } := by
  induction actions generalizing q with
  | nil => rfl
  | cons a actions ih =>
    change after (follow { q with delays } a) actions = _
    rw [follow_delays, ih]
    rfl

/-! ## What follows a schedule -/

/-- Some schedule leads from one to the other, up to the delays. -/
def LeadsTo (q q' : Playing) : Prop := ∃ actions, q' = { q.after actions with delays := q'.delays }

theorem LeadsTo.refl (q : Playing) : LeadsTo q q := ⟨[], rfl⟩

theorem LeadsTo.trans (h : LeadsTo q q') (h' : LeadsTo q' q'') : LeadsTo q q'' := by
  obtain ⟨actions, heq⟩ := h
  obtain ⟨actions', heq'⟩ := h'
  refine ⟨actions ++ actions', ?_⟩
  have happend : q.after (actions ++ actions') = (q.after actions).after actions' := List.foldl_append
  rw [heq, after_delays] at heq'
  rw [happend]
  exact heq'

theorem LeadsTo.delay (h : LeadsTo q q') (delays : List ℕ) : LeadsTo q { q' with delays } := by
  obtain ⟨actions, heq⟩ := h
  rw [heq]
  exact ⟨actions, rfl⟩

theorem leadsTo_later (q : Playing) (nanos : ℕ) : LeadsTo q { q with run.world.now := q.run.world.now + nanos } :=
  ⟨[.tick nanos], rfl⟩

theorem leadsTo_step (hcan : q.run.canStep i = true) : LeadsTo q (q.step i 0) := by
  have hspawned : q.run.isSpawned i = true := by
    unfold Run.canStep at hcan
    split at hcan
    · exact (Bool.and_eq_true_iff.mp (Bool.and_eq_true_iff.mp hcan).1).1
    · cases hcan
  have hfollow : q.after [.act i 0] = q.step i 0 := if_pos hspawned
  exact ⟨[.act i 0], by rw [hfollow]⟩

theorem leadsTo_visit (hcan : q.run.canStep i = true) : LeadsTo q (q.visit i) := by
  unfold visit
  split
  · exact (LeadsTo.refl q).delay _
  · exact (leadsTo_step hcan).delay _

theorem leadsTo_visits (q : Playing) (threads : List ℕ) :
    LeadsTo q (threads.foldl (fun p i => if p.run.canStep i then p.visit i else p) q) := by
  induction threads generalizing q with
  | nil => exact .refl q
  | cons i threads ih =>
    refine LeadsTo.trans ?_ (ih _)
    dsimp only
    split
    · next hcan => exact leadsTo_visit hcan
    · exact .refl q

theorem leadsTo_skip (q : Playing) (rounds : ℕ) : LeadsTo q (q.skip rounds) := (q.leadsTo_later _).delay _

theorem leadsTo_round (q : Playing) : LeadsTo q q.round := by
  have hconduct : LeadsTo q { q with run := q.run.conduct } := ⟨[.conduct], rfl⟩
  exact ((hconduct.trans (leadsTo_skip _ _)).trans (leadsTo_visits _ _)).trans (leadsTo_later _ _)

theorem leadsTo_playWithin (fuel : ℕ) (q : Playing) : LeadsTo q (playWithin fuel q) := by
  induction fuel generalizing q with
  | zero => exact .refl q
  | succ fuel ih =>
    unfold playWithin
    split
    · exact (leadsTo_round q).trans (ih _)
    · split
      · exact .refl q
      · exact .refl q
      · next wake _ _ =>
        have hlater := q.leadsTo_later (max (q.run.world.now + 1) wake - q.run.world.now)
        rw [Nat.add_sub_cancel' (by omega)] at hlater
        exact hlater.trans (ih _)

/-- The run that is played is the run in some order. -/
theorem exists_actions_play (q : Playing) : ∃ actions, q.play.run = (q.after actions).run := by
  obtain ⟨actions, heq⟩ := leadsTo_playWithin maxRounds q
  have hrun := congrArg Playing.run heq
  exact ⟨actions, hrun⟩

/-- Greeters whose iterations are given do what the plan says when they are played. -/
theorem play_reckons {plan : Plan} {now : ℕ} {p : Production Actor}
    (h : Production.make plan Company.standard now = .ok p)
    (hblocks : ∀ e ∈ plan.entries, ∀ b ∈ e.blocks, b.IsBounded) {result : Except Fault RunReport}
    (hresult : (make p).play.run.result? = some result) :
    result = .ok ⟨plan.threads, phases plan.threads p.stage.barrier.maxPhase⟩ ∧ (make p).play.run.Reckons plan ∧
      (make p).play.run.counters.get Actor.greetings = plan.greetings := by
  obtain ⟨actions, heq⟩ := (make p).exists_actions_play
  rw [heq] at hresult ⊢
  obtain ⟨hok, done, hlogs, hdone⟩ := greetings_done h hblocks actions hresult
  have hemploys := Company.employs_make h
  exact ⟨hok, hlogs.reckons hemploys hblocks hdone, hlogs.greetings hemploys hblocks hdone⟩

end PhasedWorkload.Playing
