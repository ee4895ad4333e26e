import PhasedWorkload.Proofs.Barrier.Usage

/-! # Laws of free use

Whatever callers do at the barrier: its generations alternate and arrivals are counted at the open meeting
point only; the current phase moves on by one each time a phase drains and at no other time; and a sleeping
caller whose wait is over has been notified.
-/
namespace PhasedWorkload

open Barrier

namespace Barrier

variable {b c d : Barrier} {call : Call} {caller : Option Wait} {v : Visit}

/-- The numbers of phases only grow, and the participants are fixed once one of them has begun. -/
structure Grows (b c : Barrier) : Prop where
  currentPhase : b.publishedPhase ≤ c.publishedPhase
  maxPhase : b.maxPhase ≤ c.maxPhase
  started : b.started = true → c.started = true
  required : b.started = true → c.required = b.required

theorem Grows.refl (b : Barrier) : Grows b b := ⟨le_rfl, le_rfl, id, fun _ => rfl⟩

theorem Grows.trans (h : Grows b c) (h' : Grows c d) : Grows b d :=
  ⟨h.currentPhase.trans h'.currentPhase, h.maxPhase.trans h'.maxPhase, fun hb => h'.started (h.started hb),
    fun hb => (h'.required (h.started hb)).trans (h.required hb)⟩

theorem grows_arriveAtStart (b : Barrier) : Grows b b.arriveAtStart.barrier := by
  by_cases hlast : b.required ≤ b.arrivedStart + 1
  · rw [arriveAtStart_last hlast]
    exact ⟨le_rfl, le_rfl, id, fun _ => rfl⟩
  · rw [arriveAtStart_early hlast]
    exact ⟨le_rfl, le_rfl, id, fun _ => rfl⟩

theorem Sound.grows_arriveAtEnd (h : b.Sound) (waits : Bool) : Grows b (b.arriveAtEnd waits).barrier := by
  by_cases hlast : b.required ≤ b.arrivedEnd + 1
  · rw [arriveAtEnd_last waits hlast]
    have hphase : b.publishedPhase ≤ b.ends + 1 := h.phase.trans_le (Nat.le_succ _)
    exact ⟨hphase, le_rfl, id, fun _ => rfl⟩
  · rw [arriveAtEnd_early waits hlast]
    exact ⟨le_rfl, le_rfl, id, fun _ => rfl⟩

theorem Sound.grows_kind (h : b.Sound) (hv : Kind b call caller v) : Grows b v.barrier := by
  cases hv with
  | waits | answers => exact .refl b
  | starts => exact grows_arriveAtStart b
  | ends waits => exact h.grows_arriveAtEnd waits

theorem Sound.grows_section (h : b.Sound) (hv : Section b call caller v) : Grows b v.barrier := by
  rcases hv.kind with hv | ⟨_, hv⟩
  · exact h.grows_kind hv
  · have hstarted : Grows b { b with started := true } := ⟨le_rfl, le_rfl, fun _ => rfl, fun _ => rfl⟩
    exact hstarted.trans (h.started.grows_kind hv)

theorem started_start (b : Barrier) :
    (b.enter .start).barrier.started = true ∧ (b.enter .start).barrier.required = b.required := by
  have hgrows := grows_arriveAtStart { b with started := true }
  have henter : (b.enter .start).barrier = (wake { b with started := true } .drained).barrier := rfl
  rw [henter]
  rcases wake_barrier { b with started := true } .drained with h | h <;> rw [h]
  · exact ⟨rfl, rfl⟩
  · exact ⟨hgrows.started rfl, hgrows.required rfl⟩

/-- Only an arrival at the end moves the current phase or ends a running one. -/
theorem Kind.steady (hv : Kind b call caller v) (hnot : ∀ waits, call = .finish waits → caller = none →
      b.errored = false → b.isRunning = true → ¬b.required ≤ b.arrivedEnd + 1) :
    v.barrier.publishedPhase = b.publishedPhase ∧ (b.isRunning = true → v.barrier.isRunning = true) := by
  cases hv with
  | waits | answers => exact ⟨rfl, id⟩
  | starts alive idle starts =>
    have hidle : b.isRunning = false := by simpa [isRunning] using idle
    refine ⟨?_, fun hrun => absurd hrun (by simp [hidle])⟩
    unfold arriveAtStart
    split <;> rfl
  | ends waits alive running ends entered =>
    have hrun : b.isRunning = true := by simpa [isRunning] using running
    rw [arriveAtEnd_early waits (hnot waits ends entered alive hrun)]
    exact ⟨rfl, id⟩

/-- Whoever looks and has to go on waiting changes nothing. -/
theorem Section.barrier_of_holds {w : Wait} (hv : Section b call (some w) v) (hw : b.holds w = true) :
    v.barrier = b := by
  cases hv with
  | wake => rw [wake_of_holds hw]
  | expire => rfl

end Barrier

namespace Gathering

variable {g g' : Gathering} {a : Action} {who : ℕ} {call : Call}

/-! ## The numbers of the barrier -/

theorem Orderly.grows (h : g.Orderly) (hg : g.Changes a g') : Grows g.barrier g'.barrier := by
  cases hg with
  | nothing => exact .refl _
  | registers count early => exact ⟨le_rfl, le_rfl, by simp [early], by simp [early]⟩
  | reaches phase => exact ⟨le_rfl, le_max_left _ _, id, fun _ => rfl⟩
  | visits _ who call caller v hsection => exact h.sound.grows_section hsection
  | aborts => exact ⟨le_rfl, le_rfl, id, fun _ => rfl⟩

theorem Orderly.grows_run (h : g.Orderly) (actions : List Action) : Grows g.barrier (g.run actions).barrier := by
  induction actions generalizing g with
  | nil => exact .refl _
  | cons a actions ih => exact (h.grows (h.changes a)).trans (ih (h.step a))

/-- A caller ends a running phase as the last one that is required. -/
def Drains (g : Gathering) (a : Action) : Prop :=
  g.barrier.errored = false ∧ g.barrier.isRunning = true ∧ g.barrier.required ≤ g.barrier.arrivedEnd + 1 ∧
    ∃ who waits, a = .call who (.finish waits) ∧ g.crowd.callers[who]? = some none

theorem Orderly.drain (h : g.Orderly) (hd : g.Drains a) :
    (g.step a).barrier.publishedPhase = g.barrier.publishedPhase + 1 ∧ (g.step a).barrier.isRunning = false := by
  obtain ⟨hb, hrun, hlast, who, waits, rfl, hfree⟩ := hd
  have hlt : g.barrier.ends < g.barrier.starts := by simpa [isRunning] using hrun
  have hstarts := h.sound.starts_le
  have hvisit : (g.step (.call who (.finish waits))).barrier = (g.barrier.arriveAtEnd waits).barrier := by
    rw [step_free hfree, ← enter_finish_running waits hlt hb]
    rfl
  rw [hvisit, arriveAtEnd_last waits hlast]
  refine ⟨by rw [h.sound.phase], ?_⟩
  simp only [isRunning, decide_eq_false_iff_not]
  omega

theorem Changes.steady (hg : g.Changes a g') (hnot : ¬g.Drains a) :
    g'.barrier.publishedPhase = g.barrier.publishedPhase ∧
      (g.barrier.isRunning = true → g'.barrier.isRunning = true) := by
  cases hg with
  | nothing | registers | reaches | aborts => exact ⟨rfl, id⟩
  | visits _ who call caller v hsection hcaller entered =>
    have hnever : ∀ waits, call = .finish waits → caller.map Sleeper.wait = none → g.barrier.errored = false →
        g.barrier.isRunning = true → ¬g.barrier.required ≤ g.barrier.arrivedEnd + 1 := by
      intro waits hcall hnone hb hrun hlast
      have hnone : caller = none := Option.map_eq_none_iff.mp hnone
      subst hnone hcall
      exact hnot ⟨hb, hrun, hlast, who, waits, entered rfl, hcaller⟩
    rcases hsection.kind with hv | ⟨_, hv⟩
    · exact hv.steady hnever
    · exact hv.steady hnever

theorem step_register_started (hs : g.barrier.started = true) (count : ℕ) :
    g.crowd.addRequired count = .error (.configuration location .lateParticipant) ∧ g.step (.register count) = g := by
  have hadd : g.crowd.addRequired count = .error (.configuration location .lateParticipant) := by
    have hs : g.crowd.barrier.started = true := hs
    simp [Crowd.addRequired, addRequired, hs, Except.map]
  exact ⟨hadd, by rw [step, hadd]; rfl⟩

/-- Whatever any number of callers do in whatever order: the generations of start and end alternate; arrivals
are counted at the open meeting point only, and less of them than would release it; what is read without the
lock is up to date; the current phase moves on by one when the last one that is required ends a running phase,
and at no other time; the last phase never comes nearer; and once the start has been called nobody can be
registered any more. -/
theorem order_of_use (callers : ℕ) (actions : List Action) :
    let g := (opening callers).run actions
    let b := g.barrier
    (b.ends ≤ b.starts ∧ b.starts ≤ b.ends + 1) ∧
    (b.isRunning = true → b.arrivedStart = 0 ∧ b.arrivedEnd < max b.required 1) ∧
    (b.isRunning = false → b.arrivedEnd = 0 ∧ b.arrivedStart < max b.required 1) ∧
    (b.publishedPhase = b.ends ∧ b.publishedAbort = b.errored) ∧
    (∀ a, (g.Drains a →
        (g.step a).barrier.publishedPhase = b.publishedPhase + 1 ∧ (g.step a).barrier.isRunning = false) ∧
      (¬g.Drains a → (g.step a).barrier.publishedPhase = b.publishedPhase ∧
        (b.isRunning = true → (g.step a).barrier.isRunning = true))) ∧
    (∀ later, b.publishedPhase ≤ (g.run later).barrier.publishedPhase ∧
      b.maxPhase ≤ (g.run later).barrier.maxPhase) ∧
    (∀ who, g.crowd.callers[who]? = some none → ∀ later,
      let h := (g.step (.call who .start)).run later
      h.barrier.required = b.required ∧ ∀ count,
        h.crowd.addRequired count = .error (.configuration location .lateParticipant) ∧
        h.step (.register count) = h) := by
  intro g b
  have ho : g.Orderly := (orderly_opening callers).run actions
  have hsound : b.Sound := ho.sound
  refine ⟨⟨hsound.ends_le, hsound.starts_le⟩, ?_, ?_, ⟨hsound.phase, hsound.aborted⟩, ?_, ?_, ?_⟩
  · intro hrun
    exact hsound.running (by simpa [isRunning] using hrun)
  · intro hidle
    exact hsound.idle (by simpa [isRunning] using hidle)
  · intro a
    exact ⟨ho.drain, fun hnot => (ho.changes a).steady hnot⟩
  · intro later
    have hgrows := ho.grows_run later
    exact ⟨hgrows.currentPhase, hgrows.maxPhase⟩
  · intro who hfree later h
    have hcalled : (g.step (.call who .start)).barrier = (b.enter .start).barrier := by
      rw [step_free hfree]
      rfl
    have hgrows := (ho.step (.call who .start)).grows_run later
    obtain ⟨hstarted, hrequired⟩ := started_start b
    rw [← hcalled] at hstarted hrequired
    exact ⟨(hgrows.required hstarted).trans hrequired,
      fun count => step_register_started (hgrows.started hstarted) count⟩

/-! ## Wakeups -/

theorem Changes.notified {s : Sleeper} (hg : g.Changes a g') (hs : g.crowd.callers[who]? = some (some s))
    (hw : g.barrier.holds s.wait = true) (hover : g'.barrier.holds s.wait = false) :
    g'.crowd.callers[who]? = some (some { s with notified := true }) := by
  have hsame : (∀ w, g'.barrier.holds w = g.barrier.holds w) → False := by
    intro hall
    rw [hall, hw] at hover
    cases hover
  cases hg with
  | nothing => exact (hsame fun _ => rfl).elim
  | registers | reaches => exact (hsame (holds_congr rfl rfl rfl)).elim
  | aborts => simp [Crowd.abort, Crowd.getElem?_notify, hs]
  | visits _ other call caller v hsection hcaller =>
    simp only [Gathering.record]
    by_cases hother : who = other
    · subst hother
      obtain rfl : caller = some s := Option.some.inj (hcaller.symm.trans hs)
      have hbarrier := hsection.barrier_of_holds hw
      refine (hsame fun w => ?_).elim
      change v.barrier.holds w = g.barrier.holds w
      rw [hbarrier]
    · rw [Crowd.callers_record_ne v hother]
      cases hn : v.notifies with
      | true => simp [Crowd.getElem?_notify, hs]
      | false => exact (hsame (hsection.holds_of_quiet hn)).elim

/-- No wakeup is lost, whatever any number of callers do in whatever order: a sleeping caller that has not been
notified since it last looked still has something to wait for, and a step that ends the wait of a sleeping
caller notifies it. -/
theorem no_wakeup_lost (callers : ℕ) (actions : List Action) :
    let g := (opening callers).run actions
    (∀ (who : ℕ) (s : Sleeper), g.crowd.callers[who]? = some (some s) → s.notified = false →
      g.barrier.holds s.wait = true) ∧
    ∀ (a : Action) (who : ℕ) (s : Sleeper), g.crowd.callers[who]? = some (some s) →
      g.barrier.holds s.wait = true → (g.step a).barrier.holds s.wait = false →
      (g.step a).crowd.callers[who]? = some (some { s with notified := true }) := by
  intro g
  have ho : g.Orderly := (orderly_opening callers).run actions
  constructor
  · intro who s hs hnotified
    obtain ⟨call, _, _, hholds⟩ := ho.exists_call hs
    exact hholds hnotified
  · intro a who s hs hw hover
    exact (ho.changes a).notified hs hw hover

/-- The first caller sleeps until the start of the first phase. The second starts the phase, leaves it without
waiting and calls the next start, all before the first looks again: only the first is notified. -/
example : ((opening 2).run [.register 2, .call 0 .start, .call 1 .start, .call 1 (.finish false),
      .call 1 .start]).crowd.callers = [some ⟨.started 0, true⟩, some ⟨.drained, false⟩] := by decide

end Gathering

end PhasedWorkload
