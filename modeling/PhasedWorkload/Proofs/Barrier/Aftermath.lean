import PhasedWorkload.Proofs.Barrier.Laws

/-! # After an abort

An abort stops the barrier for good. No section counts anything any more; each comes back at once with a
refusal, whatever its caller was waiting for and however late it wakes.
-/
namespace PhasedWorkload

open Barrier

namespace Barrier

variable {b c : Barrier} {call : Call} {caller : Option Wait} {v : Visit}

/-- A state after an abort, with the counts that there were at the time. -/
structure Halts (b c : Barrier) : Prop where
  errored : c.errored = true
  aborted : c.publishedAbort = true
  starts : c.starts = b.starts
  ends : c.ends = b.ends
  arrivedStart : c.arrivedStart = b.arrivedStart
  arrivedEnd : c.arrivedEnd = b.arrivedEnd
  phase : c.publishedPhase = b.publishedPhase

theorem halts_abort (b : Barrier) : Halts b b.abort := ⟨rfl, rfl, rfl, rfl, rfl, rfl, rfl⟩

theorem Halts.started (h : Halts b c) : Halts b { c with started := true } :=
  ⟨h.errored, h.aborted, h.starts, h.ends, h.arrivedStart, h.arrivedEnd, h.phase⟩

theorem Halts.abort_eq (h : Halts b c) : c.abort = c := by
  have herrored := h.errored
  have haborted := h.aborted
  cases c
  simp_all [Barrier.abort]

theorem Section.refused (hv : Section b call caller v) (hb : b.errored = true) :
    v = ⟨b, .answered call.refusal, false⟩ ∨ v = ⟨{ b with started := true }, .answered call.refusal, false⟩ := by
  rcases hv.kind with hv | ⟨_, hv⟩
  · exact .inl (hv.refused hb)
  · exact .inr (hv.refused hb)

theorem Halts.section (h : Halts b c) (hv : Section c call caller v) : Halts b v.barrier := by
  rcases hv.refused h.errored with hv | hv <;> rw [hv]
  · exact h
  · exact h.started

/-- What anybody may do to a barrier. -/
inductive Operation where
  | register (count : ℕ)
  | reach (phase : ℕ)
  | enter (call : Call)
  | wake (wait : Wait)
  | abort
deriving DecidableEq, Repr

def operate (b : Barrier) : Operation → Barrier
  | .register count => (b.addRequired count).toOption.getD b
  | .reach phase => b.reachPhase phase
  | .enter call => (b.enter call).barrier
  | .wake wait => (b.wake wait).barrier
  | .abort => b.abort

theorem Halts.register (h : Halts b c) (count : ℕ) : Halts b { c with required := c.required + count } :=
  ⟨h.errored, h.aborted, h.starts, h.ends, h.arrivedStart, h.arrivedEnd, h.phase⟩

theorem Halts.reachPhase (h : Halts b c) (phase : ℕ) : Halts b (c.reachPhase phase) :=
  ⟨h.errored, h.aborted, h.starts, h.ends, h.arrivedStart, h.arrivedEnd, h.phase⟩

theorem Halts.operate (h : Halts b c) (o : Operation) : Halts b (c.operate o) := by
  cases o with
  | register count =>
    cases hs : c.started with
    | true => simpa [Barrier.operate, addRequired, hs, Except.toOption] using h
    | false => simpa [Barrier.operate, addRequired, hs, Except.toOption] using h.register count
  | reach phase => exact h.reachPhase phase
  | enter call => exact h.section .enter
  | wake wait =>
    have hsame : (c.wake wait).barrier = c := by
      rcases wake_aborted h.errored wait with hw | hw <;> rw [hw]
    rw [Barrier.operate, hsame]
    exact h
  | abort => rwa [Barrier.operate, h.abort_eq]

end Barrier

namespace Gathering

variable {g g' g'' : Gathering} {a : Action} {who : ℕ} {call : Call} {v : Visit}

/-- What has become of the callers since an abort: all that still sleep have been notified, and all calls that
have come back since then have been refused. -/
structure Aftermath (g h : Gathering) : Prop where
  orderly : h.Orderly
  halts : Halts g.barrier h.barrier
  notified : ∀ (who : ℕ) (s : Sleeper), h.crowd.callers[who]? = some (some s) → s.notified = true
  refused : ∃ new, h.past = new ++ g.past ∧ ∀ r ∈ new, r.answer = r.call.refusal

theorem notified_of_mem_notify {callers : List (Option Sleeper)} {s : Sleeper}
    (hs : (Crowd.notify callers)[who]? = some (some s)) : s.notified = true := by
  rw [Crowd.getElem?_notify] at hs
  obtain ⟨caller, _, hcaller⟩ := Option.map_eq_some_iff.mp hs
  obtain ⟨before, _, rfl⟩ := Option.map_eq_some_iff.mp hcaller
  rfl

theorem Orderly.aftermath_abort (h : g.Orderly) : Aftermath g (g.step .abort) :=
  ⟨h.step .abort, halts_abort g.barrier, fun _ _ hs => notified_of_mem_notify hs, [], rfl, by simp⟩

/-- A section after an abort ends its call. -/
theorem record_refused {caller : Option Wait} (who : ℕ) (hv : Section g.barrier call caller v)
    (hb : g.barrier.errored = true) :
    let h := g.record who call (g.crowd.record who v, Crowd.answer? v)
    h.past = ⟨who, call, call.refusal⟩ :: g.past ∧ h.crowd.callers = g.crowd.callers.set who none := by
  intro h
  have hanswer : v.outcome = .answered call.refusal ∧ v.notifies = false := by
    rcases hv.refused hb with hv | hv <;> rw [hv] <;> exact ⟨rfl, rfl⟩
  obtain ⟨houtcome, hquiet⟩ := hanswer
  constructor
  · simp [h, Gathering.record, Crowd.answer?, houtcome]
  · simp [h, Gathering.record, Crowd.record, houtcome, hquiet]

theorem Aftermath.changed (h : Aftermath g g') (hg : g'.Changes a g'') : Aftermath g g'' := by
  have ho : g''.Orderly := h.orderly.changed hg
  cases hg with
  | nothing => exact h
  | registers count => exact ⟨ho, h.halts.register count, h.notified, h.refused⟩
  | reaches phase => exact ⟨ho, h.halts.reachPhase phase, h.notified, h.refused⟩
  | aborts =>
    have habort : g'.barrier.abort = g'.barrier := h.halts.abort_eq
    refine ⟨ho, ?_, fun who s hs => notified_of_mem_notify hs, h.refused⟩
    change Halts g.barrier g'.barrier.abort
    rw [habort]
    exact h.halts
  | visits _ who call caller v hsection =>
    obtain ⟨hpast, hcallers⟩ := record_refused who hsection h.halts.errored
    obtain ⟨new, hnew, hrefused⟩ := h.refused
    refine ⟨ho, h.halts.section hsection, ?_, ⟨who, call, call.refusal⟩ :: new, ?_, ?_⟩
    · intro other s hs
      rw [hcallers] at hs
      by_cases hother : who = other
      · subst hother
        simp [List.getElem?_set_self'] at hs
      · rw [List.getElem?_set_ne hother] at hs
        exact h.notified other s hs
    · rw [hpast, hnew, List.cons_append]
    · simpa using hrefused

theorem Aftermath.run (h : Aftermath g g') (actions : List Action) : Aftermath g (g'.run actions) := by
  induction actions generalizing g' with
  | nil => exact h
  | cons a actions ih => exact ih (h.changed (h.orderly.changes a))

/-- A caller is back from a call with a refusal, and nothing else has happened to its past. -/
def Refuses (g g' : Gathering) (who : ℕ) (call : Call) : Prop :=
  g'.crowd.callers[who]? = some none ∧ g'.past = ⟨who, call, call.refusal⟩ :: g.past

theorem Aftermath.ends_call (h : Aftermath g g') {caller : Option Wait} (hv : Section g'.barrier call caller v)
    (hi : who < g'.crowd.callers.length)
    (hstep : g'.step a = g'.record who call (g'.crowd.record who v, Crowd.answer? v)) :
    g'.Refuses (g'.step a) who call := by
  obtain ⟨hpast, hcallers⟩ := record_refused who hv h.halts.errored
  rw [Refuses, hstep, hpast, hcallers]
  exact ⟨List.getElem?_set_self hi, rfl⟩

/-- A caller that was still asleep leaves its call the next time it looks. -/
theorem Aftermath.leaves (h : Aftermath g g') (hinside : g'.calls[who]? = some (some call)) :
    g'.Refuses (g'.step (.wake who)) who call := by
  obtain ⟨s, hs, hmay⟩ := h.orderly.exists_caller hinside
  obtain ⟨hi, _⟩ := List.getElem?_eq_some_iff.mp hs
  have hwait : g'.crowd.wait? who = some s.wait := by simp [Crowd.wait?, hs]
  refine h.ends_call (.wake s.wait hmay) hi ?_
  simp only [step, hinside, Option.join_some, Option.elim_some, Crowd.wake_eq hwait]
  rfl

/-- A call that is made after an abort comes back at once. -/
theorem Aftermath.refuses (h : Aftermath g g') (hfree : g'.crowd.callers[who]? = some none) (call : Call) :
    g'.Refuses (g'.step (.call who call)) who call := by
  obtain ⟨hi, _⟩ := List.getElem?_eq_some_iff.mp hfree
  exact h.ends_call (.enter) hi (step_free hfree call)

/-- There is nobody left to notify. -/
theorem Aftermath.abort_eq (h : Aftermath g g') : g'.step .abort = g' := by
  have hbarrier : g'.crowd.barrier.abort = g'.crowd.barrier := h.halts.abort_eq
  have hcallers : Crowd.notify g'.crowd.callers = g'.crowd.callers := by
    refine List.ext_getElem? fun who => ?_
    rw [Crowd.getElem?_notify]
    rcases hs : g'.crowd.callers[who]? with _ | _ | s
    · rfl
    · rfl
    · simp [← h.notified who s hs]
  simp only [step, Crowd.abort, hbarrier, hcallers]

/-- What is known of a state after an abort, and of everything that may be done next. -/
structure Stopped (g h : Gathering) : Prop where
  aborted : h.barrier.publishedAbort = true ∧ h.barrier.hasMorePhases = false
  generations : h.barrier.starts = g.barrier.starts ∧ h.barrier.ends = g.barrier.ends
  arrivals : h.barrier.arrivedStart = g.barrier.arrivedStart ∧ h.barrier.arrivedEnd = g.barrier.arrivedEnd
  currentPhase : h.barrier.publishedPhase = g.barrier.publishedPhase
  completed : ∃ new, h.past = new ++ g.past ∧ ∀ r ∈ new, r.answer = r.call.refusal
  unblocked : ∀ (who : ℕ) (s : Sleeper), h.crowd.callers[who]? = some (some s) →
    s.notified = true ∧ h.barrier.holds s.wait = false ∧
      ∃ call, h.calls[who]? = some (some call) ∧ h.Refuses (h.step (.wake who)) who call
  refuses : ∀ (who : ℕ) (call : Call), h.crowd.callers[who]? = some none →
    h.Refuses (h.step (.call who call)) who call
  again : h.step .abort = h

theorem Aftermath.stopped (h : Aftermath g g') : g.Stopped g' where
  aborted := ⟨h.halts.aborted, by simp [hasMorePhases, h.halts.errored]⟩
  generations := ⟨h.halts.starts, h.halts.ends⟩
  arrivals := ⟨h.halts.arrivedStart, h.halts.arrivedEnd⟩
  currentPhase := h.halts.phase
  completed := h.refused
  unblocked := by
    intro who s hs
    obtain ⟨call, hcall, _, _⟩ := h.orderly.exists_call hs
    exact ⟨h.notified who s hs, holds_of_errored h.halts.errored _, call, hcall, h.leaves hcall⟩
  refuses := fun who call hfree => h.refuses hfree call
  again := h.abort_eq

end Gathering

end PhasedWorkload
