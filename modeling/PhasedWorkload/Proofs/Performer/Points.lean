import PhasedWorkload.Participant.Basic
import PhasedWorkload.Proofs.Barrier.Sections
import PhasedWorkload.Proofs.Keyed

/-! # The points of a participant

A participant that asks for the next phase goes from one section to the next. The point where it is tells
its place at the barrier and how many phases it has been given, and so does what it still owes while it is
at rest. The decision that there is one more phase and the arrival at its start are two sections, but the
barrier cannot move between them: nobody passes that start without the one that has decided.
-/
namespace PhasedWorkload

open Barrier

namespace Participant

variable {τ : Type} {b c : Barrier} {k m i : ℕ} {places : List ℕ} {point : Point} {wait : Option Wait}

theorem slot?_updateSlot (p : Participant τ) (n : ℕ) (change : Slot τ → Slot τ) (phase : ℕ) :
    (p.updateSlot n change).slot? phase = if phase = n then (p.slot? phase).map change else p.slot? phase :=
  Keyed.lookup_change p.slots n change phase

/-- The place and the number of phases that it was given, by the point and by what it waits for. -/
inductive Point.At (b : Barrier) : ℕ → ℕ → Point → Option Wait → Prop where
  | finishing (n : ℕ) (running : n < b.starts) : At b (2 * n + 1) (n + 1) (.settling .finish) none
  | ending (n : ℕ) : At b (2 * n + 2) (n + 1) (.settling .finish) (some (.ended n))
  | leaving (n : ℕ) : At b (2 * n + 2) (n + 1) (.settling (.advance n)) none
  | advancing (n : ℕ) : At b (2 * n + 2) (n + 1) (.settling (.advance n)) (some (.advanced n))
  | deciding (n : ℕ) (passed : n ≤ b.ends) : At b (2 * n) n .deciding none
  | confirming (n : ℕ) (passed : n ≤ b.ends) (last : b.maxPhase < n) : At b (2 * n) n .confirming none
  | arriving (n : ℕ) (passed : n ≤ b.ends) (more : n ≤ b.maxPhase) : At b (2 * n) n .arriving none
  | assembling (n : ℕ) (more : n ≤ b.maxPhase) : At b (2 * n + 1) n .arriving (some (.started n))
  | departing (n : ℕ) (running : n < b.starts) : At b (2 * n + 1) n (.departing n) none

/-- What a section at a point answers, by the place after it. -/
inductive Point.Answers (b : Barrier) : ℕ → ℕ → Point → Answer → Prop where
  | settled (n : ℕ) (pending : Pending) (passed : n < b.ends) :
    Answers b (2 * n + 2) (n + 1) (.settling pending) (.went true)
  | decided (n : ℕ) (passed : n ≤ b.ends) : Answers b (2 * n) n .deciding (.went (n ≤ b.maxPhase))
  | confirmed (n : ℕ) (passed : n ≤ b.ends) (last : b.maxPhase < n) :
    Answers b (2 * n) n .confirming (.went false)
  | given (n : ℕ) (running : n < b.starts) : Answers b (2 * n + 1) n .arriving (.phase n)
  | departed (n : ℕ) (running : n < b.starts) : Answers b (2 * n + 2) n (.departing n) (.went true)

def Shows (p : Participant τ) (pending : Option Pending) (started finished : Bool) : Prop :=
  p.pending = pending ∧ p.started = started ∧ p.finished = finished

/-- The place and the number of phases of a participant that does not ask for the next one. -/
inductive AtRest (b : Barrier) (p : Participant τ) : ℕ → ℕ → Prop where
  | fresh (shows : p.Shows none false false) : AtRest b p 0 0
  | inside (n : ℕ) (shows : p.Shows (some .finish) true false) (running : n < b.starts) :
    AtRest b p (2 * n + 1) (n + 1)
  | left (n : ℕ) (shows : p.Shows (some (.advance n)) true false) : AtRest b p (2 * n + 2) (n + 1)
  | finished (n : ℕ) (shows : p.Shows none true true) (passed : n ≤ b.ends) (last : b.maxPhase < n) :
    AtRest b p (2 * n) n

theorem Point.At.later (h : point.At b k m wait) (hbc : Precedes b c) : point.At c k m wait := by
  have hs := hbc.starts_le
  have he := hbc.ends_le
  have hm := hbc.maxPhase_eq
  cases h with
  | finishing n running => exact .finishing n (running.trans_le hs)
  | ending n => exact .ending n
  | leaving n => exact .leaving n
  | advancing n => exact .advancing n
  | deciding n passed => exact .deciding _ (passed.trans he)
  | confirming n passed last => exact .confirming _ (passed.trans he) (hm ▸ last)
  | arriving n passed more => exact .arriving _ (passed.trans he) (hm ▸ more)
  | assembling n more => exact .assembling _ (hm ▸ more)
  | departing n running => exact .departing _ (running.trans_le hs)

theorem AtRest.later {p : Participant τ} (h : p.AtRest b k m) (hbc : Precedes b c) : p.AtRest c k m := by
  cases h with
  | fresh shows => exact .fresh shows
  | inside n shows running => exact .inside n shows (running.trans_le hbc.starts_le)
  | left n shows => exact .left n shows
  | finished n shows passed last => exact .finished _ shows (passed.trans hbc.ends_le) (hbc.maxPhase_eq ▸ last)

/-! ## The sections -/

/-- The section of a participant at a point, which enters a call or wakes from a wait. -/
def Point.visit (b : Barrier) (point : Point) : Option Wait → Visit
  | none => point.enter b
  | some wait => b.wake wait

theorem Point.precedes_visit (b : Barrier) (point : Point) (wait : Option Wait) :
    Precedes b (point.visit b wait).barrier := by
  cases wait with
  | some wait => exact precedes_wake b wait
  | none => cases point with
    | settling pending => cases pending <;> exact precedes_enter b _
    | deciding => exact .refl b
    | confirming => exact .refl b
    | arriving => exact precedes_enter b .start
    | departing phase => exact precedes_enter b (.finish false)

theorem Point.errored_visit (b : Barrier) (point : Point) (wait : Option Wait) :
    (point.visit b wait).barrier.errored = b.errored := by
  cases wait with
  | some wait => exact errored_wake b wait
  | none => cases point with
    | settling pending => cases pending <;> exact errored_enter b _
    | deciding => rfl
    | confirming => rfl
    | arriving => exact errored_enter b .start
    | departing phase => exact errored_enter b (.finish false)

/-- The tally is kept, and the participant waits at its point or goes on with an answer. -/
def Point.Keeps (point : Point) (m i : ℕ) (places : List ℕ) (v : Visit) : Prop :=
  ∃ k, Tally v.barrier (places.set i k) ∧ k ≤ 2 * v.barrier.maxPhase + 2 ∧
    match v.outcome with
    | .waiting wait => point.At v.barrier k m (some wait)
    | .answered answer => point.Answers v.barrier k m answer

theorem Point.keeps_same (h : Tally b places) (hk : places[i]? = some k) (hle : k ≤ 2 * b.maxPhase + 2)
    {o : Outcome} (ho : match o with
      | .waiting wait => point.At b k m (some wait)
      | .answered answer => point.Answers b k m answer) : point.Keeps m i places ⟨b, o, false⟩ :=
  ⟨k, (set_same hk).symm ▸ h, hle, ho⟩

theorem Point.keeps_arriveAtStart {n : ℕ} (h : Tally b places) (hk : places[i]? = some (2 * n))
    (hn : n ≤ b.ends) (hmore : n ≤ b.maxPhase) : Point.arriving.Keeps n i places b.arriveAtStart := by
  obtain ⟨hs, he⟩ := h.idle_of_le_ends hk hn
  have ht := h.arriveAtStart_at hk hn
  by_cases hlast : b.required ≤ b.arrivedStart + 1
  · rw [arriveAtStart_last hlast] at ht ⊢
    refine ⟨2 * n + 1, ht, by dsimp only; omega, ?_⟩
    simp only [he]
    exact .given n (by dsimp only; omega)
  · rw [arriveAtStart_early hlast] at ht ⊢
    refine ⟨2 * n + 1, ht, by dsimp only; omega, ?_⟩
    simp only [hs]
    exact .assembling n hmore

theorem Point.keeps_finish {n : ℕ} (h : Tally b places) (hk : places[i]? = some (2 * n + 1))
    (hn : n < b.starts) (hmore : n ≤ b.maxPhase) (hb : b.errored = false) :
    (Point.settling .finish).Keeps (n + 1) i places (b.enter (.finish true)) ∧
      (Point.departing n).Keeps n i places (b.enter (.finish false)) := by
  obtain ⟨hs, he⟩ := h.running_of_lt_starts hk hn
  have ht := h.arriveAtEnd_at hk hn
  simp only [enter_finish_running _ (he.trans_lt hn) hb]
  by_cases hlast : b.required ≤ b.arrivedEnd + 1
  · simp only [arriveAtEnd_last _ hlast] at ht ⊢
    exact ⟨⟨2 * n + 2, ht true, by dsimp only; omega, .settled n _ (by dsimp only; omega)⟩,
      ⟨2 * n + 2, ht false, by dsimp only; omega, .departed n (by dsimp only; omega)⟩⟩
  · simp only [arriveAtEnd_early _ hlast] at ht ⊢
    refine ⟨⟨2 * n + 2, ht true, by dsimp only; omega, ?_⟩,
      ⟨2 * n + 2, ht false, by dsimp only; omega, .departed n (by dsimp only; omega)⟩⟩
    simp only [he]
    exact .ending n

theorem Point.At.keeps (hat : point.At b k m wait) (h : Tally b places) (hk : places[i]? = some k)
    (hle : k ≤ 2 * b.maxPhase + 2) (hb : b.errored = false) :
    point.Keeps m i places (point.visit b wait) := by
  cases hat with
  | finishing n running => exact (keeps_finish h hk running (by omega) hb).1
  | departing n running => exact (keeps_finish h hk running (by omega) hb).2
  | ending n =>
    simp only [visit]
    cases hw : b.holds (.ended n) with
    | true =>
      rw [wake_of_holds hw]
      exact keeps_same h hk hle (.ending n)
    | false =>
      rw [wake_of_not_holds hw]
      have hn := h.lt_ends_of_ne hk (by simpa [holds, hb] using hw)
      refine keeps_same h hk hle ?_
      simp only [hb]
      exact .settled n _ hn
  | leaving n | advancing n =>
    change Keeps _ _ _ _ (b.wake (.advanced n))
    cases hw : b.holds (.advanced n) with
    | true =>
      rw [wake_of_holds hw]
      exact keeps_same h hk hle (.advancing n)
    | false =>
      rw [wake_of_not_holds hw]
      refine keeps_same h hk hle ?_
      simp only [hb]
      exact .settled n _ (by simpa [holds, hb] using hw)
  | deciding n passed =>
    obtain ⟨_, he⟩ := h.idle_of_le_ends hk passed
    refine keeps_same h hk hle ?_
    simp only [hasMorePhases, hb, he, Bool.not_false, Bool.and_true]
    exact .decided _ passed
  | confirming n passed last =>
    refine keeps_same h hk hle ?_
    simp only [h.sound.aborted, hb]
    exact .confirmed _ passed last
  | arriving n passed more =>
    obtain ⟨hs, he⟩ := h.idle_of_le_ends hk passed
    simp only [visit, Point.enter, enter_start_idle (hs.trans he.symm).le hb]
    exact keeps_arriveAtStart h.started hk passed more
  | assembling n more =>
    simp only [visit]
    cases hw : b.holds (.started m) with
    | true =>
      rw [wake_of_holds hw]
      exact keeps_same h hk hle (.assembling _ more)
    | false =>
      have hn := h.lt_starts_of_ne hk (by simpa [holds, hb] using hw)
      obtain ⟨_, he⟩ := h.running_of_lt_starts hk hn
      rw [wake_of_not_holds hw, leave_started hb, he]
      exact keeps_same h hk hle (.given _ hn)

end Participant

end PhasedWorkload
