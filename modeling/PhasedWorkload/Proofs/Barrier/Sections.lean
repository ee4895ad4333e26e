import PhasedWorkload.Proofs.Barrier.Tally

/-! # Sections of a call

What a critical section does is settled by the place of its caller. A caller whose place is even arrives at
a start, unless the phase before is still running; one whose place is odd arrives at an end once its phase
has started. What a waiting caller waits for does not come back once it is over, however late it wakes.
-/
namespace PhasedWorkload.Barrier

variable {b c : Barrier}

theorem holds_of_errored (h : b.errored = true) (w : Wait) : b.holds w = false := by
  cases w <;> simp [holds, h]

theorem enter_start_aborted (h : b.errored = true) :
    b.enter .start = ⟨{ b with started := true }, .answered .aborted, false⟩ := by
  simp [enter, waitOr, holds, startAfterDrain, h]

theorem enter_start_running (hrun : b.ends < b.starts) (h : b.errored = false) :
    b.enter .start = ⟨{ b with started := true }, .waiting .drained, false⟩ := by
  simp [enter, waitOr, holds, isRunning, hrun, h]

theorem enter_start_idle (hidle : b.starts ≤ b.ends) (h : b.errored = false) :
    b.enter .start = arriveAtStart { b with started := true } := by
  simp [enter, waitOr, holds, isRunning, startAfterDrain, Nat.not_lt.mpr hidle, h]

theorem enter_finish_aborted (waits : Bool) (h : b.errored = true) :
    b.enter (.finish waits) = ⟨b, .answered (.went false), false⟩ := by
  simp [enter, settle, h]

theorem enter_finish_running (waits : Bool) (hrun : b.ends < b.starts) (h : b.errored = false) :
    b.enter (.finish waits) = b.arriveAtEnd waits := by
  simp [enter, isRunning, hrun, h]

theorem enter_advance (b : Barrier) (phase : ℕ) :
    b.enter (.advance phase) = b.wake (.advanced phase) := rfl

theorem wake_of_holds {w : Wait} (h : b.holds w = true) : b.wake w = ⟨b, .waiting w, false⟩ := if_pos h

theorem wake_of_not_holds {w : Wait} (h : b.holds w = false) : b.wake w = b.leave w := by
  simp [wake, waitOr, h]

theorem leave_drained (h : b.errored = false) : b.leave .drained = b.arriveAtStart := by
  simp [leave, startAfterDrain, h]

theorem leave_started (h : b.errored = false) (generation : ℕ) :
    b.leave (.started generation) = ⟨b, .answered (.phase b.ends), false⟩ := by
  simp [leave, h]

/-- After an abort every wait ends, and no section gives out a phase or reports success. -/
theorem wake_aborted (h : b.errored = true) (w : Wait) :
    b.wake w = ⟨b, .answered .aborted, false⟩ ∨ b.wake w = ⟨b, .answered (.went false), false⟩ := by
  rw [wake_of_not_holds (holds_of_errored h w)]
  cases w <;> simp [leave, startAfterDrain, settle, h]

/-- A caller that wakes leaves the barrier as it is, or arrives at the start after all. -/
theorem wake_barrier (b : Barrier) (w : Wait) :
    (b.wake w).barrier = b ∨ (b.wake w).barrier = b.arriveAtStart.barrier := by
  cases hw : b.holds w with
  | true => exact Or.inl (by rw [wake_of_holds hw])
  | false =>
    rw [wake_of_not_holds hw]
    cases w with
    | drained =>
      simp only [leave, startAfterDrain]
      split
      · exact Or.inl rfl
      · exact Or.inr rfl
    | started generation =>
      simp only [leave]
      split <;> exact Or.inl rfl
    | ended generation => exact Or.inl rfl
    | advanced phase => exact Or.inl rfl
    | slept => exact Or.inl rfl

/-- A section is one of a caller that wakes, or an arrival at the end. -/
theorem enter_barrier (b : Barrier) (call : Call) :
    (b.enter call).barrier = b ∨ (∃ w, (b.enter call).barrier = (wake { b with started := true } w).barrier) ∨
      ∃ waits, call = .finish waits ∧ (b.enter call).barrier = (b.arriveAtEnd waits).barrier := by
  cases call with
  | start => exact Or.inr (Or.inl ⟨.drained, rfl⟩)
  | finish waits =>
    simp only [enter]
    split
    · exact Or.inl rfl
    · split
      · exact Or.inr (Or.inr ⟨waits, rfl, rfl⟩)
      · exact Or.inl rfl
  | advance phase =>
    left
    simp only [enter, waitOr, settle]
    split <;> rfl
  | sleep span =>
    left
    simp only [enter, waitOr, settle]
    split
    · rfl
    · split <;> rfl

theorem precedes_started (b : Barrier) : Precedes b { b with started := true } := ⟨le_rfl, le_rfl, rfl, id⟩

theorem precedes_wake (b : Barrier) (w : Wait) : Precedes b (b.wake w).barrier := by
  rcases wake_barrier b w with h | h <;> rw [h]
  · exact .refl b
  · exact precedes_arriveAtStart b

theorem precedes_enter (b : Barrier) (call : Call) : Precedes b (b.enter call).barrier := by
  rcases enter_barrier b call with h | ⟨w, h⟩ | ⟨waits, _, h⟩ <;> rw [h]
  · exact .refl b
  · exact (precedes_started b).trans (precedes_wake _ w)
  · exact precedes_arriveAtEnd b waits

theorem errored_arriveAtStart (b : Barrier) : b.arriveAtStart.barrier.errored = b.errored := by
  unfold arriveAtStart
  split <;> rfl

theorem errored_arriveAtEnd (b : Barrier) (waits : Bool) :
    (b.arriveAtEnd waits).barrier.errored = b.errored := by
  unfold arriveAtEnd
  split <;> rfl

theorem errored_wake (b : Barrier) (w : Wait) : (b.wake w).barrier.errored = b.errored := by
  rcases wake_barrier b w with h | h <;> rw [h]
  exact errored_arriveAtStart b

theorem errored_enter (b : Barrier) (call : Call) : (b.enter call).barrier.errored = b.errored := by
  rcases enter_barrier b call with h | ⟨w, h⟩ | ⟨waits, _, h⟩ <;> rw [h]
  · exact errored_wake _ w
  · exact errored_arriveAtEnd b waits

/-- Only arrivals at an end move the current phase. -/
theorem publishedPhase_wake (b : Barrier) (w : Wait) :
    (b.wake w).barrier.publishedPhase = b.publishedPhase := by
  rcases wake_barrier b w with h | h <;> rw [h]
  unfold arriveAtStart
  split <;> rfl

theorem publishedPhase_enter (b : Barrier) {call : Call} (hcall : ∀ waits, call ≠ .finish waits) :
    (b.enter call).barrier.publishedPhase = b.publishedPhase := by
  rcases enter_barrier b call with h | ⟨w, h⟩ | ⟨waits, hw, _⟩
  · rw [h]
  · rw [h]
    exact publishedPhase_wake _ w
  · exact absurd hw (hcall waits)

theorem publishedPhase_finish (b : Barrier) (waits : Bool) :
    (b.enter (.finish waits)).barrier.publishedPhase = b.publishedPhase ∨
      (b.enter (.finish waits)).barrier.publishedPhase = b.ends + 1 := by
  simp only [enter, arriveAtEnd, settle]
  split
  · exact Or.inl rfl
  · split
    · split
      · exact Or.inr rfl
      · exact Or.inl rfl
    · exact Or.inl rfl

namespace Tally

variable {places : List ℕ} {i k n : ℕ}

/-- A caller that has been through `n` phases finds the last of them running, or all of them over and no
other one running. -/
theorem running_or_idle (h : Tally b places) (hk : places[i]? = some (2 * n)) :
    b.ends < b.starts ∨ b.starts = n ∧ b.ends = n := by
  have hnear := h.near_of_getElem? hk
  have := h.sound.ends_le
  have := h.sound.starts_le
  unfold round at hnear
  omega

/-- Nobody starts a phase without the caller that has seen the one before end. -/
theorem idle_of_le_ends (h : Tally b places) (hk : places[i]? = some (2 * n)) (hn : n ≤ b.ends) :
    b.starts = n ∧ b.ends = n := by
  have hnear := h.near_of_getElem? hk
  have := h.sound.ends_le
  have := h.sound.starts_le
  unfold round at hnear
  omega

/-- A phase that has started stays the current one as long as somebody has not arrived at its end. -/
theorem running_of_lt_starts (h : Tally b places) (hk : places[i]? = some (2 * n + 1)) (hn : n < b.starts) :
    b.starts = n + 1 ∧ b.ends = n := by
  have hnear := h.near_of_getElem? hk
  have := h.sound.ends_le
  have := h.sound.starts_le
  unfold round at hnear
  omega

theorem lt_starts_of_ne (h : Tally b places) (hk : places[i]? = some (2 * n + 1)) (hn : b.starts ≠ n) :
    n < b.starts := by
  have hnear := h.near_of_getElem? hk
  have := h.sound.ends_le
  have := h.sound.starts_le
  unfold round at hnear
  omega

theorem lt_ends_of_ne (h : Tally b places) (hk : places[i]? = some (2 * n + 2)) (hn : b.ends ≠ n) :
    n < b.ends := by
  have hnear := h.near_of_getElem? hk
  have := h.sound.ends_le
  have := h.sound.starts_le
  unfold round at hnear
  omega

theorem le_of_lt_starts (h : Tally b places) (hn : n < b.starts) (hk : k ∈ places) : 2 * n + 1 ≤ k := by
  have hs := h.sound.starts_le
  have hnear := h.near k hk
  unfold round at hnear
  omega

theorem le_of_lt_ends (h : Tally b places) (hn : n < b.ends) (hk : k ∈ places) : 2 * n + 2 ≤ k := by
  have he := h.sound.ends_le
  have hnear := h.near k hk
  unfold round at hnear
  omega

/-- The current phase is past `n` exactly when everybody has arrived at the end of `n`. -/
theorem lt_ends_iff (h : Tally b places) (hpos : 0 < b.required) :
    n < b.ends ↔ ∀ k ∈ places, 2 * n + 2 ≤ k := by
  have hs := h.sound.starts_le
  constructor
  · exact fun hn k hk => h.le_of_lt_ends hn hk
  · intro hall
    have hround := hall _ (h.exists_behind hpos)
    unfold round at hround
    omega

/-- The arrival of a caller that has been through `n` phases at the start of the next one. -/
theorem arriveAtStart_at (h : Tally b places) (hk : places[i]? = some (2 * n)) (hn : n ≤ b.ends) :
    Tally b.arriveAtStart.barrier (places.set i (2 * n + 1)) := by
  obtain ⟨hs, he⟩ := h.idle_of_le_ends hk hn
  have hr : b.round = 2 * n := by unfold round; omega
  have ht := h.arriveAtStart (by omega) (hr ▸ hk)
  rwa [hr] at ht

theorem arriveAtEnd_at (h : Tally b places) (hk : places[i]? = some (2 * n + 1)) (hn : n < b.starts)
    (waits : Bool) : Tally (b.arriveAtEnd waits).barrier (places.set i (2 * n + 2)) := by
  obtain ⟨hs, he⟩ := h.running_of_lt_starts hk hn
  have hr : b.round = 2 * n + 1 := by unfold round; omega
  have ht := h.arriveAtEnd (by omega) (hr ▸ hk) waits
  rwa [hr] at ht

end Tally

end PhasedWorkload.Barrier
