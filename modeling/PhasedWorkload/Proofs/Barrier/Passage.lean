import PhasedWorkload.Proofs.Barrier.Ensemble

/-! # Passages

A stance says at which places its participant can be and how many phases it has been given. While the run
is not aborted, every section of a call that is in order is one of a few passages: it waits, or it moves its
participant on by one meeting point, or it tells it that a phase has started or is over. After an abort a
section counts nobody and gives nothing.
-/
namespace PhasedWorkload

open Barrier

namespace Crowd

def wait? (c : Crowd) (i : ℕ) : Option Wait := (c.callers[i]?.join).map Sleeper.wait

def waitOf : Outcome → Option Wait
  | .answered _ => none
  | .waiting wait => some wait

theorem length_notify (callers : List (Option Sleeper)) : (notify callers).length = callers.length :=
  List.length_map _

theorem wait?_notify (c : Crowd) (b : Barrier) (i : ℕ) :
    wait? { barrier := b, callers := notify c.callers } i = c.wait? i := by
  simp only [wait?, notify, List.getElem?_map]
  cases c.callers[i]? with
  | none => rfl
  | some caller => cases caller <;> rfl

theorem exists_wait? {c : Crowd} {i : ℕ} (h : c.isBusy i = true) : ∃ w, c.wait? i = some w :=
  Option.isSome_iff_exists.mp (by simpa [wait?, isBusy] using h)

theorem wake_eq {c : Crowd} {i : ℕ} {w : Wait} (h : c.wait? i = some w) :
    c.wake i = (c.record i (c.barrier.wake w), answer? (c.barrier.wake w)) := by
  obtain ⟨s, hs, rfl⟩ := Option.map_eq_some_iff.mp h
  simp only [wake, hs]

theorem length_record (c : Crowd) (i : ℕ) (v : Visit) : (c.record i v).callers.length = c.callers.length := by
  simp only [record, List.length_set]
  split
  · exact length_notify c.callers
  · rfl

theorem wait?_record_self (c : Crowd) {i : ℕ} (v : Visit) (hi : i < c.callers.length) :
    (c.record i v).wait? i = waitOf v.outcome := by
  have hlen := length_record c i v
  simp only [record, List.length_set] at hlen
  simp only [wait?, record, List.getElem?_set_self (hlen ▸ hi)]
  cases v.outcome <;> rfl

theorem wait?_record_ne (c : Crowd) {i j : ℕ} (v : Visit) (h : j ≠ i) :
    (c.record i v).wait? j = c.wait? j := by
  simp only [wait?, record, List.getElem?_set_ne h.symm]
  split
  · exact wait?_notify c c.barrier j
  · rfl

end Crowd

/-- The place of a participant and the number of phases it was given, by its stance and by what it waits
for. It knows that a phase is over, or has started, once it has been told. -/
inductive Stance.At (b : Barrier) : ℕ → ℕ → Stance → Option Wait → Prop where
  | outside (n : ℕ) (passed : n ≤ b.ends) : At b (2 * n) n .outside none
  | draining (n : ℕ) : At b (2 * n) n .starting (some .drained)
  | assembling (n : ℕ) : At b (2 * n + 1) n .starting (some (.started n))
  | inside (n : ℕ) (running : n < b.starts) : At b (2 * n + 1) (n + 1) (.inside n) none
  | ending (n : ℕ) : At b (2 * n + 2) (n + 1) (.ending n) (some (.ended n))
  | left (n : ℕ) : At b (2 * n + 2) (n + 1) (.left n) none
  | advancing (n : ℕ) : At b (2 * n + 2) (n + 1) (.advancing n) (some (.advanced n))

theorem Stance.At.later {b c : Barrier} {k m : ℕ} {s : Stance} {w : Option Wait} (h : s.At b k m w)
    (hbc : Precedes b c) : s.At c k m w := by
  cases h with
  | outside _ passed => exact .outside _ (passed.trans hbc.ends_le)
  | draining => exact .draining _
  | assembling => exact .assembling _
  | inside _ running => exact .inside _ (running.trans_le hbc.starts_le)
  | ending => exact .ending _
  | left => exact .left _
  | advancing => exact .advancing _

/-- A caller that waits makes no other call. -/
theorem Stance.At.wait_eq_none {b : Barrier} {k m : ℕ} {s t : Stance} {w : Option Wait} (h : s.At b k m w)
    {call : Call} (ht : s.enter? call = some t) : w = none := by
  cases h with
  | outside | inside | left => rfl
  | draining | assembling | ending | advancing => simp [Stance.enter?] at ht

/-- What one section of a call does to its participant while the run is not aborted: the place and the
number of phases before and after it, the stance and the wait that it leads to, and what happens. -/
inductive Passage (who : ℕ) (c : Barrier) : ℕ → ℕ → ℕ → ℕ → Stance → Option Wait → List Happening → Prop where
  | wait (k m : ℕ) (s : Stance) (w : Wait) (stays : s.At c k m (some w)) : Passage who c k m k m s (some w) []
  | assemble (n : ℕ) :
    Passage who c (2 * n) n (2 * n + 1) n .starting (some (.started n)) [.arrived who n]
  | begin (n : ℕ) (running : n < c.starts) :
    Passage who c (2 * n) n (2 * n + 1) (n + 1) (.inside n) none [.given who n, .arrived who n]
  | give (n : ℕ) (running : n < c.starts) :
    Passage who c (2 * n + 1) n (2 * n + 1) (n + 1) (.inside n) none [.given who n]
  | close (n : ℕ) :
    Passage who c (2 * n + 1) (n + 1) (2 * n + 2) (n + 1) (.ending n) (some (.ended n)) [.closed who n]
  | leave (n : ℕ) : Passage who c (2 * n + 1) (n + 1) (2 * n + 2) (n + 1) (.left n) none [.closed who n]
  | finish (n : ℕ) (passed : n < c.ends) :
    Passage who c (2 * n + 1) (n + 1) (2 * n + 2) (n + 1) .outside none [.released who n, .closed who n]
  | release (n : ℕ) (passed : n < c.ends) :
    Passage who c (2 * n + 2) (n + 1) (2 * n + 2) (n + 1) .outside none [.released who n]
  | advance (n : ℕ) (passed : n < c.ends) : Passage who c (2 * n + 2) (n + 1) (2 * n + 2) (n + 1) .outside none []

theorem Passage.at {who k m k' m' : ℕ} {c : Barrier} {s : Stance} {w : Option Wait} {new : List Happening}
    (h : Passage who c k m k' m' s w new) : s.At c k' m' w := by
  cases h with
  | wait _ _ _ _ stays => exact stays
  | assemble => exact .assembling _
  | begin _ running => exact .inside _ running
  | give _ running => exact .inside _ running
  | close => exact .ending _
  | leave => exact .left _
  | finish n passed => exact .outside (n + 1) passed
  | release n passed => exact .outside (n + 1) passed
  | advance n passed => exact .outside (n + 1) passed

/-! ## Sections as passages -/

/-- The section of a participant is a passage, as the ensemble records it, and the tally is kept. -/
def Passes (who : ℕ) (b : Barrier) (k m : ℕ) (s : Stance) (called : List Happening) (places : List ℕ)
    (v : Visit) : Prop :=
  ∃ k' m', Tally v.barrier (places.set who k') ∧
    Passage who v.barrier k m k' m' ((Crowd.answer? v).elim s s.settle) (Crowd.waitOf v.outcome)
      (s.answered who (Crowd.answer? v) ++ Happening.counted who b v.barrier ++ called)

variable {b : Barrier} {places : List ℕ} {who k m n : ℕ} {s t : Stance}

theorem counted_same (who : ℕ) (b : Barrier) : Happening.counted who b b = [] := by
  simp [Happening.counted]

theorem counted_arriveAtEnd (who : ℕ) (b : Barrier) (waits : Bool) :
    Happening.counted who b (b.arriveAtEnd waits).barrier = [] := by
  unfold arriveAtEnd
  split <;> simp [Happening.counted]

/-- A section that only looks at the barrier leaves its caller where it was. -/
theorem passes_wait (h : Tally b places) (hk : places[who]? = some k) {w : Wait} (hs : s.At b k m (some w)) :
    Passes who b k m s [] places ⟨b, .waiting w, false⟩ := by
  refine ⟨k, m, (set_same hk).symm ▸ h, ?_⟩
  have hnone : s.answered who none = [] := by cases s <;> rfl
  simpa [Crowd.answer?, Crowd.waitOf, hnone, counted_same] using Passage.wait k m s w hs

theorem passes_arriveAtStart (h : Tally b places) (hk : places[who]? = some (2 * n)) (hn : n ≤ b.ends) :
    Passes who b (2 * n) n .starting [] places b.arriveAtStart := by
  obtain ⟨hs, he⟩ := h.idle_of_le_ends hk hn
  have ht := h.arriveAtStart_at hk hn
  by_cases hlast : b.required ≤ b.arrivedStart + 1
  · rw [arriveAtStart_last hlast] at ht ⊢
    refine ⟨2 * n + 1, n + 1, ht, ?_⟩
    have hp : Passage who { b with arrivedStart := 0, starts := b.starts + 1 } (2 * n) n (2 * n + 1) (n + 1)
        (.inside n) none [.given who n, .arrived who n] := .begin n (by dsimp only; omega)
    simpa [Crowd.answer?, Crowd.waitOf, Stance.settle, Stance.answered, Happening.counted, he] using hp
  · rw [arriveAtStart_early hlast] at ht ⊢
    refine ⟨2 * n + 1, n, ht, ?_⟩
    have hp : Passage who { b with arrivedStart := b.arrivedStart + 1 } (2 * n) n (2 * n + 1) n .starting
        (some (.started n)) [.arrived who n] := .assemble n
    simpa [Crowd.answer?, Crowd.waitOf, Stance.answered, Happening.counted, hs, he] using hp

theorem passes_start (h : Tally b places) (hk : places[who]? = some (2 * n)) (hb : b.errored = false) :
    Passes who b (2 * n) n .starting [] places (b.enter .start) := by
  rcases h.running_or_idle hk with hrun | ⟨hs, he⟩
  · rw [enter_start_running hrun hb]
    exact passes_wait h.started hk (.draining n)
  · rw [enter_start_idle (by omega) hb]
    exact passes_arriveAtStart h.started hk (by dsimp only; omega)

theorem passes_finish (h : Tally b places) (hk : places[who]? = some (2 * n + 1)) (hn : n < b.starts)
    (hb : b.errored = false) (waits : Bool) :
    Passes who b (2 * n + 1) (n + 1) (if waits then .ending n else .left n) [.closed who n] places
      (b.enter (.finish waits)) := by
  obtain ⟨hs, he⟩ := h.running_of_lt_starts hk hn
  have ht := h.arriveAtEnd_at hk hn waits
  have hc := counted_arriveAtEnd who b waits
  rw [enter_finish_running waits (by omega) hb]
  by_cases hlast : b.required ≤ b.arrivedEnd + 1
  · rw [arriveAtEnd_last waits hlast] at ht hc ⊢
    refine ⟨2 * n + 2, n + 1, ht, ?_⟩
    rw [hc]
    cases waits with
    | false => exact .leave n
    -- The last one to call the end is released at once.
    | true => exact .finish n (by dsimp only; omega)
  · rw [arriveAtEnd_early waits hlast] at ht hc ⊢
    refine ⟨2 * n + 2, n + 1, ht, ?_⟩
    rw [hc]
    cases waits with
    | false => exact .leave n
    | true =>
      have hp : Passage who { b with arrivedEnd := b.arrivedEnd + 1 } (2 * n + 1) (n + 1) (2 * n + 2) (n + 1)
          (.ending n) (some (.ended n)) [.closed who n] := .close n
      simpa [Crowd.answer?, Crowd.waitOf, Stance.answered, he] using hp

theorem passes_settle (h : Tally b places) (hk : places[who]? = some (2 * n + 2)) (hn : n < b.ends)
    (hb : b.errored = false) (hs : s = .ending n ∨ s = .advancing n) :
    Passes who b (2 * n + 2) (n + 1) s [] places b.settle := by
  refine ⟨2 * n + 2, n + 1, (set_same hk).symm ▸ h, ?_⟩
  have hsettle : b.settle = ⟨b, .answered (.went true), false⟩ := by simp [settle, hb]
  rw [hsettle, counted_same]
  rcases hs with rfl | rfl
  · exact .release n hn
  · exact .advance n hn

theorem passes_wake (h : Tally b places) (hk : places[who]? = some k) (hb : b.errored = false) {w : Wait}
    (hs : s.At b k m (some w)) : Passes who b k m s [] places (b.wake w) := by
  cases hw : b.holds w with
  | true =>
    rw [wake_of_holds hw]
    exact passes_wait h hk hs
  | false =>
    rw [wake_of_not_holds hw]
    cases hs with
    | draining =>
      rw [leave_drained hb]
      have hidle : ¬b.ends < b.starts := by simpa [holds, isRunning, hb] using hw
      have hcases := h.running_or_idle hk
      exact passes_arriveAtStart h hk (by omega)
    | assembling =>
      have hn := h.lt_starts_of_ne hk (by simpa [holds, hb] using hw)
      obtain ⟨_, he⟩ := h.running_of_lt_starts hk hn
      rw [leave_started hb]
      refine ⟨2 * m + 1, m + 1, (set_same hk).symm ▸ h, ?_⟩
      rw [counted_same, he]
      exact .give m hn
    | ending n =>
      have hn := h.lt_ends_of_ne hk (by simpa [holds, hb] using hw)
      exact passes_settle h hk hn hb (.inl rfl)
    | advancing n =>
      have hn : n < b.ends := by simpa [holds, hb] using hw
      exact passes_settle h hk hn hb (.inr rfl)

theorem passes_enter (h : Tally b places) (hk : places[who]? = some k) (hb : b.errored = false)
    (hs : s.At b k m none) {call : Call} (ht : s.enter? call = some t) :
    Passes who b k m t (s.called who call) places (b.enter call) := by
  cases hs with
  | outside =>
    cases call <;> simp only [Stance.enter?, Option.some.injEq, reduceCtorEq] at ht
    subst ht
    exact passes_start h hk hb
  | inside n running =>
    cases call with
    | finish waits =>
      have hp := passes_finish h hk running hb waits
      cases waits <;> simp only [Stance.enter?, Option.some.injEq] at ht <;> subst ht <;> exact hp
    | _ => simp [Stance.enter?] at ht
  | left n =>
    cases call with
    | start =>
      simp only [Stance.enter?, Option.some.injEq] at ht
      subst ht
      have hp : Passes who b (2 * (n + 1)) (n + 1) .starting [] places (b.enter .start) := passes_start h hk hb
      exact hp
    | advance phase =>
      simp only [Stance.enter?, Option.ite_none_right_eq_some, Option.some.injEq] at ht
      obtain ⟨rfl, rfl⟩ := ht
      exact passes_wake h hk hb (.advancing n)
    | _ => simp [Stance.enter?] at ht

/-- After an abort a section changes nothing that is counted, gives out no phase and releases nobody. -/
def Refuses (who : ℕ) (b : Barrier) (s : Stance) (called : List Happening) (places : List ℕ) (v : Visit) : Prop :=
  Tally v.barrier places ∧ v.barrier.errored = true ∧ (∀ n, (Crowd.answer? v).elim s s.settle ≠ .inside n) ∧
    s.answered who (Crowd.answer? v) ++ Happening.counted who b v.barrier ++ called = called

theorem refuses_wake (h : Tally b places) (hb : b.errored = true) (who : ℕ) {w : Wait}
    (hs : ∀ n, s ≠ .inside n) : Refuses who b s [] places (b.wake w) := by
  have hc := counted_same who b
  rcases wake_aborted hb w with hw | hw <;> rw [hw] <;> refine ⟨h, hb, ?_, ?_⟩
  · cases s <;> simp [Crowd.answer?, Stance.settle]
  · cases s <;> simp [Crowd.answer?, Stance.answered, hc]
  · cases s <;> simp [Crowd.answer?, Stance.settle]
  · cases s <;> simp [Crowd.answer?, Stance.answered, hc]

theorem refuses_enter (h : Tally b places) (hb : b.errored = true) (who : ℕ) {call : Call}
    (ht : s.enter? call = some t) : Refuses who b t (s.called who call) places (b.enter call) := by
  have hc := counted_same who b
  have hin : ∀ n, t ≠ .inside n := by
    rintro n rfl
    revert ht
    fun_cases Stance.enter? <;> simp
  cases call with
  | start =>
    have hnone : s.called who .start = [] := by cases s <;> rfl
    rw [enter_start_aborted hb, hnone]
    refine ⟨h.started, hb, ?_, ?_⟩
    · cases t <;> simp [Crowd.answer?, Stance.settle]
    · cases t <;> simp [Crowd.answer?, Stance.answered, Happening.counted]
  | finish waits =>
    rw [enter_finish_aborted waits hb]
    refine ⟨h, hb, ?_, ?_⟩
    · cases t <;> simp [Crowd.answer?, Stance.settle]
    · cases t <;> simp [Crowd.answer?, Stance.answered, hc]
  | advance phase =>
    have hnone : s.called who (.advance phase) = [] := by cases s <;> rfl
    rw [enter_advance, hnone]
    exact refuses_wake h hb who hin
  | sleep span => cases s <;> simp [Stance.enter?] at ht

end PhasedWorkload
