import Mathlib.Data.List.Basic
import Mathlib.Order.Nat
import PhasedWorkload.Barrier.Crowd

/-! # Places at the barrier

The released meeting points are counted by one number, the round: it is even between phases and odd while
one is running. The place of a participant is the number of meeting points that it has arrived at. In
whatever order the sections come, every place is the round or one more, and the places that are ahead are
the arrivals that the barrier has counted. A participant that arrives is therefore the last one exactly
when all others are ahead.
-/
namespace PhasedWorkload.Barrier

/-- How many meeting points have been released. -/
def round (b : Barrier) : ℕ := b.starts + b.ends

/-- The arrivals at the meeting point that is open; none are counted at the other. -/
def arrived (b : Barrier) : ℕ := b.arrivedStart + b.arrivedEnd

/-- The generations alternate, arrivals are counted at the open meeting point only, and what is read
without the lock is up to date. -/
structure Sound (b : Barrier) : Prop where
  ends_le : b.ends ≤ b.starts
  starts_le : b.starts ≤ b.ends + 1
  running : b.ends < b.starts → b.arrivedStart = 0 ∧ b.arrivedEnd < max b.required 1
  idle : b.starts ≤ b.ends → b.arrivedEnd = 0 ∧ b.arrivedStart < max b.required 1
  phase : b.publishedPhase = b.ends
  aborted : b.publishedAbort = b.errored

/-- A later state of the same barrier. -/
structure Precedes (b c : Barrier) : Prop where
  starts_le : b.starts ≤ c.starts
  ends_le : b.ends ≤ c.ends
  maxPhase_eq : c.maxPhase = b.maxPhase
  errored : b.errored = true → c.errored = true

theorem Precedes.refl (b : Barrier) : Precedes b b := ⟨le_rfl, le_rfl, rfl, id⟩

theorem Precedes.trans {b c d : Barrier} (h : Precedes b c) (h' : Precedes c d) : Precedes b d :=
  ⟨h.starts_le.trans h'.starts_le, h.ends_le.trans h'.ends_le, h'.maxPhase_eq.trans h.maxPhase_eq,
    fun he => h'.errored (h.errored he)⟩

theorem Precedes.alive {b c : Barrier} (h : Precedes b c) (hc : c.errored = false) : b.errored = false := by
  cases hb : b.errored with
  | false => rfl
  | true => simp [h.errored hb] at hc

theorem precedes_abort (b : Barrier) : Precedes b b.abort := ⟨le_rfl, le_rfl, rfl, fun _ => rfl⟩

/-! ## One arrival -/

theorem arriveAtStart_last {b : Barrier} (h : b.required ≤ b.arrivedStart + 1) :
    b.arriveAtStart = ⟨{ b with arrivedStart := 0, starts := b.starts + 1 }, .answered (.phase b.ends), true⟩ :=
  if_pos h

theorem arriveAtStart_early {b : Barrier} (h : ¬b.required ≤ b.arrivedStart + 1) :
    b.arriveAtStart =
      ⟨{ b with arrivedStart := b.arrivedStart + 1 }, .waiting (.started b.starts), false⟩ := if_neg h

theorem arriveAtEnd_last {b : Barrier} (waits : Bool) (h : b.required ≤ b.arrivedEnd + 1) :
    b.arriveAtEnd waits =
      ⟨{ b with arrivedEnd := 0, ends := b.ends + 1, publishedPhase := b.ends + 1 },
        .answered (.went true), true⟩ := if_pos h

theorem arriveAtEnd_early {b : Barrier} (waits : Bool) (h : ¬b.required ≤ b.arrivedEnd + 1) :
    b.arriveAtEnd waits =
      ⟨{ b with arrivedEnd := b.arrivedEnd + 1 },
        if waits then .waiting (.ended b.ends) else .answered (.went true), false⟩ := if_neg h

theorem precedes_arriveAtStart (b : Barrier) : Precedes b b.arriveAtStart.barrier := by
  by_cases h : b.required ≤ b.arrivedStart + 1
  · rw [arriveAtStart_last h]
    exact ⟨Nat.le_succ _, le_rfl, rfl, id⟩
  · rw [arriveAtStart_early h]
    exact ⟨le_rfl, le_rfl, rfl, id⟩

theorem precedes_arriveAtEnd (b : Barrier) (waits : Bool) : Precedes b (b.arriveAtEnd waits).barrier := by
  by_cases h : b.required ≤ b.arrivedEnd + 1
  · rw [arriveAtEnd_last waits h]
    exact ⟨le_rfl, Nat.le_succ _, rfl, id⟩
  · rw [arriveAtEnd_early waits h]
    exact ⟨le_rfl, le_rfl, rfl, id⟩

/-- An arrival at the start is in order only while no phase is running. -/
theorem Sound.arriveAtStart {b : Barrier} (h : b.Sound) (hidle : b.starts ≤ b.ends) :
    b.arriveAtStart.barrier.Sound := by
  have he := h.ends_le
  obtain ⟨hend, _⟩ := h.idle hidle
  by_cases hlast : b.required ≤ b.arrivedStart + 1
  · rw [arriveAtStart_last hlast]
    refine ⟨?_, ?_, fun _ => ⟨rfl, ?_⟩, fun hc => ?_, h.phase, h.aborted⟩ <;> dsimp only at * <;> omega
  · rw [arriveAtStart_early hlast]
    refine ⟨he, h.starts_le, fun hc => ?_, fun _ => ⟨hend, ?_⟩, h.phase, h.aborted⟩ <;> dsimp only at * <;> omega

theorem Sound.arriveAtEnd {b : Barrier} (h : b.Sound) (hrun : b.ends < b.starts) (waits : Bool) :
    (b.arriveAtEnd waits).barrier.Sound := by
  have hs := h.starts_le
  obtain ⟨hstart, _⟩ := h.running hrun
  by_cases hlast : b.required ≤ b.arrivedEnd + 1
  · rw [arriveAtEnd_last waits hlast]
    refine ⟨?_, ?_, fun hc => ?_, fun _ => ⟨rfl, ?_⟩, rfl, h.aborted⟩ <;> dsimp only at * <;> omega
  · rw [arriveAtEnd_early waits hlast]
    refine ⟨h.ends_le, hs, fun _ => ⟨hstart, ?_⟩, fun hc => ?_, h.phase, h.aborted⟩ <;> dsimp only at * <;> omega

/-! ## The tally -/

theorem set_same {places : List ℕ} {i k : ℕ} (hk : places[i]? = some k) : places.set i k = places := by
  obtain ⟨hi, rfl⟩ := List.getElem?_eq_some_iff.mp hk
  exact List.set_getElem_self hi

/-- What holds of all members and their places, after one of them has moved. -/
theorem forall_set {α : Type} {P Q : ℕ → ℕ → α → Prop} {places : List ℕ} {members : List α} {i k : ℕ} {a : α}
    (h : ∀ j l x, places[j]? = some l → members[j]? = some x → P j l x) (hlen : members.length = places.length)
    (hi : i < places.length) (hself : Q i k a) (hothers : ∀ j l x, j ≠ i → P j l x → Q j l x) :
    ∀ j l x, (places.set i k)[j]? = some l → (members.set i a)[j]? = some x → Q j l x := by
  intro j l x hl hx
  rcases eq_or_ne j i with rfl | hne
  · rw [List.getElem?_set_self hi] at hl
    rw [List.getElem?_set_self (hlen ▸ hi)] at hx
    cases hl
    cases hx
    exact hself
  · rw [List.getElem?_set_ne hne.symm] at hl hx
    exact hothers j l x hne (h j l x hl hx)

/-- The places of all participants agree with the barrier. -/
structure Tally (b : Barrier) (places : List ℕ) : Prop where
  sound : b.Sound
  everybody : places.length = b.required
  near : ∀ k ∈ places, k = b.round ∨ k = b.round + 1
  counted : places.count (b.round + 1) = b.arrived

namespace Tally

variable {b c : Barrier} {places : List ℕ} {i j k n : ℕ}

theorem opening (required maxPhase : ℕ) :
    Tally { required, maxPhase } (List.replicate required 0) := by
  refine ⟨⟨le_rfl, Nat.le_succ _, fun h => absurd h (lt_irrefl _), fun _ => ⟨rfl, ?_⟩, rfl, rfl⟩, ?_, ?_, ?_⟩
  · dsimp only
    omega
  · exact List.length_replicate
  · intro k hk
    exact Or.inl (List.eq_of_mem_replicate hk)
  · simp [round, arrived, List.count_replicate]

theorem near_of_getElem? (h : Tally b places) (hk : places[i]? = some k) :
    k = b.round ∨ k = b.round + 1 := h.near k (List.mem_of_getElem? hk)

theorem arrived_lt (h : Tally b places) (hpos : 0 < b.required) : b.arrived < b.required := by
  have hs := h.sound.starts_le
  unfold arrived
  rcases Nat.lt_or_ge b.ends b.starts with hrun | hidle
  · have := h.sound.running hrun
    omega
  · have := h.sound.idle hidle
    omega

/-- Somebody has still to arrive at the open meeting point. -/
theorem exists_behind (h : Tally b places) (hpos : 0 < b.required) : b.round ∈ places := by
  by_contra hnone
  have hall : ∀ k ∈ places, b.round + 1 = k := by
    intro k hk
    rcases h.near k hk with rfl | rfl
    · exact absurd hk hnone
    · rfl
  have hcount := List.count_eq_length.mpr hall
  have := h.arrived_lt hpos
  rw [h.counted, h.everybody] at hcount
  omega

/-- One more arrival at the open meeting point, which is released by the last one. -/
theorem arrive (h : Tally b places) (hk : places[i]? = some b.round) (hc : c.Sound)
    (hreq : c.required = b.required)
    (hlast : b.required ≤ b.arrived + 1 → c.round = b.round + 1 ∧ c.arrived = 0)
    (hearly : ¬b.required ≤ b.arrived + 1 → c.round = b.round ∧ c.arrived = b.arrived + 1) :
    Tally c (places.set i (b.round + 1)) := by
  obtain ⟨hi, hki⟩ := List.getElem?_eq_some_iff.mp hk
  have hlen : (places.set i (b.round + 1)).length = c.required := by
    rw [List.length_set, h.everybody, hreq]
  have hmem : ∀ k ∈ places.set i (b.round + 1), k = b.round ∨ k = b.round + 1 := by
    intro k hk
    rcases List.mem_or_eq_of_mem_set hk with hk | rfl
    · exact h.near k hk
    · exact Or.inr rfl
  have hcount : (places.set i (b.round + 1)).count (b.round + 1) = b.arrived + 1 := by
    rw [List.count_set hi, hki, h.counted]
    simp
  by_cases hl : b.required ≤ b.arrived + 1
  · obtain ⟨hround, harr⟩ := hlast hl
    -- With the last arrival everybody is ahead; the round catches up and nobody is ahead of it any more.
    have hall : ∀ k ∈ places.set i (b.round + 1), k = b.round + 1 := by
      have hle : (places.set i (b.round + 1)).count (b.round + 1) ≤ (places.set i (b.round + 1)).length :=
        List.count_le_length
      have heq : (places.set i (b.round + 1)).count (b.round + 1) = (places.set i (b.round + 1)).length := by
        omega
      exact fun k hk => (List.count_eq_length.mp heq k hk).symm
    refine ⟨hc, hlen, fun k hk => Or.inl (by rw [hround]; exact hall k hk), ?_⟩
    rw [harr, hround, List.count_eq_zero]
    intro hk
    have := hall _ hk
    omega
  · obtain ⟨hround, harr⟩ := hearly hl
    exact ⟨hc, hlen, fun k hk => hround ▸ hmem k hk, by rw [hround, harr, hcount]⟩

theorem arriveAtStart (h : Tally b places) (hidle : b.starts ≤ b.ends) (hk : places[i]? = some b.round) :
    Tally b.arriveAtStart.barrier (places.set i (b.round + 1)) := by
  obtain ⟨hend, _⟩ := h.sound.idle hidle
  have hs := h.sound.arriveAtStart hidle
  by_cases hlast : b.required ≤ b.arrivedStart + 1
  · rw [arriveAtStart_last hlast] at hs ⊢
    exact h.arrive hk hs rfl (fun _ => ⟨by unfold round; dsimp only; omega, by unfold arrived; dsimp only; omega⟩)
      (fun hn => absurd (by unfold arrived; omega) hn)
  · rw [arriveAtStart_early hlast] at hs ⊢
    exact h.arrive hk hs rfl (fun hl => absurd (by unfold arrived at hl; omega) hlast)
      (fun _ => ⟨rfl, by unfold arrived; dsimp only; omega⟩)

theorem arriveAtEnd (h : Tally b places) (hrun : b.ends < b.starts) (hk : places[i]? = some b.round)
    (waits : Bool) : Tally (b.arriveAtEnd waits).barrier (places.set i (b.round + 1)) := by
  obtain ⟨hstart, _⟩ := h.sound.running hrun
  have hs := h.sound.arriveAtEnd hrun waits
  by_cases hlast : b.required ≤ b.arrivedEnd + 1
  · rw [arriveAtEnd_last waits hlast] at hs ⊢
    exact h.arrive hk hs rfl (fun _ => ⟨by unfold round; dsimp only; omega, by unfold arrived; dsimp only; omega⟩)
      (fun hn => absurd (by unfold arrived; omega) hn)
  · rw [arriveAtEnd_early waits hlast] at hs ⊢
    exact h.arrive hk hs rfl (fun hl => absurd (by unfold arrived at hl; omega) hlast)
      (fun _ => ⟨rfl, by unfold arrived; dsimp only; omega⟩)

theorem abort (h : Tally b places) : Tally b.abort places :=
  ⟨⟨h.sound.ends_le, h.sound.starts_le, h.sound.running, h.sound.idle, h.sound.phase, rfl⟩, h.everybody, h.near,
    h.counted⟩

theorem started (h : Tally b places) : Tally { b with started := true } places :=
  ⟨⟨h.sound.ends_le, h.sound.starts_le, h.sound.running, h.sound.idle, h.sound.phase, h.sound.aborted⟩,
    h.everybody, h.near, h.counted⟩

end Tally

end PhasedWorkload.Barrier
