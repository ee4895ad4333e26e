import Mathlib.Tactic.Linarith
import Mathlib.Tactic.Ring
import PhasedWorkload.Proofs.Limiter.Slots

/-! # What a limiter grants, exactly

The word of a limiter stays at the ends of the signed range instead of wrapping, yet no call with a reading below
the largest one can tell: its answer is that of unbounded numbers. After any calls the word is the reading at which
the limiter was made, and a slot for each token that was taken but the first. So tokens are granted one a slot, where
a slot is a whole number of nanoseconds: what is left of the duration of a rate when it is shared among its operations
is lost, and more is granted than the rate says.
-/
namespace PhasedWorkload.Limiter

variable {l : Limiter} {made now last : ℤ} {taken : ℕ} {readings : List ℤ} {clock : ClockKind} {spec : Rate}

/-- So many tokens were taken since a limiter was made, and its word has moved by a slot for each. -/
structure HasPaid (l : Limiter) (made : ℤ) (taken : ℕ) : Prop where
  opened : 0 ≤ made
  slot : 0 ≤ l.rate
  word : l.lastEmptied = made + (taken - 1) * l.rate

theorem eq_start_of_make (h : make clock spec made = .ok l) : l = start spec made := by
  unfold make at h
  split at h
  · cases h
  · split at h
    · cases h
    · exact (Except.ok.inj h).symm

theorem hasPaid_start (spec : Rate) (hmade : 0 ≤ made) (hlast : made ≤ maxSigned) :
    (start spec made).HasPaid made 0 where
  opened := hmade
  slot := le_min (Int.natCast_nonneg _) (by decide)
  word := by
    have hrate : (start spec made).rate = spec.ticksPerToken := rfl
    rw [(lastEmptied_start spec hmade hlast).2, hrate]
    push_cast
    ring

namespace HasPaid

theorem paid_nonneg (h : l.HasPaid made taken) : 0 ≤ (taken : ℤ) * l.rate := mul_nonneg (Int.natCast_nonneg _) h.slot

theorem next_eq (h : l.HasPaid made taken) : l.lastEmptied + l.rate = made + taken * l.rate := by
  rw [h.word]
  ring

theorem next (h : l.HasPaid made taken) : minSigned ≤ l.lastEmptied + l.rate := by
  have hpaid := h.paid_nonneg
  have hopened := h.opened
  have hlow : minSigned < 0 := by decide
  rw [h.next_eq]
  omega

theorem consume_early (h : l.HasPaid made taken) (hnow : now < maxSigned) (hearly : now < made + taken * l.rate) :
    l.consume now = (l, false) :=
  Limiter.consume_early h.next hnow (h.next_eq ▸ hearly)

theorem consume_due (h : l.HasPaid made taken) (hnow : now < maxSigned) (hdue : made + taken * l.rate ≤ now) :
    l.consume now = (l.setWord (made + taken * l.rate), true) := by
  rw [← h.next_eq] at hdue ⊢
  exact Limiter.consume_due h.next hnow hdue

theorem pays (h : l.HasPaid made taken) : (l.setWord (made + taken * l.rate)).HasPaid made (taken + 1) where
  opened := h.opened
  slot := h.slot
  word := by
    have hword : (l.setWord (made + taken * l.rate)).lastEmptied = made + taken * l.rate := rfl
    have hrate : (l.setWord (made + taken * l.rate)).rate = l.rate := rfl
    rw [hword, hrate]
    push_cast
    ring

/-- After any calls the word is exact, and each of them was granted just if its reading had reached the slot after
those of the calls granted before it. -/
theorem consumeAll (h : l.HasPaid made taken) (hreadings : ∀ reading ∈ readings, reading < maxSigned) :
    let answered := l.consumeAll readings
    (answered.1.rate = l.rate ∧ answered.1.HasPaid made (taken + answered.2.count true)) ∧
      ∀ i now, readings[i]? = some now →
        answered.2[i]? = some (decide (made + (taken + (answered.2.take i).count true : ℕ) * l.rate ≤ now)) := by
  induction readings generalizing l taken with
  | nil => exact ⟨⟨rfl, h⟩, nofun⟩
  | cons now readings ih =>
    have hnow : now < maxSigned := hreadings now List.mem_cons_self
    have hlater : ∀ reading ∈ readings, reading < maxSigned := fun reading hmem =>
      hreadings reading (List.mem_cons_of_mem _ hmem)
    rcases lt_or_ge now (made + taken * l.rate) with hearly | hdue
    · obtain ⟨⟨hrate, hpaid⟩, hanswers⟩ := ih h hlater
      simp only [Limiter.consumeAll, h.consume_early hnow hearly]
      refine ⟨⟨hrate, by simpa using hpaid⟩, fun i reading hi => ?_⟩
      cases i with
      | zero =>
        obtain rfl : now = reading := by simpa using hi
        simpa using hearly
      | succ i => simpa using hanswers i reading (by simpa using hi)
    · obtain ⟨⟨hrate, hpaid⟩, hanswers⟩ := ih h.pays hlater
      simp only [Limiter.consumeAll, h.consume_due hnow hdue]
      refine ⟨⟨hrate, ?_⟩, fun i reading hi => ?_⟩
      · rw [List.count_cons_self, ← Nat.add_assoc, Nat.add_right_comm]
        exact hpaid
      · cases i with
        | zero =>
          obtain rfl : now = reading := by simpa using hi
          simpa using hdue
        | succ i =>
          have hanswer := hanswers i reading (by simpa using hi)
          rw [Nat.add_right_comm] at hanswer
          rw [List.getElem?_cons_succ, List.take_succ_cons, List.count_cons_self, ← Nat.add_assoc]
          exact hanswer

end HasPaid

def grantsUpTo (l : Limiter) (readings : List ℤ) (last : ℤ) : ℕ :=
  (readings.zip (l.consumeAll readings).2).countP fun call => call.2 && call.1 ≤ last

theorem HasPaid.grantsUpTo (h : l.HasPaid made taken) (hreadings : ∀ reading ∈ readings, reading < maxSigned)
    (hsome : 0 < l.grantsUpTo readings last) :
    made + (taken + l.grantsUpTo readings last - 1) * l.rate ≤ last := by
  induction readings generalizing l taken with
  | nil => exact absurd hsome (Nat.lt_irrefl 0)
  | cons now readings ih =>
    have hnow : now < maxSigned := hreadings now List.mem_cons_self
    have hlater : ∀ reading ∈ readings, reading < maxSigned := fun reading hmem =>
      hreadings reading (List.mem_cons_of_mem _ hmem)
    rcases lt_or_ge now (made + taken * l.rate) with hearly | hdue
    · have hsame : l.grantsUpTo (now :: readings) last = l.grantsUpTo readings last := by
        simp [Limiter.grantsUpTo, Limiter.consumeAll, h.consume_early hnow hearly]
      rw [hsame] at hsome ⊢
      exact ih h hlater hsome
    · let next := l.setWord (made + taken * l.rate)
      have hmore : l.grantsUpTo (now :: readings) last =
          next.grantsUpTo readings last + (decide (now ≤ last)).toNat := by
        by_cases hlast : now ≤ last <;>
          simp [Limiter.grantsUpTo, Limiter.consumeAll, h.consume_due hnow hdue, hlast, next]
      have hrest : 0 < next.grantsUpTo readings last →
          made + ((taken + 1 : ℕ) + next.grantsUpTo readings last - 1) * l.rate ≤ last := ih h.pays hlater
      rw [hmore] at hsome ⊢
      generalize next.grantsUpTo readings last = rest at hsome hrest
      have hslot := h.slot
      by_cases hlast : now ≤ last
      · rw [decide_eq_true hlast, Bool.toNat_true]
        rcases Nat.eq_zero_or_pos rest with rfl | hpos
        · simpa using hdue.trans hlast
        · have hrest := hrest hpos
          push_cast at hrest ⊢
          linarith
      · rw [decide_eq_false hlast, Bool.toNat_false, Nat.add_zero] at hsome ⊢
        have hrest := hrest hsome
        push_cast at hrest ⊢
        linarith

/-- Answers do not change where the arithmetic stays at an end of the range: a call is granted just if its reading
has reached the slot after those of the calls granted before it, in numbers without bounds, and the word is then the
reading of that slot. Up to a reading, no more calls are granted than slots have begun. -/
theorem exact_slots (hl : make clock spec made = .ok l) (hopened : 0 ≤ made) (hmade : made ≤ maxSigned)
    (hreadings : ∀ reading ∈ readings, reading < maxSigned) :
    let slot := spec.ticksPerToken
    let answers := (l.consumeAll readings).2
    (∀ i now, readings[i]? = some now →
        answers[i]? = some (decide (made + (answers.take i).count true * slot ≤ now))) ∧
      (l.consumeAll readings).1.lastEmptied = made + (answers.count true - 1) * slot ∧
      (made < maxSigned → (l.consume made).2 = true) ∧
      (0 < slot → ∀ last, made ≤ last → (l.grantsUpTo readings last : ℤ) ≤ (last - made) / slot + 1) ∧
      ∀ last < made, l.grantsUpTo readings last = 0 := by
  intro slot answers
  obtain rfl := eq_start_of_make hl
  have hfresh : (start spec made).HasPaid made 0 := hasPaid_start spec hopened hmade
  have hrate : (start spec made).rate = slot := rfl
  obtain ⟨⟨hsame, hpaid⟩, hanswers⟩ := hfresh.consumeAll hreadings
  refine ⟨fun i now hi => ?_, ?_, fun hfirst => ?_, fun hslot last hlast => ?_, fun last hlast => ?_⟩
  · simpa [hrate] using hanswers i now hi
  · have hword := hpaid.word
    rw [hsame, hrate, Nat.zero_add] at hword
    exact hword
  · rw [hfresh.consume_due hfirst (by simp)]
  · rcases Nat.eq_zero_or_pos ((start spec made).grantsUpTo readings last) with hnone | hsome
    · rw [hnone]
      exact Int.add_nonneg (Int.ediv_nonneg (by omega) hslot.le) Int.one_nonneg
    · have hdue := hfresh.grantsUpTo hreadings hsome
      have hslots : ((start spec made).grantsUpTo readings last : ℤ) - 1 ≤ (last - made) / slot := by
        refine Int.le_ediv_of_mul_le hslot ?_
        rw [hrate] at hdue
        push_cast at hdue
        linarith
      omega
  · by_contra hnone
    have hdue := hfresh.grantsUpTo hreadings (Nat.pos_of_ne_zero hnone)
    have hpaid : 0 ≤ ((0 : ℕ) + ((start spec made).grantsUpTo readings last : ℤ) - 1) * (start spec made).rate :=
      mul_nonneg (by omega) hfresh.slot
    omega

/-- The longest slot that there is: one token is taken, and no other comes due below the end of the range. -/
theorem exact_slots_longest :
    let spec : Rate := ⟨1, ⟨9223372036854775807⟩⟩
    let readings : List ℤ := [4, 7, 3, 9223372036854775806, 5]
    spec.ticksPerToken = maxSigned ∧ make ⟨true, 1⟩ spec 5 = .ok (start spec 5) ∧
      (∀ reading ∈ readings, reading < maxSigned) ∧
      ((start spec 5).consumeAll readings).2 = [false, true, false, false, false] ∧
      ((start spec 5).consumeAll readings).1.lastEmptied = 5 + (1 - 1) * spec.ticksPerToken := by
  intro spec readings
  have hl : make ⟨true, 1⟩ spec 5 = .ok (start spec 5) := rfl
  have hreadings : ∀ reading ∈ readings, reading < maxSigned := by decide
  have hanswers : ((start spec 5).consumeAll readings).2 = [false, true, false, false, false] := by decide
  obtain ⟨_, hword, _⟩ := exact_slots hl (by decide) (by decide) hreadings
  refine ⟨by decide, hl, hreadings, hanswers, ?_⟩
  rw [hanswers] at hword
  exact hword

/-! ## What a rate says -/

theorem grantsUpTo_eq_count (l : Limiter) (hlast : ∀ reading ∈ readings, reading ≤ last) :
    l.grantsUpTo readings last = (l.consumeAll readings).2.count true := by
  induction readings generalizing l with
  | nil => rfl
  | cons now readings ih =>
    have hnow : now ≤ last := hlast now List.mem_cons_self
    have hlater := ih (l.consume now).1 fun reading hmem => hlast reading (List.mem_cons_of_mem _ hmem)
    rw [grantsUpTo] at hlater ⊢
    cases hgranted : (l.consume now).2 <;> simpa [consumeAll, hgranted, hnow] using hlater

theorem rate_of_make {operations : ℕ} {per : TimeSpan} (h : Rate.make operations per = .ok spec) :
    spec = ⟨operations, per⟩ ∧ 0 < operations := by
  unfold Rate.make at h
  split at h
  · cases h
  · next hoperations =>
    split at h
    · cases h
    · exact ⟨(Except.ok.inj h).symm, Nat.pos_of_ne_zero hoperations⟩

theorem operations_mul_slot {operations : ℕ} {per : TimeSpan} (hrange : (per.nanos / operations : ℕ) ≤ maxSigned) :
    (operations : ℤ) * (Rate.mk operations per).ticksPerToken = per.nanos - (per.nanos % operations : ℕ) := by
  have hslot : (Rate.mk operations per).ticksPerToken = (per.nanos / operations : ℕ) := min_eq_left hrange
  have hsplit := congrArg (Nat.cast : ℕ → ℤ) (Nat.div_add_mod per.nanos operations)
  push_cast at hsplit
  rw [hslot]
  push_cast
  linarith

theorem HasPaid.slots_le (h : l.HasPaid made 0) (hreadings : ∀ reading ∈ readings, reading < maxSigned)
    (hlast : ∀ reading ∈ readings, reading ≤ last) (hsome : 0 < (l.consumeAll readings).2.count true) :
    ((l.consumeAll readings).2.count true - 1 : ℤ) * l.rate ≤ last - made := by
  rw [← l.grantsUpTo_eq_count hlast] at hsome ⊢
  have hdue := h.grantsUpTo hreadings hsome
  push_cast at hdue
  linarith

section Rates

variable {operations : ℕ} {per : TimeSpan} {span : ℤ}

theorem left_le_shared (hpositive : 0 < operations) (hfine : operations ≤ per.nanos) :
    ((per.nanos % operations : ℕ) : ℤ) ≤ per.nanos - (per.nanos % operations : ℕ) := by
  have hquotient := Nat.mul_le_mul_left operations (Nat.div_pos hfine hpositive)
  have hsplit := Nat.div_add_mod per.nanos operations
  have hmod : per.nanos % operations < operations := Nat.mod_lt _ hpositive
  omega

/-- Each token but the first has taken a slot, and as many slots as there are operations take what is shared. -/
theorem HasPaid.shared_le (h : l.HasPaid made 0) (hrate : l.rate = (Rate.mk operations per).ticksPerToken)
    (hopened : 0 ≤ made) (hspan : 0 ≤ span)
    (hreadings : ∀ reading ∈ readings, reading ≤ made + span ∧ reading < maxSigned) :
    ((l.consumeAll readings).2.count true - 1 : ℤ) * (per.nanos - (per.nanos % operations : ℕ)) ≤
      operations * span := by
  have hbelow : ∀ reading ∈ readings, reading < maxSigned := fun reading hmem => (hreadings reading hmem).2
  have hshared : 0 ≤ (per.nanos : ℤ) - (per.nanos % operations : ℕ) :=
    sub_nonneg.mpr (Int.ofNat_le.mpr (Nat.mod_le _ _))
  have hwork : 0 ≤ operations * span := mul_nonneg (Int.natCast_nonneg _) hspan
  rcases Nat.eq_zero_or_pos ((l.consumeAll readings).2.count true) with hnone | hsome
  · rw [hnone, Nat.cast_zero]
    linarith
  by_cases hrange : ((per.nanos / operations : ℕ) : ℤ) ≤ maxSigned
  · have hslots := h.slots_le hbelow (fun reading hmem => (hreadings reading hmem).1) hsome
    rw [hrate] at hslots
    rw [← operations_mul_slot hrange, mul_left_comm]
    exact Int.mul_le_mul_of_nonneg_left (by linarith) (Int.natCast_nonneg _)
  -- The slot is then as long as the range of readings, and there is no second one.
  · have hlongest : (Rate.mk operations per).ticksPerToken = maxSigned := min_eq_right (not_le.mp hrange).le
    have hslots := h.slots_le hbelow (fun reading hmem => Int.le_sub_one_of_lt (hbelow reading hmem)) hsome
    rw [hrate, hlongest] at hslots
    have hone : ((l.consumeAll readings).2.count true - 1 : ℤ) < 1 :=
      lt_of_mul_lt_mul_right (by linarith) (by decide : 0 ≤ maxSigned)
    exact (mul_nonpos_of_nonpos_of_nonneg (by omega) hshared).trans hwork

end Rates

/-- The tokens of a span are those of the rate whose duration lacks what is left of it when it is shared among the
operations, and so less than twice those of the rate itself. As many are granted to enough calls at the end of the
span. -/
theorem grants_within_rate {operations : ℕ} {per : TimeSpan} {span : ℤ} (hspec : Rate.make operations per = .ok spec)
    (hfine : operations ≤ per.nanos) (hl : make clock spec made = .ok l) (hopened : 0 ≤ made) (hmade : made ≤ maxSigned)
    (hspan : 0 ≤ span)
    (hreadings : ∀ reading ∈ readings, (made ≤ reading ∧ reading ≤ made + span) ∧ reading < maxSigned) :
    let grants : ℤ := (l.consumeAll readings).2.count true
    let lost := per.nanos % operations
    (grants - 1) * (per.nanos - lost : ℤ) ≤ operations * span ∧
      (grants - 1) * per.nanos ≤ 2 * (operations * span) ∧
      (made + span < maxSigned → ∀ calls : ℕ,
        ((l.consumeAll (List.replicate calls (made + span))).2.count true : ℤ) =
          min (calls : ℤ) (span / spec.ticksPerToken + 1)) := by
  intro grants lost
  obtain rfl := eq_start_of_make hl
  obtain ⟨rfl, hpositive⟩ := rate_of_make hspec
  have hfresh := hasPaid_start ⟨operations, per⟩ hopened hmade
  have hbound : (grants - 1) * (per.nanos - lost : ℤ) ≤ operations * span :=
    hfresh.shared_le rfl hopened hspan fun reading hmem => ⟨(hreadings reading hmem).1.2, (hreadings reading hmem).2⟩
  refine ⟨hbound, ?_, fun hlast calls => ?_⟩
  · rcases Int.lt_or_le grants 1 with hnone | hsome
    · have hnone : (grants - 1) * per.nanos ≤ 0 := mul_nonpos_of_nonpos_of_nonneg (by omega) (Int.natCast_nonneg _)
      have hwork : 0 ≤ operations * span := mul_nonneg (Int.natCast_nonneg _) hspan
      linarith
    · have hlost : (lost : ℤ) ≤ per.nanos - lost := left_le_shared hpositive hfine
      calc (grants - 1) * per.nanos ≤ (grants - 1) * (2 * (per.nanos - lost)) :=
            Int.mul_le_mul_of_nonneg_left (by linarith) (by omega)
        _ = 2 * ((grants - 1) * (per.nanos - lost)) := by ring
        _ ≤ 2 * (operations * span) := by linarith
  · have hslot : 0 < (Rate.mk operations per).ticksPerToken :=
      lt_min (Int.natCast_pos.mpr (Nat.div_pos hfine hpositive)) (by decide)
    obtain ⟨hrange, htokens⟩ := tokensBy_start hslot hopened (by omega : made ≤ made + span) hlast
    have hsame : made + span - made = span := by omega
    rw [hsame] at htokens
    rw [hrange.count_consumeAll_replicate hlast]
    omega

/-- Six operations in eleven nanoseconds have slots of one nanosecond, and five are left. -/
theorem grants_within_rate_uneven :
    let spec : Rate := ⟨6, ⟨11⟩⟩
    let readings : List ℤ := List.replicate 4 1003 ++ List.replicate 30 1020
    let grants : ℤ := ((start spec 1000).consumeAll readings).2.count true
    Rate.make 6 ⟨11⟩ = .ok spec ∧ make ⟨true, 1⟩ spec 1000 = .ok (start spec 1000) ∧
      (∀ reading ∈ readings, ((1000 : ℤ) ≤ reading ∧ reading ≤ 1000 + 20) ∧ reading < maxSigned) ∧
      (grants - 1) * ((11 : ℕ) - (5 : ℕ)) ≤ (6 : ℕ) * 20 ∧ grants = 21 := by
  intro spec readings grants
  have hspec : Rate.make 6 ⟨11⟩ = .ok spec := rfl
  have hl : make ⟨true, 1⟩ spec 1000 = .ok (start spec 1000) := rfl
  have hreadings : ∀ reading ∈ readings, ((1000 : ℤ) ≤ reading ∧ reading ≤ 1000 + 20) ∧ reading < maxSigned := by decide
  exact ⟨hspec, hl, hreadings,
    (grants_within_rate hspec (by decide) hl (by decide) (by decide) (by decide) hreadings).1, by decide +kernel⟩

/-- Two operations in three nanoseconds have slots of one nanosecond, so that the fourth token is granted after three
nanoseconds. -/
theorem uneven_rate_exceeded :
    let spec : Rate := ⟨2, ⟨3⟩⟩
    let readings : List ℤ := [0, 3, 3, 3, 3]
    let grants : ℤ := ((start spec 0).consumeAll readings).2.count true
    Rate.make 2 ⟨3⟩ = .ok spec ∧ make ⟨true, 1⟩ spec 0 = .ok (start spec 0) ∧
      (∀ reading ∈ readings, ((0 : ℤ) ≤ reading ∧ reading ≤ 0 + 3) ∧ reading < maxSigned) ∧
      ¬(grants - 1) * spec.per.nanos ≤ spec.operations * 3 :=
  ⟨rfl, rfl, by decide, by decide⟩

end PhasedWorkload.Limiter
