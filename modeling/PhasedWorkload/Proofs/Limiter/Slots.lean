import Mathlib.Algebra.Order.Group.Unbundled.Int
import PhasedWorkload.Proofs.Limiter.Timeline

/-! # Tokens of a span of time

One token comes due with every slot that passes since a limiter was made, whether or not anybody asks for it. So
the calls in a span of time can take a token for each slot of the span, and those of all the slots that nobody used
before.
-/
namespace PhasedWorkload.Limiter

variable {l : Limiter} {now last : ℤ} {readings : List ℤ}

section Calls

variable (hnext : minSigned ≤ l.lastEmptied + l.rate) (hnow : now < maxSigned)

include hnext hnow

/-- The end of the range is beyond all readings, so a word that stays there refuses like the one it stands for. -/
theorem lt_due_iff : now < l.due ↔ now < l.lastEmptied + l.rate := by
  unfold due saturate
  split
  · omega
  · rw [if_neg (by omega)]

theorem consume_early (hearly : now < l.lastEmptied + l.rate) : l.consume now = (l, false) := by
  rw [consume, if_pos ((lt_due_iff hnext hnow).mpr hearly)]

theorem consume_due (hdue : l.lastEmptied + l.rate ≤ now) :
    l.consume now = (l.setWord (l.lastEmptied + l.rate), true) := by
  have hword : l.due = l.lastEmptied + l.rate := saturate_of_mem hnext (by omega)
  have hgranted : ¬now < l.due := by omega
  rw [consume, if_neg hgranted, hword]
  rfl

end Calls

/-- Tokens that have come due by a reading and are not taken. -/
def tokensBy (l : Limiter) (now : ℤ) : ℕ := ((now - l.lastEmptied) / l.rate).toNat

/-- Neither the word of a limiter nor its slot is outside of the range of signed numbers. -/
structure InRange (l : Limiter) : Prop where
  low : minSigned ≤ l.lastEmptied
  slot : 0 < l.rate

theorem InRange.next (h : l.InRange) : minSigned ≤ l.lastEmptied + l.rate := by
  have hlow := h.low
  have hslot := h.slot
  omega

theorem InRange.taken (h : l.InRange) : (l.setWord (l.lastEmptied + l.rate)).InRange where
  low := h.next
  slot := h.slot

theorem InRange.tokensBy_taken (h : l.InRange) (hdue : l.lastEmptied + l.rate ≤ now) :
    l.tokensBy now = (l.setWord (l.lastEmptied + l.rate)).tokensBy now + 1 := by
  have hslot := h.slot
  have hspan : now - l.lastEmptied = now - (l.lastEmptied + l.rate) + l.rate := by omega
  have hone : (now - l.lastEmptied) / l.rate = (now - (l.lastEmptied + l.rate)) / l.rate + 1 := by
    rw [hspan, Int.add_ediv_of_dvd_right (Int.dvd_refl _), Int.ediv_self hslot.ne']
  have hnonneg : 0 ≤ (now - (l.lastEmptied + l.rate)) / l.rate := Int.ediv_nonneg (by omega) hslot.le
  rw [tokensBy, hone]
  exact Int.toNat_add_nat hnonneg 1

theorem InRange.count_consumeAll_le (h : l.InRange) (hlast : last < maxSigned)
    (hreadings : ∀ reading ∈ readings, reading ≤ last) : (l.consumeAll readings).2.count true ≤ l.tokensBy last := by
  induction readings generalizing l with
  | nil => exact Nat.zero_le _
  | cons now readings ih =>
    have hnow : now ≤ last := hreadings now List.mem_cons_self
    have hlater : ∀ reading ∈ readings, reading ≤ last := fun reading hmem =>
      hreadings reading (List.mem_cons_of_mem _ hmem)
    rcases lt_or_ge now (l.lastEmptied + l.rate) with hearly | hdue
    · rw [consumeAll, consume_early h.next (by omega) hearly]
      simpa using ih h hlater
    · rw [consumeAll, consume_due h.next (by omega) hdue, h.tokensBy_taken (hdue.trans hnow)]
      simpa using ih h.taken hlater

theorem InRange.count_consumeAll_replicate (h : l.InRange) (hnow : now < maxSigned) (calls : ℕ) :
    (l.consumeAll (List.replicate calls now)).2.count true = min calls (l.tokensBy now) := by
  induction calls generalizing l with
  | zero => simp [consumeAll]
  | succ calls ih =>
    rw [List.replicate_succ, consumeAll]
    rcases lt_or_ge now (l.lastEmptied + l.rate) with hearly | hdue
    · have hnone : l.tokensBy now = 0 := by
        have hspan : (now - l.lastEmptied) / l.rate < 1 := Int.ediv_lt_of_lt_mul h.slot (by omega)
        exact Int.toNat_eq_zero.mpr (by omega)
      rw [consume_early h.next hnow hearly]
      simpa [hnone] using ih h
    · rw [consume_due h.next hnow hdue, h.tokensBy_taken hdue]
      simpa [Nat.add_min_add_right] using ih h.taken

theorem lastEmptied_start (spec : Rate) {made : ℤ} (hmade : 0 ≤ made) (hlast : made ≤ maxSigned) :
    minSigned ≤ (start spec made).lastEmptied ∧ (start spec made).lastEmptied = made - spec.ticksPerToken := by
  have hslot : 0 ≤ spec.ticksPerToken := le_min (Int.natCast_nonneg _) (by decide)
  have hmost : spec.ticksPerToken ≤ maxSigned := min_le_right _ _
  have hlow : minSigned ≤ made - spec.ticksPerToken := by
    unfold minSigned
    unfold maxSigned at hmost
    omega
  have hword : (start spec made).lastEmptied = made - spec.ticksPerToken := saturate_of_mem hlow (by omega)
  exact ⟨hword ▸ hlow, hword⟩

theorem tokensBy_start {spec : Rate} {made : ℤ} (hslot : 0 < spec.ticksPerToken) (hmade : 0 ≤ made)
    (hnow : made ≤ now) (hlast : now < maxSigned) :
    (start spec made).InRange ∧ ((start spec made).tokensBy now : ℤ) = (now - made) / spec.ticksPerToken + 1 := by
  obtain ⟨hlow, hword⟩ := lastEmptied_start spec hmade (by omega)
  refine ⟨⟨hlow, hslot⟩, ?_⟩
  have hrate : (start spec made).rate = spec.ticksPerToken := rfl
  have hspan : now - (made - spec.ticksPerToken) = now - made + spec.ticksPerToken := by omega
  have hnonneg : 0 ≤ (now - made) / spec.ticksPerToken := Int.ediv_nonneg (by omega) hslot.le
  rw [tokensBy, hword, hrate, hspan, Int.add_ediv_of_dvd_right (Int.dvd_refl _), Int.ediv_self hslot.ne']
  exact Int.toNat_of_nonneg (by omega)

namespace Timeline

/-- Whatever the order of the steps: callers get no more tokens than have come due when the last call is made. -/
theorem Sound.grants_le {t : Timeline} {readings : List (List ℤ)} (h : t.Sound l readings) (hl : l.InRange)
    (hlast : last < maxSigned) (hreadings : ∀ reading ∈ readings.flatten, reading ≤ last) :
    t.race.grants ≤ l.tokensBy last := by
  have hmade : ∀ reading ∈ t.calls.map Call.reading, reading ≤ last := fun reading hmem =>
    hreadings reading (h.all_asked.mem_iff.mpr (List.mem_append_left _ hmem))
  have hcount := hl.count_consumeAll_le hlast hmade
  rw [h.legal] at hcount
  rw [h.grants_eq]
  exact hcount

/-- In a phase that begins some time after its limiter was made, callers in any order get at most the free token, one
for each slot of the phase, and those of the slots that have passed before. Calls one after another at the end of the
phase get as many. -/
theorem phase_cap (spec : Rate) {made began length : ℤ} (readings : List (List ℤ)) (schedule : List (ℕ × Exchange))
    (hslot : 1 ≤ spec.ticksPerToken) (hmade : 0 ≤ made) (hbegan : made ≤ began) (hlength : 0 ≤ length)
    (hlast : began + length < maxSigned)
    (hreadings : ∀ reading ∈ readings.flatten, began ≤ reading ∧ reading ≤ began + length) :
    let l := Limiter.start spec made
    let slot := spec.ticksPerToken
    let stored := (began - made + length % slot) / slot
    (((start l readings).run schedule).race.grants : ℤ) ≤ length / slot + 1 + stored ∧
      ∀ calls : ℕ, ((l.consumeAll (List.replicate calls (began + length))).2.count true : ℤ) =
        min (calls : ℤ) (length / slot + 1 + stored) := by
  intro l slot stored
  obtain ⟨hl, htokens⟩ := tokensBy_start hslot hmade (by omega : made ≤ began + length) hlast
  have hsplit : (began + length - made) / slot = stored + length / slot := by
    have hspan : began + length - made = (began - made + length % slot) + slot * (length / slot) := by
      have hlength := Int.emod_add_mul_ediv length slot
      omega
    rw [hspan, Int.add_mul_ediv_left _ _ (by omega)]
  have hcap : (l.tokensBy (began + length) : ℤ) = length / slot + 1 + stored := by
    have htokens : (l.tokensBy (began + length) : ℤ) = (began + length - made) / slot + 1 := htokens
    omega
  constructor
  case left =>
    have hsound : Sound l readings ((start l readings).run schedule) := (sound_start l readings).run schedule
    have hgrants := hsound.grants_le hl hlast fun reading hmem => (hreadings reading hmem).2
    omega
  case right =>
    intro calls
    rw [hl.count_consumeAll_replicate hlast, ← hcap]
    generalize l.tokensBy (began + length) = tokens
    omega

/-- A phase of half a slot that begins two slots after the limiter was made: three of four calls get a token. -/
theorem phase_cap_late :
    let spec : Rate := ⟨1, ⟨10⟩⟩
    let readings : List (List ℤ) := [[20, 25], [21, 25]]
    let t := (start (Limiter.start spec 0) readings).run
      [(0, .done), (1, .done), (0, .done), (1, .done), (1, .done), (0, .done), (0, .done), (1, .done)]
    1 ≤ spec.ticksPerToken ∧ (20 + 5 : ℤ) < maxSigned ∧
      (∀ reading ∈ readings.flatten, 20 ≤ reading ∧ reading ≤ 20 + 5) ∧
      (t.race.grants : ℤ) ≤ 5 / spec.ticksPerToken + 1 + 2 ∧ t.race.grants = 3 := by
  intro spec readings t
  have hslot : 1 ≤ spec.ticksPerToken := by decide
  have hlast : (20 + 5 : ℤ) < maxSigned := by decide
  have hreadings : ∀ reading ∈ readings.flatten, 20 ≤ reading ∧ reading ≤ 20 + 5 := by decide
  have hgrants := (phase_cap spec readings
    [(0, .done), (1, .done), (0, .done), (1, .done), (1, .done), (0, .done), (0, .done),
      (1, .done)] hslot (le_refl 0) (by decide) (by decide) hlast hreadings).1
  have hstored : (20 - 0 + 5 % spec.ticksPerToken) / spec.ticksPerToken = 2 := by decide
  rw [hstored] at hgrants
  exact ⟨hslot, hlast, hreadings, hgrants, by decide +kernel⟩

theorem late_phase_exceeds_cap :
    let spec : Rate := ⟨1, ⟨10⟩⟩
    let readings : List (List ℤ) := [[20, 25], [21, 25]]
    let t := (start (Limiter.start spec 0) readings).run
      [(0, .done), (1, .done), (0, .done), (1, .done), (1, .done), (0, .done), (0, .done), (1, .done)]
    (∀ reading ∈ readings.flatten, 20 ≤ reading ∧ reading ≤ 20 + 5) ∧
      ¬(t.race.grants : ℤ) ≤ 5 / spec.ticksPerToken + 1 := by
  decide +kernel

end Timeline

end PhasedWorkload.Limiter
