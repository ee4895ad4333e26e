import Mathlib.Algebra.Order.Field.Power
import Mathlib.Data.Rat.Cast.Order
import Mathlib.Tactic.FieldSimp
import Mathlib.Tactic.Linarith
import Mathlib.Tactic.NormNum
import Mathlib.Tactic.Positivity
import Mathlib.Tactic.Ring
import PhasedWorkload.Binary64.Reading

/-! # Rounding to the nearest double

The doubles are the multiples of a power of two by significands of full length, and below them those of the least
power. The double nearest to a number is the one that no other is nearer than, and of two at the same distance the one
with the even significand. There is exactly one, and a quotient is rounded to it; where its exponent is too large for
the format the result is infinite.
-/
namespace PhasedWorkload.Binary64

variable {q : ℚ} {m m' r : ℕ} {e e' : ℤ}

/-- The number that a significand and an exponent stand for. -/
def scaled (m : ℕ) (e : ℤ) : ℚ := m * 2 ^ e

theorem unit_pos (e : ℤ) : (0 : ℚ) < 2 ^ e := zpow_pos two_pos e

theorem cast_pow_toNat (base : ℕ) (h : 0 ≤ e) : ((Nat.pow base e.toNat : ℕ) : ℚ) = (base : ℚ) ^ e := by
  rw [Nat.pow_eq, Nat.cast_pow, ← zpow_natCast, Int.toNat_of_nonneg h]

theorem cast_two_pow_toNat (h : 0 ≤ e) : ((Nat.pow 2 e.toNat : ℕ) : ℚ) = 2 ^ e := by
  rw [cast_pow_toNat 2 h, Nat.cast_two]

theorem hiddenBit_eq : (hiddenBit : ℚ) = 2 ^ (52 : ℤ) := by norm_num [hiddenBit]

theorem scaled_succ_exponent (m : ℕ) (e : ℤ) : scaled m (e + 1) = scaled (2 * m) e := by
  rw [scaled, scaled, zpow_add_one₀ two_ne_zero, Nat.cast_mul, Nat.cast_two]
  ring

theorem scaled_le_scaled (h : m ≤ m') : scaled m e ≤ scaled m' e :=
  mul_le_mul_of_nonneg_right (Nat.cast_le.mpr h) (unit_pos e).le

theorem scaled_lt_scaled (h : m < m') : scaled m e < scaled m' e :=
  mul_lt_mul_of_pos_right (Nat.cast_lt.mpr h) (unit_pos e)

theorem scaled_le_of_exponent_le (m : ℕ) (h : e ≤ e') : scaled m e ≤ scaled m e' :=
  mul_le_mul_of_nonneg_left (zpow_le_zpow_right₀ one_le_two h) (Nat.cast_nonneg m)

/-- Beyond a unit every multiple of a larger power of two is a multiple of the unit. -/
theorem exists_scaled_of_exponent_le (m : ℕ) (h : e ≤ e') : ∃ k : ℕ, scaled m e' = scaled k e := by
  obtain ⟨d, rfl⟩ := Int.le.dest h
  refine ⟨m * 2 ^ d, ?_⟩
  rw [scaled, scaled, zpow_add₀ two_ne_zero, zpow_natCast, Nat.cast_mul, Nat.cast_pow, Nat.cast_two]
  ring

/-! ## The numbers of the format -/

/-- A significand and an exponent as they are stored, if no exponent is too large. -/
structure Canonical (m : ℕ) (e : ℤ) : Prop where
  short : m < 2 * hiddenBit
  least : minExponent ≤ e
  full : hiddenBit ≤ m ∨ e = minExponent

theorem canonical_zero : Canonical 0 minExponent := ⟨by decide, le_refl _, .inr rfl⟩

/-- A larger exponent makes a larger number. -/
theorem Canonical.below (h : Canonical m e) (h' : Canonical m' e') (hlt : e < e') :
    scaled (m + 1) e ≤ scaled m' e' := by
  have hfull : hiddenBit ≤ m' := h'.full.resolve_right (h.least.trans_lt hlt).ne'
  calc scaled (m + 1) e ≤ scaled (2 * hiddenBit) e := scaled_le_scaled h.short
    _ = scaled hiddenBit (e + 1) := (scaled_succ_exponent _ _).symm
    _ ≤ scaled hiddenBit e' := scaled_le_of_exponent_le _ hlt
    _ ≤ scaled m' e' := scaled_le_scaled hfull

theorem Canonical.lt_of_exponent_lt (h : Canonical m e) (h' : Canonical m' e') (hlt : e < e') :
    scaled m e < scaled m' e' :=
  (scaled_lt_scaled (Nat.lt_succ_self m)).trans_le (h.below h' hlt)

theorem Canonical.succ_le (h : Canonical m e) (h' : Canonical m' e') (hlt : scaled m e < scaled m' e') :
    scaled (m + 1) e ≤ scaled m' e' := by
  rcases lt_trichotomy e e' with hexponent | rfl | hexponent
  · exact h.below h' hexponent
  · refine scaled_le_scaled (Nat.succ_le_of_lt (lt_of_not_ge fun hle => ?_))
    exact absurd (scaled_le_scaled hle) hlt.not_ge
  · exact absurd (h'.lt_of_exponent_lt h hexponent) hlt.asymm

theorem Canonical.eq_of_scaled (h : Canonical m e) (h' : Canonical m' e') (heq : scaled m e = scaled m' e') :
    m = m' ∧ e = e' := by
  rcases lt_trichotomy e e' with hexponent | rfl | hexponent
  · exact absurd heq (h.lt_of_exponent_lt h' hexponent).ne
  · exact ⟨Nat.cast_injective (mul_right_cancel₀ (unit_pos e).ne' heq), rfl⟩
  · exact absurd heq (h'.lt_of_exponent_lt h hexponent).ne'

/-! ## The nearest of them -/

/-- No double is nearer to `q`, and if another one is as near, the significand of this one is even. -/
structure Closest (q : ℚ) (m : ℕ) (e : ℤ) : Prop where
  canonical : Canonical m e
  least : ∀ m' e', Canonical m' e' → |q - scaled m e| ≤ |q - scaled m' e'|
  even : ∀ m' e', Canonical m' e' → |q - scaled m e| = |q - scaled m' e'| → scaled m' e' ≠ scaled m e → Even m

/-- The smaller of two nearest doubles would have a neighbour with an odd significand on the other side of `q`. -/
theorem Closest.le_closest (h : Closest q m e) (h' : Closest q m' e') : scaled m' e' ≤ scaled m e := by
  by_contra hle
  have hlt : scaled m e < scaled m' e' := not_le.mp hle
  have hsame : |q - scaled m e| = |q - scaled m' e'| :=
    le_antisymm (h.least _ _ h'.canonical) (h'.least _ _ h.canonical)
  have heven : Even m := h.even _ _ h'.canonical hsame hlt.ne'
  have heven' : Even m' := h'.even _ _ h.canonical hsame.symm hlt.ne
  have hmiddle : q - scaled m e = scaled m' e' - q := by
    rcases abs_eq_abs.mp hsame with hequal | hopposite
    · exact absurd (sub_right_injective hequal) hlt.ne
    · rw [hopposite, neg_sub]
  -- The largest significand is odd, so the neighbour has the same exponent.
  have hroom : m + 1 < 2 * hiddenBit := by
    refine lt_of_le_of_ne h.canonical.short fun hlast => ?_
    exact Nat.not_even_iff_odd.mpr heven.add_one (hlast ▸ even_two_mul hiddenBit)
  have hnext : Canonical (m + 1) e :=
    ⟨hroom, h.canonical.least, h.canonical.full.imp_left Nat.le_succ_of_le⟩
  have habove : scaled m e < scaled (m + 1) e := scaled_lt_scaled (Nat.lt_succ_self m)
  rcases (h.canonical.succ_le h'.canonical hlt).lt_or_eq with hbetween | hneighbour
  · have hnearer : |q - scaled (m + 1) e| < |q - scaled m e| := by
      rw [abs_of_pos (show 0 < q - scaled m e by linarith), abs_lt]
      constructor <;> linarith
    exact absurd (h.least _ _ hnext) hnearer.not_ge
  · obtain ⟨rfl, _⟩ := hnext.eq_of_scaled h'.canonical hneighbour
    exact Nat.not_even_iff_odd.mpr heven.add_one heven'

theorem Closest.unique (h : Closest q m e) (h' : Closest q m' e') : m = m' ∧ e = e' :=
  h.canonical.eq_of_scaled h'.canonical (le_antisymm (h'.le_closest h) (h.le_closest h'))

theorem Canonical.closest (h : Canonical m e) : Closest (scaled m e) m e where
  canonical := h
  least m' e' _ := by
    rw [sub_self, abs_zero]
    exact abs_nonneg _
  even m' e' _ heq hne := by
    rw [sub_self, abs_zero] at heq
    exact absurd (sub_eq_zero.mp (abs_eq_zero.mp heq.symm)).symm hne

/-- A double up to `q` is not beyond the nearest one. -/
theorem Closest.le_scaled (h : Closest q m e) (h' : Canonical m' e') (hle : scaled m' e' ≤ q) :
    scaled m' e' ≤ scaled m e := by
  by_contra hlt
  have hnearer : |q - scaled m' e'| < |q - scaled m e| := by
    rw [abs_of_nonneg (show 0 ≤ q - scaled m' e' by linarith), abs_of_pos (show 0 < q - scaled m e by linarith)]
    linarith
  exact absurd (h.least _ _ h') hnearer.not_ge

/-- The sign, and the nearest double of the magnitude unless its exponent is too large. -/
def Rounded (negative : Bool) (q : ℚ) (x : Binary64) : Prop :=
  ∃ m e, Closest q m e ∧ x = if maxExponent < e then .infinite negative else .finite negative m e

theorem Rounded.unique {negative : Bool} {x y : Binary64} (h : Rounded negative q x) (h' : Rounded negative q y) :
    x = y := by
  obtain ⟨m, e, hclosest, rfl⟩ := h
  obtain ⟨m', e', hclosest', rfl⟩ := h'
  obtain ⟨rfl, rfl⟩ := hclosest.unique hclosest'
  rfl

/-! ## The numbers of doubles -/

def number? : Binary64 → Option ℚ
  | .finite negative m e => some (if negative then -scaled m e else scaled m e)
  | _ => none

/-- The number is a finite double. -/
def IsDouble (q : ℚ) : Prop := ∃ m e, Canonical m e ∧ e ≤ maxExponent ∧ q = scaled m e

/-- Whole numbers that need no more digits than a significand has. -/
theorem isDouble_natCast {n : ℕ} (h : n < 2 * hiddenBit) : IsDouble n := by
  rcases Nat.eq_zero_or_pos n with rfl | hpos
  · exact ⟨0, minExponent, canonical_zero, by decide, by simp [scaled]⟩
  · have hlow : 2 ^ n.log2 ≤ n := Nat.log2_self_le hpos.ne'
    have hhigh : n < 2 ^ (n.log2 + 1) := Nat.lt_log2_self
    have hlength : n.log2 ≤ 52 := Nat.lt_succ_iff.mp ((Nat.log2_lt hpos.ne').mpr h)
    have hfull : 2 ^ n.log2 * 2 ^ (52 - n.log2) = hiddenBit := by
      rw [← Nat.pow_add, Nat.add_sub_cancel' hlength]
      rfl
    have hshift : 0 < 2 ^ (52 - n.log2) := Nat.pow_pos two_pos
    refine ⟨n * 2 ^ (52 - n.log2), -((52 - n.log2 : ℕ) : ℤ), ⟨?_, ?_, .inl ?_⟩, ?_, ?_⟩
    · calc n * 2 ^ (52 - n.log2) < 2 ^ (n.log2 + 1) * 2 ^ (52 - n.log2) := Nat.mul_lt_mul_of_pos_right hhigh hshift
        _ = 2 * hiddenBit := by rw [Nat.pow_succ', mul_assoc, hfull]
    · unfold minExponent
      omega
    · exact hfull ▸ Nat.mul_le_mul_right _ hlow
    · unfold maxExponent
      omega
    · rw [scaled, Nat.cast_mul, Nat.cast_pow, Nat.cast_two, ← zpow_natCast, mul_assoc, ← zpow_add₀ two_ne_zero,
        add_neg_cancel, zpow_zero, mul_one]

theorem Rounded.number?_eq {x : Binary64} (h : Rounded false q x) (hq : IsDouble q) : x.number? = some q := by
  obtain ⟨m, e, hcanonical, hexponent, rfl⟩ := hq
  obtain rfl := h.unique ⟨m, e, hcanonical.closest, rfl⟩
  rw [if_neg hexponent.not_gt]
  rfl

theorem wholePart?_eq_some_iff {negative : Bool} {n : ℕ} :
    wholePart? (.finite negative m e) = some n ↔ scaled m e = n := by
  rw [wholePart?, scaled]
  split
  · next hpos =>
    rw [Option.some_inj, ← cast_two_pow_toNat hpos, ← Nat.cast_mul, Nat.cast_inj]
  · next hneg =>
    have hunit : 0 < Nat.pow 2 (-e).toNat := Nat.pow_pos two_pos
    have hvalue : (m : ℚ) * 2 ^ e = n ↔ m = n * Nat.pow 2 (-e).toNat := by
      have hcast : ((Nat.pow 2 (-e).toNat : ℕ) : ℚ) ≠ 0 := Nat.cast_ne_zero.mpr hunit.ne'
      have hpower : (2 : ℚ) ^ e * (Nat.pow 2 (-e).toNat : ℕ) = 1 := by
        rw [cast_two_pow_toNat (by omega), ← zpow_add₀ two_ne_zero, add_neg_cancel, zpow_zero]
      rw [← mul_left_inj' hcast, mul_assoc, hpower, mul_one, ← Nat.cast_mul, Nat.cast_inj]
    rw [hvalue]
    constructor
    · intro hsome
      obtain ⟨hdvd, hquotient⟩ := Option.ite_none_right_eq_some.mp hsome
      obtain rfl := Option.some.inj hquotient
      exact (Nat.div_mul_cancel (Nat.dvd_of_mod_eq_zero hdvd)).symm
    · rintro rfl
      rw [if_pos (Nat.mul_mod_left _ _), Nat.mul_div_cancel _ hunit]

/-! ## Whole multiples of a unit -/

/-- No whole number of units is nearer to `q` than `r`, which is even if two are as near. -/
structure RoundsTo (q unit : ℚ) (r : ℕ) : Prop where
  near : 2 * |q - r * unit| ≤ unit
  even : 2 * |q - r * unit| = unit → Even r

theorem RoundsTo.le_abs {unit : ℚ} (h : RoundsTo q unit r) {k : ℕ} (hne : k ≠ r) : unit ≤ 2 * |q - k * unit| := by
  have hunit : 0 ≤ unit := (mul_nonneg two_pos.le (abs_nonneg _)).trans h.near
  have hapart : (1 : ℚ) ≤ |(r : ℚ) - k| := by
    have hint : 1 ≤ |(r : ℤ) - k| := Int.one_le_abs (sub_ne_zero.mpr fun heq => hne (Int.ofNat_inj.mp heq).symm)
    exact_mod_cast hint
  have hsplit : unit ≤ |q - r * unit| + |q - k * unit| :=
    calc unit ≤ |(r : ℚ) - k| * unit := le_mul_of_one_le_left hunit hapart
      _ = |(q - k * unit) - (q - r * unit)| := by
          rw [← abs_of_nonneg hunit, ← abs_mul, abs_of_nonneg hunit]
          congr 1
          ring
      _ ≤ |q - k * unit| + |q - r * unit| := abs_sub _ _
      _ = |q - r * unit| + |q - k * unit| := add_comm _ _
  linarith [h.near]

section Parts

variable {unit part : ℚ} {k : ℕ} (hunit : 0 < unit) (hq : q = (k + part) * unit)

include hunit hq

theorem abs_sub_down (hpart : 0 ≤ part) : |q - k * unit| = part * unit := by
  rw [hq, ← sub_mul, add_sub_cancel_left, abs_of_nonneg (mul_nonneg hpart hunit.le)]

theorem abs_sub_up (hpart : part ≤ 1) : |q - (k + 1 : ℕ) * unit| = (1 - part) * unit := by
  have hdifference : (k + 1 : ℕ) * unit - q = (1 - part) * unit := by
    rw [hq, Nat.cast_succ]
    ring
  rw [abs_sub_comm, hdifference, abs_of_nonneg (mul_nonneg (sub_nonneg.mpr hpart) hunit.le)]

theorem roundsTo_down (hpart : 0 ≤ part) (hhalf : 2 * part < 1) : RoundsTo q unit k := by
  have hless : 2 * |q - k * unit| < unit := by
    rw [abs_sub_down hunit hq hpart, ← mul_assoc]
    exact mul_lt_of_lt_one_left hunit hhalf
  exact ⟨hless.le, fun heq => absurd heq hless.ne⟩

theorem roundsTo_up (hpart : part ≤ 1) (hhalf : 1 < 2 * part) : RoundsTo q unit (k + 1) := by
  have hless : 2 * |q - (k + 1 : ℕ) * unit| < unit := by
    rw [abs_sub_up hunit hq hpart, ← mul_assoc]
    exact mul_lt_of_lt_one_left hunit (by linarith)
  exact ⟨hless.le, fun heq => absurd heq hless.ne⟩

theorem roundsTo_half (hhalf : 2 * part = 1) : RoundsTo q unit (k + k % 2) := by
  rcases Nat.mod_two_eq_zero_or_one k with heven | hodd
  · rw [heven]
    refine ⟨?_, fun _ => Nat.even_iff.mpr heven⟩
    rw [Nat.add_zero, abs_sub_down hunit hq (by linarith), ← mul_assoc, hhalf, one_mul]
  · rw [hodd]
    refine ⟨?_, fun _ => (Nat.odd_iff.mpr hodd).add_one⟩
    rw [abs_sub_up hunit hq (by linarith), ← mul_assoc, mul_sub, hhalf]
    linarith

end Parts

/-- The range of numbers that are multiples of `2 ^ e` once they are rounded. -/
structure HasExponent (q : ℚ) (e : ℤ) : Prop where
  least : minExponent ≤ e
  short : q < scaled (2 * hiddenBit) e
  full : scaled hiddenBit e ≤ q ∨ e = minExponent

/-- Doubles with a smaller exponent are not above the least multiple of full length, others are multiples too. -/
theorem HasExponent.closest_multiple (hq : HasExponent q e) (hr : RoundsTo q (2 ^ e) r) (h : Canonical m' e') :
    |q - scaled r e| ≤ |q - scaled m' e'| ∧
      (|q - scaled r e| = |q - scaled m' e'| → scaled m' e' ≠ scaled r e → Even r) := by
  have hmultiple : ∀ k : ℕ, |q - scaled r e| ≤ |q - scaled k e| := by
    intro k
    by_cases hk : k = r
    · rw [hk]
    · have hapart := hr.le_abs hk
      have hnear := hr.near
      unfold scaled
      linarith
  rcases le_or_gt e e' with hlarge | hsmall
  -- It is a number of units too, and of these `r` is the nearest.
  · obtain ⟨k, hk⟩ := exists_scaled_of_exponent_le m' hlarge
    rw [hk]
    refine ⟨hmultiple k, fun hsame hne => hr.even (le_antisymm hr.near ?_)⟩
    have hapart := hr.le_abs (k := k) fun heq => hne (congrArg (scaled · e) heq)
    unfold scaled at hsame
    rwa [hsame]
  -- It need not be one, but it is below the least number of full length, and that is not above `q`.
  · have hfull : scaled hiddenBit e ≤ q := hq.full.resolve_right (h.least.trans_lt hsmall).ne'
    have hbelow : scaled m' e' < scaled hiddenBit e :=
      calc scaled m' e' < scaled (2 * hiddenBit) e' := scaled_lt_scaled h.short
        _ = scaled hiddenBit (e' + 1) := (scaled_succ_exponent _ _).symm
        _ ≤ scaled hiddenBit e := scaled_le_of_exponent_le _ hsmall
    have hfarther : |q - scaled r e| < |q - scaled m' e'| := by
      refine (hmultiple hiddenBit).trans_lt ?_
      rw [abs_of_nonneg (sub_nonneg.mpr hfull), abs_of_pos (by linarith)]
      linarith
    exact ⟨hfarther.le, fun hsame => absurd hsame hfarther.ne⟩

theorem HasExponent.le_carry (hq : HasExponent q e) (hr : RoundsTo q (2 ^ e) r) : r ≤ 2 * hiddenBit := by
  by_contra hlong
  have hnear := (abs_le.mp (show |q - r * 2 ^ e| ≤ 2 ^ e / 2 by linarith [hr.near])).1
  have hlarge : scaled (2 * hiddenBit + 1) e ≤ scaled r e := scaled_le_scaled (not_le.mp hlong)
  have hshort := hq.short
  have hunit := unit_pos e
  simp only [scaled, Nat.cast_add, Nat.cast_one] at hlarge hshort
  linarith

theorem HasExponent.full_significand (hq : HasExponent q e) (hr : RoundsTo q (2 ^ e) r) :
    hiddenBit ≤ r ∨ e = minExponent := by
  refine hq.full.imp_left fun hfull => ?_
  by_contra hlow
  have hnear := (abs_le.mp (show |q - r * 2 ^ e| ≤ 2 ^ e / 2 by linarith [hr.near])).2
  have hsmall : scaled (r + 1) e ≤ scaled hiddenBit e := scaled_le_scaled (not_le.mp hlow)
  have hunit := unit_pos e
  simp only [scaled, Nat.cast_add, Nat.cast_one] at hsmall hfull
  linarith

/-- The significand may become one digit too long, a power of two. -/
theorem HasExponent.closest (hq : HasExponent q e) (hr : RoundsTo q (2 ^ e) r) :
    if r = 2 * hiddenBit then Closest q hiddenBit (e + 1) else Closest q r e := by
  split
  · next hcarry =>
    have hvalue : scaled hiddenBit (e + 1) = scaled r e := by rw [hcarry, scaled_succ_exponent]
    have hcanonical : Canonical hiddenBit (e + 1) :=
      ⟨by decide, hq.least.trans (Int.le_add_one (le_refl e)), .inl (le_refl _)⟩
    constructor
    case canonical => exact hcanonical
    case least => exact fun m' e' h => hvalue ▸ (hq.closest_multiple hr h).1
    case even => exact fun _ _ _ _ _ => by decide
  · next hshort =>
    exact ⟨⟨lt_of_le_of_ne (hq.le_carry hr) hshort, hq.least, hq.full_significand hr⟩,
      fun m' e' h => (hq.closest_multiple hr h).1, fun m' e' h => (hq.closest_multiple hr h).2⟩

/-! ## Quotients -/

variable {numerator denominator : ℕ}

/-- The quotient in units, as one of natural numbers. -/
theorem scaledQuotient_spec (numerator : ℕ) (hd : 0 < denominator) (e : ℤ) :
    ∃ top bottom : ℕ, 0 < bottom ∧ (numerator : ℚ) / denominator * bottom = top * 2 ^ e ∧
      scaledQuotient numerator denominator e = (top / bottom, compare (2 * (top % bottom)) bottom) := by
  have hdenominator : (denominator : ℚ) ≠ 0 := Nat.cast_ne_zero.mpr hd.ne'
  unfold scaledQuotient
  split
  · next hneg =>
    refine ⟨_, _, hd, ?_, rfl⟩
    rw [div_mul_cancel₀ _ hdenominator, Nat.cast_mul, cast_two_pow_toNat (by omega), mul_assoc,
      ← zpow_add₀ two_ne_zero, neg_add_cancel, zpow_zero, mul_one]
  · next hpos =>
    refine ⟨_, _, Nat.mul_pos hd (Nat.pow_pos two_pos), ?_, rfl⟩
    rw [Nat.cast_mul, ← mul_assoc, div_mul_cancel₀ _ hdenominator]
    exact congrArg _ (cast_two_pow_toNat (by omega))

theorem scaledQuotient_lt_iff (hd : 0 < denominator) (e : ℤ) (n : ℕ) :
    (scaledQuotient numerator denominator e).1 < n ↔ (numerator : ℚ) / denominator < scaled n e := by
  obtain ⟨top, bottom, hbottom, hvalue, hquotient⟩ := scaledQuotient_spec numerator hd e
  have hcast : (0 : ℚ) < bottom := Nat.cast_pos.mpr hbottom
  rw [hquotient, Nat.div_lt_iff_lt_mul hbottom, ← mul_lt_mul_iff_left₀ hcast, hvalue, scaled, mul_right_comm,
    mul_lt_mul_iff_left₀ (unit_pos e), ← Nat.cast_mul, Nat.cast_lt]

/-- A remainder of more than half a unit is rounded up, half a unit to the even side. -/
theorem roundsTo_nearestEven (hd : 0 < denominator) (e : ℤ) :
    RoundsTo (numerator / denominator) (2 ^ e) (nearestEven (scaledQuotient numerator denominator e)) := by
  obtain ⟨top, bottom, hbottom, hvalue, hquotient⟩ := scaledQuotient_spec numerator hd e
  have hcast : (0 : ℚ) < bottom := Nat.cast_pos.mpr hbottom
  have hunit := unit_pos e
  have htop : (top : ℚ) = bottom * (top / bottom : ℕ) + (top % bottom : ℕ) := by
    exact_mod_cast (Nat.div_add_mod top bottom).symm
  have hsum : (numerator : ℚ) / denominator = ((top / bottom : ℕ) + (top % bottom : ℕ) / bottom) * 2 ^ e := by
    refine mul_right_cancel₀ hcast.ne' ?_
    rw [hvalue]
    nth_rewrite 1 [htop]
    field_simp
  have hnonneg : (0 : ℚ) ≤ (top % bottom : ℕ) / bottom := div_nonneg (Nat.cast_nonneg _) hcast.le
  have hbelow : ((top % bottom : ℕ) : ℚ) / bottom ≤ 1 :=
    (div_le_one hcast).mpr (Nat.cast_le.mpr (Nat.mod_lt _ hbottom).le)
  have hdouble : 2 * (((top % bottom : ℕ) : ℚ) / bottom) = (2 * (top % bottom) : ℕ) / bottom := by
    rw [Nat.cast_mul, Nat.cast_two, mul_div_assoc]
  rw [hquotient]
  cases hcompare : compare (2 * (top % bottom)) bottom with
  | lt =>
    refine roundsTo_down hunit hsum hnonneg ?_
    rw [hdouble, div_lt_one hcast]
    exact Nat.cast_lt.mpr (compare_lt_iff_lt.mp hcompare)
  | eq =>
    refine roundsTo_half hunit hsum ?_
    rw [hdouble, compare_eq_iff_eq.mp hcompare, div_self hcast.ne']
  | gt =>
    refine roundsTo_up hunit hsum hbelow ?_
    rw [hdouble, one_lt_div hcast]
    exact Nat.cast_lt.mpr (compare_gt_iff_gt.mp hcompare)

/-- The lengths of numerator and denominator tell the length of a quotient up to one binary digit. -/
theorem quotient_bounds (hn : 0 < numerator) (hd : 0 < denominator) :
    (2 : ℚ) ^ ((numerator.log2 : ℤ) - denominator.log2 - 1) ≤ numerator / denominator ∧
      (numerator : ℚ) / denominator < 2 ^ ((numerator.log2 : ℤ) - denominator.log2 + 1) := by
  have hcast : (0 : ℚ) < denominator := Nat.cast_pos.mpr hd
  have hlow : ∀ {n : ℕ}, 0 < n → (2 : ℚ) ^ (n.log2 : ℤ) ≤ n := by
    intro n h
    rw [zpow_natCast]
    exact_mod_cast Nat.log2_self_le h.ne'
  have hhigh : ∀ n : ℕ, (n : ℚ) < 2 ^ ((n.log2 : ℤ) + 1) := by
    intro n
    rw [← Nat.cast_succ, zpow_natCast]
    exact_mod_cast Nat.lt_log2_self
  constructor
  · rw [le_div_iff₀ hcast]
    calc (2 : ℚ) ^ ((numerator.log2 : ℤ) - denominator.log2 - 1) * denominator
        ≤ 2 ^ ((numerator.log2 : ℤ) - denominator.log2 - 1) * 2 ^ ((denominator.log2 : ℤ) + 1) :=
          mul_le_mul_of_nonneg_left (hhigh denominator).le (unit_pos _).le
      _ = 2 ^ (numerator.log2 : ℤ) := by
          rw [← zpow_add₀ two_ne_zero]
          congr 1
          ring
      _ ≤ numerator := hlow hn
  · rw [div_lt_iff₀ hcast]
    calc (numerator : ℚ) < 2 ^ ((numerator.log2 : ℤ) + 1) := hhigh numerator
      _ = 2 ^ ((numerator.log2 : ℤ) - denominator.log2 + 1) * 2 ^ (denominator.log2 : ℤ) := by
          rw [← zpow_add₀ two_ne_zero]
          congr 1
          ring
      _ ≤ 2 ^ ((numerator.log2 : ℤ) - denominator.log2 + 1) * denominator :=
          mul_le_mul_of_nonneg_left (hlow hd) (unit_pos _).le

theorem hasExponent_quotientExponent (hn : 0 < numerator) (hd : 0 < denominator) :
    HasExponent (numerator / denominator) (quotientExponent numerator denominator) := by
  obtain ⟨hlow, hhigh⟩ := quotient_bounds hn hd
  obtain ⟨guess, hguess⟩ : ∃ guess, guess = max ((numerator.log2 : ℤ) - denominator.log2 - 53) minExponent := ⟨_, rfl⟩
  have hleast : minExponent ≤ guess := hguess ▸ le_max_right _ _
  rw [quotientExponent, ← hguess]
  split
  · next hshort =>
    refine ⟨hleast, (scaledQuotient_lt_iff hd _ _).mp hshort, ?_⟩
    rcases max_choice ((numerator.log2 : ℤ) - denominator.log2 - 53) minExponent with hlong | hmin
    · refine .inl (le_trans (le_of_eq ?_) hlow)
      rw [scaled, hiddenBit_eq, ← zpow_add₀ two_ne_zero, hguess, hlong]
      congr 1
      ring
    · exact .inr (hguess.trans hmin)
  -- The guess is one too low, and no more than one.
  · next hlong =>
    have hlarge := not_lt.mp (mt (scaledQuotient_lt_iff hd guess (2 * hiddenBit)).mpr hlong)
    rw [← scaled_succ_exponent] at hlarge
    refine ⟨hleast.trans (Int.le_add_one (le_refl _)), hhigh.trans_le ?_, .inl hlarge⟩
    rw [scaled, Nat.cast_mul, hiddenBit_eq, Nat.cast_two, ← zpow_one_add₀ two_ne_zero, ← zpow_add₀ two_ne_zero]
    have hbound : (numerator.log2 : ℤ) - denominator.log2 - 53 ≤ guess := hguess ▸ le_max_left _ _
    exact zpow_le_zpow_right₀ one_le_two (by omega)

theorem rounded_roundQuotient (negative : Bool) (numerator : ℕ) (hd : 0 < denominator) :
    Rounded negative (numerator / denominator) (roundQuotient negative numerator denominator) := by
  unfold roundQuotient
  split
  · next hzero =>
    have hvalue : (numerator : ℚ) / denominator = scaled 0 minExponent := by simp [hzero, scaled]
    exact ⟨0, minExponent, hvalue ▸ canonical_zero.closest, rfl⟩
  · next hpositive =>
    have hclosest := (hasExponent_quotientExponent (Nat.pos_of_ne_zero hpositive) hd).closest
      (roundsTo_nearestEven hd _)
    dsimp only
    split at hclosest
    · next hcarry =>
      rw [if_pos hcarry, if_pos hcarry]
      exact ⟨_, _, hclosest, rfl⟩
    · next hshort =>
      rw [if_neg hshort, if_neg hshort]
      exact ⟨_, _, hclosest, rfl⟩

theorem rounded_roundScaled (negative : Bool) (significand : ℕ) {base : ℕ} (hbase : 0 < base) (exponent : ℤ) :
    Rounded negative (significand * (base : ℚ) ^ exponent) (roundScaled negative significand base exponent) := by
  unfold roundScaled
  split
  · next hneg =>
    have hvalue : (significand : ℚ) * (base : ℚ) ^ exponent =
        significand / (Nat.pow base (-exponent).toNat : ℕ) := by
      rw [cast_pow_toNat base (by omega), zpow_neg, div_inv_eq_mul]
    rw [hvalue]
    exact rounded_roundQuotient _ _ (Nat.pow_pos hbase)
  · next hpos =>
    have hvalue : (significand : ℚ) * (base : ℚ) ^ exponent =
        (significand * Nat.pow base exponent.toNat : ℕ) / (1 : ℕ) := by
      rw [Nat.cast_one, div_one, Nat.cast_mul, cast_pow_toNat base (by omega)]
    rw [hvalue]
    exact rounded_roundQuotient _ _ one_pos

end PhasedWorkload.Binary64
