import PhasedWorkload.Proofs.Binary64.Rounding
import PhasedWorkload.Proofs.Text.Words

/-! # Numerals and the doubles nearest to them

A numeral is a sign, digits with a point, and a power of ten; sign, point and power may be missing, and so may the
digits on one side of the point. It denotes an exact number, and it is read as the double nearest to that number, also
where the power is so small or so large that it is never formed.
-/
namespace PhasedWorkload.Binary64

/-! ## Numerals -/

inductive Sign where
  | none
  | plus
  | minus
deriving DecidableEq

namespace Sign

def chars : Sign → List Char
  | .none => []
  | .plus => ['+']
  | .minus => ['-']

def isMinus : Sign → Bool
  | .minus => true
  | _ => false

theorem isMinus_eq_false {sign : Sign} (h : sign ≠ .minus) : sign.isMinus = false := by
  cases sign with
  | minus => exact absurd rfl h
  | none => rfl
  | plus => rfl

end Sign

/-- The number that digits denote. -/
def numberOf (digits : List Char) : ℕ := Nat.ofDigitChars 10 digits 0

/-- A power of ten: its mark, an optional sign and some digits. -/
structure Power where
  mark : Char
  sign : Sign
  digits : List Char
  isMark : mark = 'e' ∨ mark = 'E'
  areDigits : digits.all Char.isDigit = true
  nonempty : digits ≠ []

namespace Power

def chars (p : Power) : List Char := p.mark :: (p.sign.chars ++ p.digits)

def exponent (p : Power) : ℤ := if p.sign.isMinus then -(numberOf p.digits : ℤ) else numberOf p.digits

end Power

structure Numeral where
  sign : Sign
  whole : List Char
  /-- The digits after the point, if there is one. -/
  fraction : Option (List Char)
  power : Option Power
  areDigits : (whole ++ fraction.getD []).all Char.isDigit = true
  nonempty : whole ++ fraction.getD [] ≠ []

namespace Numeral

variable (d : Numeral)

def fractionChars : List Char := d.fraction.elim [] ('.' :: ·)

def powerChars : List Char := d.power.elim [] Power.chars

def chars : List Char := d.sign.chars ++ (d.whole ++ (d.fractionChars ++ d.powerChars))

def exponent : ℤ := d.power.elim 0 Power.exponent

/-- The number without its sign. -/
def magnitude : ℚ :=
  (numberOf d.whole + numberOf (d.fraction.getD []) / 10 ^ (d.fraction.getD []).length) * 10 ^ d.exponent

def value : ℚ := if d.sign.isMinus then -d.magnitude else d.magnitude

/-- Digits alone. -/
structure IsPlain : Prop where
  sign : d.sign = .none
  fraction : d.fraction = none
  power : d.power = none

end Numeral

/-! ## Reading them -/

variable {digits rest : List Char}

theorem spanDigits_append (hdigits : ∀ c ∈ digits, c.isDigit = true) (hrest : ∀ c ∈ rest.head?, c.isDigit = false) :
    spanDigits (digits ++ rest) = (digits, rest) := by
  rw [spanDigits, Text.takeWhile_append_of_head? hdigits hrest, Text.dropWhile_append_of_head? hdigits hrest]

theorem spanSign_append (sign : Sign) (hrest : ∀ c ∈ rest.head?, c ≠ '-' ∧ c ≠ '+') :
    spanSign (sign.chars ++ rest) = (sign.isMinus, rest) := by
  cases sign with
  | plus => rfl
  | minus => rfl
  | none =>
    change spanSign rest = (false, rest)
    unfold spanSign
    split
    · exact absurd rfl (hrest '-' rfl).1
    · exact absurd rfl (hrest '+' rfl).2
    · rfl

theorem readPower?_chars (p : Power) : readPower? p.chars = some p.exponent := by
  have hsign : ∀ c ∈ p.digits.head?, c ≠ '-' ∧ c ≠ '+' := by
    intro c hc
    have hdigit := List.all_eq_true.mp p.areDigits c (List.mem_of_mem_head? hc)
    constructor <;> rintro rfl <;> exact absurd hdigit (by decide)
  rw [Power.chars, readPower?, if_pos p.isMark, spanSign_append p.sign hsign]
  dsimp only
  rw [Text.natOfDigits?_of_isDigit (List.all_eq_true.mp p.areDigits) p.nonempty]
  rfl

section Equations

variable {cs unsigned whole fraction tail : List Char} {negative : Bool}

theorem readDecimal?_of_point (hsign : spanSign cs = (negative, unsigned))
    (hwhole : spanDigits unsigned = (whole, '.' :: rest)) (hfraction : spanDigits rest = (fraction, tail)) :
    readDecimal? cs = if whole.isEmpty && fraction.isEmpty then none else (readPower? tail).map fun power =>
      ⟨negative, numberOf (whole ++ fraction), power - fraction.length⟩ := by
  simp only [readDecimal?, hsign, hwhole, hfraction]
  rfl

theorem readDecimal?_of_no_point (hsign : spanSign cs = (negative, unsigned))
    (hwhole : spanDigits unsigned = (whole, tail)) (htail : tail.head? ≠ some '.') :
    readDecimal? cs = if whole.isEmpty then none else (readPower? tail).map fun power =>
      ⟨negative, numberOf whole, power⟩ := by
  cases tail with
  | nil => simp [readDecimal?, hsign, hwhole, numberOf]
  | cons c tail =>
    have hpoint : c ≠ '.' := fun heq => htail (heq ▸ rfl)
    simp [readDecimal?, hsign, hwhole, hpoint, numberOf]

end Equations

namespace Numeral

variable {d : Numeral}

theorem isDigit_of_mem_whole {c : Char} (h : c ∈ d.whole) : c.isDigit = true :=
  List.all_eq_true.mp d.areDigits c (List.mem_append_left _ h)

theorem isDigit_of_mem_fraction {c : Char} (h : c ∈ d.fraction.getD []) : c.isDigit = true :=
  List.all_eq_true.mp d.areDigits c (List.mem_append_right _ h)

theorem isMark_of_head?_powerChars : ∀ c ∈ d.powerChars.head?, c = 'e' ∨ c = 'E' := by
  unfold powerChars
  cases d.power with
  | none => exact fun _ hc => nomatch hc
  | some p =>
    intro c hc
    exact Option.some.inj hc ▸ p.isMark

theorem not_isDigit_of_head?_powerChars : ∀ c ∈ d.powerChars.head?, c.isDigit = false := by
  intro c hc
  rcases isMark_of_head?_powerChars c hc with rfl | rfl <;> decide

theorem not_isDigit_of_head?_rest : ∀ c ∈ (d.fractionChars ++ d.powerChars).head?, c.isDigit = false := by
  unfold fractionChars
  cases d.fraction with
  | none => exact not_isDigit_of_head?_powerChars
  | some fraction =>
    intro c hc
    obtain rfl := Option.some.inj hc
    decide

/-- What follows the sign begins with a digit or the point. -/
theorem unsigned_of_head? : ∀ c ∈ (d.whole ++ (d.fractionChars ++ d.powerChars)).head?, c ≠ '-' ∧ c ≠ '+' := by
  intro c hc
  have hdigit : c.isDigit = true ∨ c = '.' := by
    cases hwhole : d.whole with
    | cons first more =>
      rw [hwhole] at hc
      obtain rfl := Option.some.inj hc
      exact .inl (isDigit_of_mem_whole (hwhole ▸ List.mem_cons_self))
    | nil =>
      cases hfraction : d.fraction with
      | none => exact absurd (by rw [hwhole, hfraction]; rfl) d.nonempty
      | some fraction =>
        rw [hwhole, fractionChars, hfraction] at hc
        exact .inr (Option.some.inj hc).symm
  rcases hdigit with hdigit | rfl
  · constructor <;> rintro rfl <;> exact absurd hdigit (by decide)
  · decide

theorem readPower?_powerChars : readPower? d.powerChars = some d.exponent := by
  unfold powerChars exponent
  cases d.power with
  | none => rfl
  | some p => exact readPower?_chars p

/-- What is read of a numeral: its digits as a whole number, and how far the point is away from their end. -/
def read (d : Numeral) : DecimalText where
  negative := d.sign.isMinus
  digits := numberOf (d.whole ++ d.fraction.getD [])
  exponent := d.exponent - (d.fraction.getD []).length

theorem readDecimal?_chars (d : Numeral) : readDecimal? d.chars = some d.read := by
  have hsign := spanSign_append d.sign (unsigned_of_head? (d := d))
  have hwhole := spanDigits_append (fun c hc => isDigit_of_mem_whole (d := d) hc) (not_isDigit_of_head?_rest (d := d))
  have hsome : (d.whole.isEmpty && (d.fraction.getD []).isEmpty) = false := by
    have hnonempty := d.nonempty
    rw [Ne, List.append_eq_nil_iff] at hnonempty
    simpa using hnonempty
  cases hfraction : d.fraction with
  | none =>
    have hrest : d.fractionChars ++ d.powerChars = d.powerChars := by rw [fractionChars, hfraction]; rfl
    have hnopoint : d.powerChars.head? ≠ some '.' := fun hpoint =>
      absurd (isMark_of_head?_powerChars '.' hpoint) (by decide)
    rw [hrest] at hsign hwhole
    rw [hfraction, Option.getD_none, List.isEmpty_nil, Bool.and_true] at hsome
    rw [chars, hrest, readDecimal?_of_no_point hsign hwhole hnopoint, hsome, readPower?_powerChars, read, hfraction]
    simp [numberOf]
  | some fraction =>
    have hrest : d.fractionChars ++ d.powerChars = '.' :: (fraction ++ d.powerChars) := by
      rw [fractionChars, hfraction]; rfl
    have hdigits : ∀ c ∈ fraction, c.isDigit = true := fun c hc =>
      isDigit_of_mem_fraction (d := d) (by rwa [hfraction])
    have hspan := spanDigits_append hdigits (not_isDigit_of_head?_powerChars (d := d))
    rw [hrest] at hsign hwhole
    rw [hfraction, Option.getD_some] at hsome
    rw [chars, hrest, readDecimal?_of_point hsign hwhole hspan, hsome, readPower?_powerChars, read, hfraction]
    rfl

theorem chars_ne_nil : d.chars ≠ [] := by
  intro hnil
  have hnone : readDecimal? [] = none := by decide
  have hread := d.readDecimal?_chars
  rw [hnil, hnone] at hread
  cases hread

theorem head?_chars (h : d.sign ≠ .minus) : d.chars.head? ≠ some '-' := by
  intro hhead
  rw [chars] at hhead
  cases hsign : d.sign with
  | none =>
    rw [hsign] at hhead
    exact (unsigned_of_head? '-' hhead).1 rfl
  | plus =>
    rw [hsign] at hhead
    exact absurd (Option.some.inj hhead) (by decide)
  | minus => exact h hsign

theorem mem_chars (hpower : d.power = none) {c : Char} (hc : c ∈ d.chars) :
    c.isDigit = true ∨ c = '+' ∨ c = '-' ∨ c = '.' := by
  rw [chars, powerChars, hpower, Option.elim_none, List.append_nil] at hc
  rcases List.mem_append.mp hc with hc | hrest
  · cases hsign : d.sign with
    | none =>
      rw [hsign] at hc
      exact absurd hc List.not_mem_nil
    | plus =>
      rw [hsign] at hc
      exact .inr (.inl (List.mem_singleton.mp hc))
    | minus =>
      rw [hsign] at hc
      exact .inr (.inr (.inl (List.mem_singleton.mp hc)))
  · rcases List.mem_append.mp hrest with hwhole | hc
    · exact .inl (isDigit_of_mem_whole hwhole)
    · rw [fractionChars] at hc
      cases hfraction : d.fraction with
      | none =>
        rw [hfraction] at hc
        exact absurd hc List.not_mem_nil
      | some fraction =>
        rw [hfraction] at hc
        rcases List.mem_cons.mp hc with hpoint | hdigit
        · exact .inr (.inr (.inr hpoint))
        · exact .inl (isDigit_of_mem_fraction (d := d) (by rwa [hfraction]))

theorem IsPlain.natOfDigits?_chars (h : d.IsPlain) : Text.natOfDigits? d.chars = some (numberOf d.whole) := by
  have hchars : d.chars = d.whole := by
    simp [chars, fractionChars, powerChars, h.sign, h.fraction, h.power, Sign.chars]
  rw [hchars]
  exact Text.natOfDigits?_of_isDigit (fun c hc => isDigit_of_mem_whole hc) (hchars ▸ chars_ne_nil)

theorem IsPlain.value_eq (h : d.IsPlain) : d.value = numberOf d.whole := by
  simp [value, magnitude, exponent, h.sign, h.fraction, h.power, Sign.isMinus, numberOf]

theorem magnitude_eq (d : Numeral) : d.magnitude = d.read.digits * 10 ^ d.read.exponent := by
  have hdigits : d.read.digits =
      10 ^ (d.fraction.getD []).length * numberOf d.whole + numberOf (d.fraction.getD []) := by
    rw [read, numberOf, Nat.ofDigitChars_append, Nat.ofDigitChars_eq_ofDigitChars_zero]
    rfl
  have hten : (10 : ℚ) ^ (d.fraction.getD []).length ≠ 0 := pow_ne_zero _ (by norm_num)
  rw [hdigits, read, zpow_sub₀ (by norm_num), zpow_natCast, magnitude, Nat.cast_add, Nat.cast_mul, Nat.cast_pow,
    Nat.cast_ofNat]
  field_simp

end Numeral

/-! ## The nearest double -/

variable {q : ℚ}

/-- Less than half of the least positive double is rounded to zero. -/
theorem closest_zero (hnonneg : 0 ≤ q) (hsmall : 2 * q < scaled 1 minExponent) : Closest q 0 minExponent := by
  have hzero : scaled 0 minExponent = 0 := by simp [scaled]
  have hfarther : ∀ m e, Canonical m e → scaled m e ≠ 0 → q < |q - scaled m e| := by
    intro m e h hne
    have hpositive : 1 ≤ m := Nat.one_le_iff_ne_zero.mpr fun hm => hne (by simp [hm, scaled])
    have hlarge : scaled 1 minExponent ≤ scaled m e :=
      (scaled_le_of_exponent_le 1 h.least).trans (scaled_le_scaled hpositive)
    rw [abs_sub_comm]
    exact lt_of_lt_of_le (by linarith) (le_abs_self _)
  have hself : |q - scaled 0 minExponent| = q := by rw [hzero, sub_zero, abs_of_nonneg hnonneg]
  refine ⟨canonical_zero, fun m e h => ?_, fun m e h _ _ => Even.zero⟩
  rw [hself]
  by_cases hne : scaled m e = 0
  · rw [hne, sub_zero]
    exact le_abs_self q
  · exact (hfarther m e h hne).le

/-- A number past the largest finite doubles. -/
theorem Closest.exponent_of_large {m : ℕ} {e : ℤ} (h : Closest q m e)
    (hlarge : scaled hiddenBit (maxExponent + 1) ≤ q) : maxExponent < e := by
  have hbound : Canonical hiddenBit (maxExponent + 1) := ⟨by decide, by decide, .inl (le_refl _)⟩
  by_contra hsmall
  exact absurd (h.le_scaled hbound hlarge) (h.canonical.lt_of_exponent_lt hbound (by omega)).not_ge

theorem lt_pow_length (n : ℕ) : n < 10 ^ (Nat.toDigits 10 n).length :=
  (Nat.length_toDigits_le_iff (by decide) Nat.length_toDigits_pos).mp (le_refl _)

theorem pow_length_le {n : ℕ} (h : n ≠ 0) : 10 ^ ((Nat.toDigits 10 n).length - 1) ≤ n := by
  by_contra hlt
  rcases Nat.eq_zero_or_pos ((Nat.toDigits 10 n).length - 1) with hzero | hpos
  · rw [hzero] at hlt
    omega
  · have hshort := (Nat.length_toDigits_le_iff (b := 10) (by decide) hpos).mpr (not_le.mp hlt)
    have hsome : 0 < (Nat.toDigits 10 n).length := Nat.length_toDigits_pos
    omega

section CutOffs

variable {n : ℕ} {exponent : ℤ}

theorem ten_zpow_pos (exponent : ℤ) : (0 : ℚ) < 10 ^ exponent := zpow_pos (by norm_num) exponent

theorem two_pow_le_ten_pow (n : ℕ) : (2 : ℚ) ^ (3 * n) ≤ 10 ^ n := by
  rw [pow_mul]
  exact pow_le_pow_left₀ (by norm_num) (by norm_num) n

theorem small_of_leading (h : exponent + (Nat.toDigits 10 n).length < -1000) :
    2 * ((n : ℚ) * 10 ^ exponent) < scaled 1 minExponent := by
  have hlength : (n : ℚ) < 10 ^ ((Nat.toDigits 10 n).length : ℤ) := by
    rw [zpow_natCast]
    exact_mod_cast lt_pow_length n
  calc 2 * ((n : ℚ) * 10 ^ exponent) < 2 * (10 ^ ((Nat.toDigits 10 n).length : ℤ) * 10 ^ exponent) := by
        have hten := ten_zpow_pos exponent
        gcongr
    _ = 2 * 10 ^ (exponent + (Nat.toDigits 10 n).length) := by rw [← zpow_add₀ (by norm_num), add_comm]
    _ ≤ 2 * 10 ^ (-1000 : ℤ) := by
        have hpower := zpow_le_zpow_right₀ (show (1 : ℚ) ≤ 10 by norm_num) h.le
        gcongr
    _ ≤ 2 * 2 ^ (-3000 : ℤ) := by
        have hpower := inv_anti₀ (by positivity) (two_pow_le_ten_pow 1000)
        exact mul_le_mul_of_nonneg_left hpower two_pos.le
    _ = 2 ^ (1 + -3000 : ℤ) := (zpow_one_add₀ two_ne_zero _).symm
    _ ≤ 2 ^ minExponent := zpow_le_zpow_right₀ one_le_two (by decide)
    _ = scaled 1 minExponent := by rw [scaled, Nat.cast_one, one_mul]

theorem large_of_leading (hn : n ≠ 0) (h : 1000 < exponent + (Nat.toDigits 10 n).length) :
    scaled hiddenBit (maxExponent + 1) ≤ (n : ℚ) * 10 ^ exponent := by
  have hsome : 0 < (Nat.toDigits 10 n).length := Nat.length_toDigits_pos
  have hlength : (10 : ℚ) ^ (((Nat.toDigits 10 n).length - 1 : ℕ) : ℤ) ≤ n := by
    rw [zpow_natCast]
    exact_mod_cast pow_length_le hn
  calc scaled hiddenBit (maxExponent + 1) = 2 ^ (52 + (maxExponent + 1)) := by
        rw [scaled, hiddenBit_eq, ← zpow_add₀ two_ne_zero]
    _ ≤ 2 ^ (3000 : ℤ) := zpow_le_zpow_right₀ one_le_two (by decide)
    _ ≤ 10 ^ (1000 : ℤ) := two_pow_le_ten_pow 1000
    _ ≤ 10 ^ ((((Nat.toDigits 10 n).length - 1 : ℕ) : ℤ) + exponent) :=
        zpow_le_zpow_right₀ (by norm_num) (by omega)
    _ = 10 ^ (((Nat.toDigits 10 n).length - 1 : ℕ) : ℤ) * 10 ^ exponent := zpow_add₀ (by norm_num) _ _
    _ ≤ n * 10 ^ exponent := mul_le_mul_of_nonneg_right hlength (ten_zpow_pos exponent).le

end CutOffs

theorem rounded_toBinary64 (d : DecimalText) : Rounded d.negative (d.digits * 10 ^ d.exponent) d.toBinary64 := by
  have hrounded := rounded_roundScaled d.negative d.digits (show 0 < 10 by decide) d.exponent
  unfold DecimalText.toBinary64
  dsimp only
  split
  · next htiny =>
    refine ⟨0, minExponent, closest_zero (mul_nonneg (Nat.cast_nonneg _) (ten_zpow_pos _).le) ?_, rfl⟩
    rcases htiny with hzero | hlow
    · simp [hzero, scaled, unit_pos]
    · exact small_of_leading hlow
  · next hpositive =>
    split
    -- If the power were formed, the exponent would be too large for the format.
    · next hhuge =>
      obtain ⟨m, e, hclosest, _⟩ := hrounded
      rw [Nat.cast_ofNat] at hclosest
      have hlarge := hclosest.exponent_of_large (large_of_leading (fun hzero => hpositive (.inl hzero)) hhuge)
      exact ⟨m, e, hclosest, (if_pos hlarge).symm⟩
    · rwa [Nat.cast_ofNat] at hrounded

/-- A numeral is read as the double nearest to the number it denotes. -/
theorem Numeral.rounded_read (d : Numeral) : Rounded d.sign.isMinus d.magnitude d.read.toBinary64 :=
  d.magnitude_eq ▸ rounded_toBinary64 d.read

end PhasedWorkload.Binary64
