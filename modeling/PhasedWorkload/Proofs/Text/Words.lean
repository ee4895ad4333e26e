import Mathlib.Data.List.TakeWhile
import PhasedWorkload.Text.Blank
import PhasedWorkload.Text.DecimalDigit

/-! # Digits, letters and blanks

What every reader of numbers has to know about the decimal digits of a number: they are digits of ASCII, they denote
the number, and none is needed in front. No character is two of a digit, a letter and a blank, so the parts of a text
are found by their classes.
-/
namespace PhasedWorkload.Text

variable {n : ℕ} {c : Char}

theorem isDigit_of_mem_toDigits (h : c ∈ Nat.toDigits 10 n) : c.isDigit = true :=
  Nat.isDigit_of_mem_toDigits (by decide) (by decide) h

theorem toList_toString (n : ℕ) : (toString n).toList = Nat.toDigits 10 n := by
  rw [Nat.toString_eq_ofList_toDigits, String.toList_ofList]

theorem toList_toString_negSucc (n : ℕ) : (toString (Int.negSucc n)).toList = '-' :: Nat.toDigits 10 (n + 1) := by
  have htext : toString (Int.negSucc n) = "-" ++ toString (n + 1) := rfl
  rw [htext, String.toList_append, toList_toString]
  rfl

theorem le_ofDigitChars (digits : List Char) (start : ℕ) : start ≤ Nat.ofDigitChars 10 digits start := by
  induction digits generalizing start with
  | nil => exact Nat.le_refl _
  | cons c digits ih =>
    rw [Nat.ofDigitChars_cons]
    exact le_trans (by omega) (ih _)

theorem natOfDigits?_of_isDigit {digits : List Char} (hdigits : ∀ c ∈ digits, c.isDigit = true) (hsome : digits ≠ []) :
    natOfDigits? digits = some (Nat.ofDigitChars 10 digits 0) := by
  rw [natOfDigits?, List.isEmpty_eq_false_iff.mpr hsome, List.all_eq_true.mpr hdigits]
  rfl

theorem natOfDigits?_eq_none {digits : List Char} (hmem : c ∈ digits) (hdigit : c.isDigit = false) :
    natOfDigits? digits = none := by
  have hall : digits.all Char.isDigit = false := List.all_eq_false.mpr ⟨c, hmem, ne_true_of_eq_false hdigit⟩
  rw [natOfDigits?, hall, Bool.and_false]
  rfl

theorem natOfDigits?_toDigits (n : ℕ) : natOfDigits? (Nat.toDigits 10 n) = some n := by
  rw [natOfDigits?_of_isDigit (fun c hc => isDigit_of_mem_toDigits hc) Nat.toDigits_ne_nil,
    Nat.ofDigitChars_ten_toDigits]

theorem digitChar_eq_zero : ∀ n < 10, n.digitChar = '0' → n = 0 := by decide

/-- Only the digits of zero begin with a zero. -/
theorem eq_zero_of_head?_toDigits (h : (Nat.toDigits 10 n).head? = some '0') : n = 0 := by
  induction n using Nat.strongRecOn with
  | ind n ih =>
    rw [Nat.toDigits_eq_if (by decide)] at h
    split at h
    · next hlt => exact digitChar_eq_zero n hlt (Option.some.inj h)
    · next hge =>
      rw [List.head?_append, List.head?_eq_some_head Nat.toDigits_ne_nil, Option.some_or,
        ← List.head?_eq_some_head] at h
      have hzero := ih (n / 10) (by omega) h
      omega

/-! ## Parts of a text -/

section Parts

variable {p : Char → Bool} {part rest : List Char}

theorem takeWhile_append_of_head? (hpart : ∀ c ∈ part, p c = true) (hrest : ∀ c ∈ rest.head?, p c = false) :
    (part ++ rest).takeWhile p = part := by
  have hstop : rest.takeWhile p = [] := by
    cases rest with
    | nil => rfl
    | cons c rest => exact List.takeWhile_cons_of_neg (by simp [hrest c rfl])
  rw [List.takeWhile_append_of_pos hpart, hstop, List.append_nil]

theorem dropWhile_append_of_head? (hpart : ∀ c ∈ part, p c = true) (hrest : ∀ c ∈ rest.head?, p c = false) :
    (part ++ rest).dropWhile p = rest := by
  rw [List.dropWhile_append_of_pos hpart]
  cases rest with
  | nil => rfl
  | cons c rest => exact List.dropWhile_cons_of_neg (by simp [hrest c rfl])

end Parts

/-! ## Classes of characters -/

theorem toNat_of_isDigit (h : c.isDigit = true) : 48 ≤ c.toNat ∧ c.toNat ≤ 57 := by
  simp only [Char.isDigit, Bool.and_eq_true, decide_eq_true_eq] at h
  exact h

theorem isBlank_iff : isBlank c = true ↔ ∃ r ∈ blankRanges, r.1 ≤ c.toNat ∧ c.toNat ≤ r.2 := by
  simp [isBlank, inRanges]

theorem isDecimalDigit_iff : isDecimalDigit c = true ↔
    ∃ first ∈ decimalZeros, first ≤ c.toNat ∧ c.toNat ≤ first + 9 := by
  simp [isDecimalDigit]

theorem toNat_of_isAlpha (h : c.isAlpha = true) : 65 ≤ c.toNat ∧ c.toNat ≤ 122 := by
  have hcase : c.isUpper = true ∨ c.isLower = true := (Bool.or_eq_true _ _).mp h
  rcases hcase with hupper | hlower
  · obtain ⟨hlow, hhigh⟩ : 65 ≤ c.toNat ∧ c.toNat ≤ 90 := of_decide_eq_true hupper
    exact ⟨hlow, hhigh.trans (by decide)⟩
  · obtain ⟨hlow, hhigh⟩ := (Bool.and_eq_true _ _).mp hlower
    have hfirst : 97 ≤ c.toNat := of_decide_eq_true hlow
    exact ⟨le_trans (by decide) hfirst, of_decide_eq_true hhigh⟩

theorem decimalZeros_unblank : ∀ first ∈ decimalZeros, ∀ r ∈ blankRanges, r.2 < first ∨ first + 9 < r.1 := by decide

theorem decimalZeros_unlettered : ∀ first ∈ decimalZeros, first + 9 < 65 ∨ 122 < first := by decide

theorem blankRanges_unlettered : ∀ r ∈ blankRanges, r.2 < 65 ∨ 122 < r.1 := by decide

theorem isBlank_of_isDecimalDigit (h : isDecimalDigit c = true) : isBlank c = false := by
  obtain ⟨first, hzero, hlow, hhigh⟩ := isDecimalDigit_iff.mp h
  refine eq_false_of_ne_true fun hblank => ?_
  obtain ⟨r, hr, hfirst, hlast⟩ := isBlank_iff.mp hblank
  have hapart := decimalZeros_unblank first hzero r hr
  omega

theorem isBlank_of_isAlpha (h : c.isAlpha = true) : isBlank c = false := by
  obtain ⟨hlow, hhigh⟩ := toNat_of_isAlpha h
  refine eq_false_of_ne_true fun hblank => ?_
  obtain ⟨r, hr, hfirst, hlast⟩ := isBlank_iff.mp hblank
  have hapart := blankRanges_unlettered r hr
  omega

theorem isDecimalDigit_of_isAlpha (h : c.isAlpha = true) : isDecimalDigit c = false := by
  obtain ⟨hlow, hhigh⟩ := toNat_of_isAlpha h
  refine eq_false_of_ne_true fun hdigit => ?_
  obtain ⟨first, hzero, hfrom, hto⟩ := isDecimalDigit_iff.mp hdigit
  have hapart := decimalZeros_unlettered first hzero
  omega

theorem isDecimalDigit_of_isDigit (h : c.isDigit = true) : isDecimalDigit c = true := by
  obtain ⟨hlow, hhigh⟩ := toNat_of_isDigit h
  refine List.any_eq_true.mpr ⟨0x30, List.mem_cons_self, ?_⟩
  simp only [Bool.and_eq_true, decide_eq_true_eq]
  omega

theorem isBlank_of_isDigit (h : c.isDigit = true) : isBlank c = false :=
  isBlank_of_isDecimalDigit (isDecimalDigit_of_isDigit h)

/-! ## Texts without blanks at their ends -/

variable {cs more : List Char}

theorem dropBlanks_eq_self (h : ∀ c ∈ cs.head?, isBlank c = false) : dropBlanks cs = cs := by
  cases cs with
  | nil => rfl
  | cons c cs => exact dropBlanks_cons_of_not_blank cs (h c rfl)

theorem trim_eq_self (hhead : ∀ c ∈ cs.head?, isBlank c = false) (hlast : ∀ c ∈ cs.getLast?, isBlank c = false) :
    trim cs = cs := by
  rw [trim, dropBlanks_eq_self hhead, dropBlanks_eq_self (by rwa [List.head?_reverse]), List.reverse_reverse]

theorem head?_toDigits_append (n : ℕ) (more : List Char) :
    ∀ c ∈ (Nat.toDigits 10 n ++ more).head?, c.isDigit = true := by
  intro c hc
  obtain ⟨d, digits, hdigits⟩ := List.exists_cons_of_ne_nil (Nat.toDigits_ne_nil (b := 10) (n := n))
  rw [hdigits] at hc
  obtain rfl := Option.some.inj hc
  exact isDigit_of_mem_toDigits (hdigits ▸ List.mem_cons_self)

end PhasedWorkload.Text
