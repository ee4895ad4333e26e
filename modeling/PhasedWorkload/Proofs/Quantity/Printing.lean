import Mathlib.Tactic.SplitIfs
import PhasedWorkload.Proofs.Quantity.Spelling
import PhasedWorkload.Quantity.Rate

/-! # Quantities printed and read again

A span of time is printed as a count and a unit that divides it, and a rate as a count, the word `per` and a span;
both are read as they were, so the printed text is the normal form of all texts for one value. A count is printed as a
number, which is read as a double if it does not fit 63 bits.
-/
namespace PhasedWorkload

open Text (isBlank dropBlanks)

/-! ## Spans of time -/

namespace TimeSpan

variable {count : ℕ} {unit : List Char}

/-- A word of letters that stands for a unit. -/
structure IsUnit (unit : List Char) (scale : ℕ) : Prop where
  letters : unit.all Char.isAlpha = true
  nonempty : unit ≠ []
  unblank : unit.any isBlank = false
  known : unitNanos? (unit.map Char.toLower) = some scale
  positive : 0 < scale

theorem IsUnit.isBlank_of_mem {scale : ℕ} {c : Char} (h : IsUnit unit scale) (hc : c ∈ unit) : isBlank c = false :=
  eq_false_of_ne_true (List.any_eq_false.mp h.unblank c hc)

/-- The name of a unit and its plural. -/
def NamesUnit (name : String) (scale : ℕ) : Prop := IsUnit name.toList scale ∧ IsUnit (name ++ "s").toList scale

theorem namesUnit_nanosecond : NamesUnit "nanosecond" 1 :=
  ⟨⟨by decide, by decide, by decide, by decide, by decide⟩, ⟨by decide, by decide, by decide, by decide, by decide⟩⟩

theorem namesUnit_microsecond : NamesUnit "microsecond" nanosPerMicrosecond :=
  ⟨⟨by decide, by decide, by decide, by decide, by decide⟩, ⟨by decide, by decide, by decide, by decide, by decide⟩⟩

theorem namesUnit_millisecond : NamesUnit "millisecond" nanosPerMillisecond :=
  ⟨⟨by decide, by decide, by decide, by decide, by decide⟩, ⟨by decide, by decide, by decide, by decide, by decide⟩⟩

theorem namesUnit_second : NamesUnit "second" nanosPerSecond :=
  ⟨⟨by decide, by decide, by decide, by decide, by decide⟩, ⟨by decide, by decide, by decide, by decide, by decide⟩⟩

theorem namesUnit_printedUnit (t : TimeSpan) :
    ∃ scale, t.printedUnit.1 * scale = t.nanos ∧ NamesUnit t.printedUnit.2 scale := by
  unfold printedUnit
  split_ifs with hzero hsecond hmilli hmicro
  · exact ⟨1, hzero.symm, namesUnit_nanosecond⟩
  · exact ⟨_, Nat.div_mul_cancel (Nat.dvd_of_mod_eq_zero hsecond), namesUnit_second⟩
  · exact ⟨_, Nat.div_mul_cancel (Nat.dvd_of_mod_eq_zero hmilli), namesUnit_millisecond⟩
  · exact ⟨_, Nat.div_mul_cancel (Nat.dvd_of_mod_eq_zero hmicro), namesUnit_microsecond⟩
  · exact ⟨1, Nat.mul_one _, namesUnit_nanosecond⟩

/-- A span is printed as a count, a blank and a word for the unit. -/
theorem exists_word (t : TimeSpan) : ∃ count word scale, t.render.toList = Nat.toDigits 10 count ++ ' ' :: word ∧
    IsUnit word scale ∧ count * scale = t.nanos := by
  obtain ⟨scale, hnanos, hone, hmany⟩ := t.namesUnit_printedUnit
  refine ⟨t.printedUnit.1, (t.printedUnit.2 ++ if t.printedUnit.1 = 1 then "" else "s").toList, scale, ?_, ?_, hnanos⟩
  · simp [render]
  · split
    · rwa [String.append_empty]
    · exact hmany

theorem parse_render {t : TimeSpan} (h : t.nanos < wordBound) : parse t.render = .ok t := by
  obtain ⟨count, word, scale, htext, hunit, hnanos⟩ := t.exists_word
  have hblank : ∀ c ∈ [' '], isBlank c = true := List.forall_mem_singleton.mpr (by decide)
  let p : Spelling := .printed false count [' '] word hblank (List.all_eq_true.mp hunit.letters)
  have hchars : p.chars = t.render.toList := by
    rw [htext, Spelling.chars]
    simp [p, Spelling.printed, Spelling.sign]
  have hcount : count < wordBound := (Nat.le_mul_of_pos_right count hunit.positive).trans_lt (hnanos ▸ h)
  have hmeans : p.Means ⟨count * scale⟩ := .intro rfl (Spelling.denotes_of_digits rfl) hcount
    (Spelling.unitNanos?_unit.mp hunit.known) (hnanos ▸ h)
  rw [parse, ← hchars, hmeans.ofChars?, hnanos]
  rfl

theorem lt_wordBound_of_parse {s : String} {t : TimeSpan} (h : parse s = .ok t) : t.nanos < wordBound := by
  obtain ⟨p, _, _, _, _, _, fits⟩ := ofChars?_eq_ok_iff.mp (ok_of_mapError h)
  exact fits

end TimeSpan

/-! ## Counts -/

namespace Count

theorem ofChars?_toDigits {n : ℕ} (h : n < wordBound) : ofChars? (Nat.toDigits 10 n) = .ok ⟨n⟩ := by
  have hdigits : ∀ c ∈ Nat.toDigits 10 n, c.isDigit = true := fun c hc => Text.isDigit_of_mem_toDigits hc
  have htrim : Text.trim (Nat.toDigits 10 n) = Nat.toDigits 10 n :=
    Text.trim_eq_self (fun c hc => Text.isBlank_of_isDigit (hdigits c (List.mem_of_mem_head? hc)))
      fun c hc => Text.isBlank_of_isDigit (hdigits c (List.mem_of_mem_getLast? hc))
  have hclean : (Nat.toDigits 10 n).filter (· ≠ '_') = Nat.toDigits 10 n := by
    refine List.filter_eq_self.mpr fun c hc => decide_eq_true ?_
    rintro rfl
    exact absurd (hdigits '_' hc) (by decide)
  have hsign : (Nat.toDigits 10 n).head? ≠ some '-' := fun hminus =>
    absurd (hdigits '-' (List.mem_of_mem_head? hminus)) (by decide)
  have hsome : (Nat.toDigits 10 n).isEmpty = false := List.isEmpty_eq_false_iff.mpr Nat.toDigits_ne_nil
  unfold ofChars?
  simp only [htrim, hclean, hsome, if_neg hsign, Text.natOfDigits?_toDigits, if_pos h]
  rfl

/-- A count that fits 63 bits, or that is kept when it becomes a double: as a multiple of 2048, or as the largest. -/
def IsPortable (n : Count) : Prop :=
  (n.value : ℤ) ≤ maxSigned ∨ 2048 ∣ n.value ∧ n.value < wordBound ∨ n.value = wordBound - 1

instance (n : Count) : Decidable n.IsPortable := inferInstanceAs (Decidable (_ ∨ _ ∧ _ ∨ _))

theorem IsPortable.lt_wordBound {n : Count} (h : n.IsPortable) : n.value < wordBound := by
  unfold IsPortable maxSigned wordBound at h
  unfold wordBound
  omega

/-- Doubles of 64 bits have the exponent 11. -/
theorem quotientExponent_long {n : ℕ} (low : 9223372036854775808 ≤ n) (high : n < wordBound) :
    Binary64.quotientExponent n 1 = 11 := by
  have hlog : n.log2 = 63 := (Nat.log2_eq_iff (by omega)).mpr ⟨low, high⟩
  have hone : Nat.log2 1 = 0 := by decide
  have hguess : max ((63 : ℕ) - (0 : ℕ) - 53 : ℤ) Binary64.minExponent = 10 := by decide
  have hlong : ¬(Binary64.scaledQuotient n 1 10).1 < 2 * Binary64.hiddenBit := by
    change ¬n / (1 * 1024) < 9007199254740992
    omega
  rw [Binary64.quotientExponent, hlog, hone, hguess, if_neg hlong]
  rfl

theorem ofInt_long {n : ℕ} (low : 9223372036854775808 ≤ n) (high : n < wordBound) (hdvd : 2048 ∣ n) :
    Binary64.ofInt n = .finite false (n / 2048) 11 := by
  have hpositive : n ≠ 0 := by omega
  have hquotient : Binary64.scaledQuotient n 1 11 = (n / 2048, .lt) := by
    change (n / 2048, compare (2 * (n % 2048)) 2048) = _
    rw [Nat.mod_eq_zero_of_dvd hdvd]
    rfl
  have hshort : n / 2048 ≠ 2 * Binary64.hiddenBit := by
    change n / 2048 ≠ 9007199254740992
    unfold wordBound at high
    omega
  have hsign : decide ((n : ℤ) < 0) = false := decide_eq_false (by omega)
  rw [Binary64.ofInt, hsign, Int.natAbs_natCast, Binary64.roundQuotient, if_neg hpositive]
  simp only [quotientExponent_long low high, hquotient, Binary64.nearestEven, hshort, if_false]
  rw [if_neg (by decide)]

theorem ofBinary64?_long {n : ℕ} (low : 9223372036854775808 ≤ n) (high : n < wordBound) (hdvd : 2048 ∣ n) :
    ofBinary64? (Binary64.ofInt n) = .ok ⟨n⟩ := by
  have hwhole : Binary64.wholePart? (.finite false (n / 2048) 11) = some n := by
    change some (n / 2048 * 2048) = some n
    rw [Nat.div_mul_cancel hdvd]
  have hleast : min n (wordBound - 1) = n := by omega
  have hsign : ¬(!Binary64.isFinite (.finite false (n / 2048) 11) ||
      Binary64.isNegative (.finite false (n / 2048) 11)) = true := Bool.false_ne_true
  rw [ofInt_long low high hdvd, ofBinary64?, if_neg hsign, hwhole]
  simp only [hleast, if_neg (Nat.lt_asymm high)]

theorem ofBinary64?_largest : ofBinary64? (Binary64.ofInt (wordBound - 1 : ℕ)) = .ok ⟨wordBound - 1⟩ := by
  decide +kernel

theorem ofScalar_int {n : Count} : ofScalar (.int n.value) = .ok n := by
  rw [ofScalar, if_neg (by omega)]
  rfl

theorem IsPortable.ofBinary64? {n : Count} (h : n.IsPortable) (hlong : ¬(n.value : ℤ) ≤ maxSigned) :
    ofBinary64? (Binary64.ofInt n.value) = .ok n := by
  have low : 9223372036854775808 ≤ n.value := by
    unfold maxSigned at hlong
    omega
  rcases h with hshort | ⟨hdvd, high⟩ | hlargest
  · exact absurd hshort hlong
  · exact ofBinary64?_long low high hdvd
  · obtain ⟨value⟩ := n
    obtain rfl : value = wordBound - 1 := hlargest
    exact ofBinary64?_largest

theorem lt_wordBound_of_ofBinary64? {x : Binary64} {n : Count} (h : Count.ofBinary64? x = .ok n) :
    n.value < wordBound := by
  unfold Count.ofBinary64? at h
  split at h
  · cases h
  · split at h
    · cases h
    · split at h
      · cases h
      · next whole hwhole =>
        cases h
        exact (Nat.min_le_right _ _).trans_lt (by decide)

theorem lt_wordBound_of_parse {s : String} {n : Count} (h : parse s = .ok n) : n.value < wordBound := by
  have hchars : ofChars? s.toList = .ok n := ok_of_mapError h
  unfold ofChars? at hchars
  dsimp only at hchars
  split at hchars
  · cases hchars
  · split at hchars
    · cases hchars
    · split at hchars
      · split at hchars
        · next hlt =>
          cases hchars
          exact hlt
        · cases hchars
      · split at hchars
        · split at hchars
          · exact lt_wordBound_of_ofBinary64? hchars
          · cases hchars
        · cases hchars

end Count

/-! ## Rates -/

namespace Rate

variable {duration : List Char}

/-- What may stand at the end of a rate: it has no blanks at its ends, and no line feed. -/
structure IsDuration (duration : List Char) : Prop where
  head : ∀ c ∈ duration.head?, isBlank c = false
  last : ∀ c ∈ duration.getLast?, isBlank c = false
  nonempty : duration ≠ []
  line : '\n' ∉ duration

theorem isDuration_render (t : TimeSpan) : IsDuration t.render.toList := by
  obtain ⟨count, word, scale, htext, hunit, _⟩ := t.exists_word
  rw [htext]
  constructor
  case head => exact fun c hc => Text.isBlank_of_isDigit (Text.head?_toDigits_append _ _ c hc)
  case last =>
    intro c hc
    have hlast : (Nat.toDigits 10 count ++ ' ' :: word).getLast? = word.getLast? := by
      rw [← List.singleton_append, ← List.append_assoc, List.getLast?_append,
        List.getLast?_eq_some_getLast hunit.nonempty, Option.some_or]
    rw [hlast] at hc
    exact hunit.isBlank_of_mem (List.mem_of_mem_getLast? hc)
  case nonempty => exact List.append_ne_nil_of_right_ne_nil _ (List.cons_ne_nil _ _)
  case line =>
    intro hmem
    rcases List.mem_append.mp hmem with hmem | hmem
    · exact absurd (Text.isDigit_of_mem_toDigits hmem) (by decide)
    · rcases List.mem_cons.mp hmem with hspace | hmem
      · exact absurd hspace (by decide)
      · exact absurd (hunit.isBlank_of_mem hmem) (by decide)

theorem durationPart?_blank (h : IsDuration duration) : durationPart? (' ' :: duration) = some duration := by
  have htrim : Text.trim (' ' :: duration) = duration := by
    have hsame := Text.trim_eq_self h.head h.last
    rw [Text.trim] at hsame ⊢
    rwa [Text.dropBlanks_cons_of_blank _ (by decide)]
  have hsome : duration.isEmpty = false := List.isEmpty_eq_false_iff.mpr h.nonempty
  have hline : duration.contains '\n' = false := by
    simpa using h.line
  have hblank : (!isBlank ((' ' :: duration).headD 'x')) = false := rfl
  unfold durationPart?
  simp only [htrim, hsome, hline, hblank]
  rfl

theorem split?_words (operations : ℕ) (h : IsDuration duration) :
    split? (Nat.toDigits 10 operations ++ ' ' :: 'p' :: 'e' :: 'r' :: ' ' :: duration) =
      some (Nat.toDigits 10 operations, duration) := by
  have hhead := Text.head?_toDigits_append operations (' ' :: 'p' :: 'e' :: 'r' :: ' ' :: duration)
  have hblanks := Text.dropBlanks_eq_self fun c hc => Text.isBlank_of_isDigit (hhead c hc)
  have hdigits : ∀ c ∈ Nat.toDigits 10 operations, (!isBlank c) = true := fun c hc => by
    rw [Text.isBlank_of_isDigit (Text.isDigit_of_mem_toDigits hc)]
    rfl
  have hsplit : Text.splitAtBlank (Nat.toDigits 10 operations ++ ' ' :: 'p' :: 'e' :: 'r' :: ' ' :: duration) =
      (Nat.toDigits 10 operations, ' ' :: 'p' :: 'e' :: 'r' :: ' ' :: duration) := by
    rw [Text.splitAtBlank, List.takeWhile_append_of_pos hdigits, List.dropWhile_append_of_pos hdigits]
    exact Prod.ext (List.append_nil _) rfl
  have hsome : (Nat.toDigits 10 operations).isEmpty = false := List.isEmpty_eq_false_iff.mpr Nat.toDigits_ne_nil
  have hper : dropBlanks (' ' :: 'p' :: 'e' :: 'r' :: ' ' :: duration) = 'p' :: 'e' :: 'r' :: ' ' :: duration := rfl
  unfold split?
  rw [hblanks, hsplit]
  simp only [hper, hsome, durationPart?_blank h]
  rfl

/-- Both parts of a rate are positive numbers of 64 bits. -/
structure Proper (r : Rate) : Prop where
  operations : r.operations < wordBound
  per : r.per.nanos < wordBound
  operations_ne_zero : r.operations ≠ 0
  per_ne_zero : r.per.nanos ≠ 0

theorem proper_of_parse {s : String} {r : Rate} (h : parse s = .ok r) : r.Proper := by
  unfold parse at h
  split at h
  · cases h
  · split at h
    · cases h
    · next count hcount =>
      split at h
      · cases h
      · next per hper =>
        unfold make at h
        dsimp only at h
        split at h
        · cases h
        · next hoperations =>
          split at h
          · cases h
          · next hduration =>
            cases h
            exact ⟨Count.lt_wordBound_of_parse hcount, TimeSpan.lt_wordBound_of_parse hper, hoperations, hduration⟩

theorem parse_render {r : Rate} (h : r.Proper) : parse r.render = .ok r := by
  have htext : r.render.toList =
      Nat.toDigits 10 r.operations ++ ' ' :: 'p' :: 'e' :: 'r' :: ' ' :: r.per.render.toList := by
    simp [render]
  have hcount : Count.parse (String.ofList (Nat.toDigits 10 r.operations)) = .ok ⟨r.operations⟩ := by
    rw [Count.parse, String.toList_ofList, Count.ofChars?_toDigits h.operations]
    rfl
  have hduration : TimeSpan.parse (String.ofList r.per.render.toList) = .ok r.per := by
    rw [String.ofList_toList, TimeSpan.parse_render h.per]
  rw [parse, htext, split?_words _ (isDuration_render r.per)]
  simp only [hcount, hduration]
  rw [make, if_neg h.operations_ne_zero, if_neg h.per_ne_zero]

end Rate

/-! ## Normal forms -/

/-- Printing what was read gives a text for the same value, and one such text for each value. -/
structure Normalises {α ε : Type} (parse : String → Except ε α) (render : α → String) : Prop where
  reread : ∀ s a, parse s = .ok a → parse (render a) = .ok a
  stable : ∀ s a a', parse s = .ok a → parse (render a) = .ok a' → render a' = render a
  alike : ∀ s a s' a', parse s = .ok a → parse s' = .ok a' → (a = a' ↔ render a = render a')

theorem Normalises.of_reread {α ε : Type} {parse : String → Except ε α} {render : α → String}
    (h : ∀ s a, parse s = .ok a → parse (render a) = .ok a) : Normalises parse render where
  reread := h
  stable s a a' ha ha' := by
    obtain rfl : a = a' := Except.ok.inj ((h s a ha).symm.trans ha')
    rfl
  alike s a s' a' ha ha' := by
    refine ⟨congrArg render, fun hrender => ?_⟩
    have hsame := h s a ha
    rw [hrender, h s' a' ha'] at hsame
    exact (Except.ok.inj hsame).symm

theorem quantities_normalise :
    Normalises TimeSpan.parse TimeSpan.render ∧ Normalises Rate.parse Rate.render ∧
      ∀ s r, Rate.parse s = .ok r → ∃ r', Rate.parse r.render = .ok r' ∧ r'.operations = r.operations ∧
        r'.per = r.per ∧ r'.ticksPerToken = r.ticksPerToken := by
  have hspans : ∀ s t, TimeSpan.parse s = .ok t → TimeSpan.parse t.render = .ok t :=
    fun _ _ h => TimeSpan.parse_render (TimeSpan.lt_wordBound_of_parse h)
  have hrates : ∀ s r, Rate.parse s = .ok r → Rate.parse r.render = .ok r :=
    fun _ _ h => Rate.parse_render (Rate.proper_of_parse h)
  exact ⟨.of_reread hspans, .of_reread hrates, fun s r h => ⟨r, hrates s r h, rfl, rfl, rfl⟩⟩

theorem quantities_normalise_minutes :
    (TimeSpan.parse " 2MIN" = .ok (.ofSeconds 120) ∧ TimeSpan.render (.ofSeconds 120) = "120 seconds" ∧
      TimeSpan.parse "120 seconds" = .ok (.ofSeconds 120)) ∧
    (Rate.parse "1_0 PER 2 m" = .ok ⟨10, .ofSeconds 120⟩ ∧ Rate.render ⟨10, .ofSeconds 120⟩ = "10 per 120 seconds" ∧
      Rate.parse "10 per 120 seconds" = .ok ⟨10, .ofSeconds 120⟩) := by
  have hspan : TimeSpan.parse " 2MIN" = .ok (.ofSeconds 120) := by decide
  have hspanText : TimeSpan.render (.ofSeconds 120) = "120 seconds" := by decide +kernel
  have hrate : Rate.parse "1_0 PER 2 m" = .ok ⟨10, .ofSeconds 120⟩ := by decide
  have hrateText : Rate.render ⟨10, .ofSeconds 120⟩ = "10 per 120 seconds" := by decide +kernel
  refine ⟨⟨hspan, hspanText, ?_⟩, hrate, hrateText, ?_⟩
  · rw [← hspanText]
    exact quantities_normalise.1.reread _ _ hspan
  · rw [← hrateText]
    exact quantities_normalise.2.1.reread _ _ hrate

end PhasedWorkload
