import PhasedWorkload.Proofs.Text.Words
import PhasedWorkload.Quantity.TimeSpan

/-! # How spans of time are spelled

A text for a span consists of parts: blanks, perhaps a minus, digits, blanks, letters, blanks. A text without these
parts has no shape; a text with them is refused for the first of what is wrong with them, and else it denotes a span.
A bare number is read like the integer, as long as it is not too long for a text.
-/
namespace PhasedWorkload

open Text (isBlank dropBlanks isDecimalDigit)

theorem ok_of_mapError {α ε ε' : Type} {f : ε → ε'} {x : Except ε α} {a : α} (h : x.mapError f = .ok a) :
    x = .ok a := by
  cases x with
  | error e => cases h
  | ok b => exact congrArg Except.ok (Except.ok.inj h)

namespace TimeSpan

structure Spelling where
  before : List Char
  minus : Bool
  digits : List Char
  between : List Char
  unit : List Char
  after : List Char
  isBlank_before : ∀ c ∈ before, isBlank c = true
  isDecimalDigit_digits : ∀ c ∈ digits, isDecimalDigit c = true
  digits_ne_nil : digits ≠ []
  isBlank_between : ∀ c ∈ between, isBlank c = true
  isAlpha_unit : ∀ c ∈ unit, c.isAlpha = true
  isBlank_after : ∀ c ∈ after, isBlank c = true

/-- The names of the units, with their lengths in nanoseconds. No name at all stands for milliseconds. -/
def unitNames : List (String × ℕ) :=
  [("nanosecond", 1), ("nanoseconds", 1), ("ns", 1),
    ("microsecond", nanosPerMicrosecond), ("microseconds", nanosPerMicrosecond), ("us", nanosPerMicrosecond),
    ("", nanosPerMillisecond), ("millisecond", nanosPerMillisecond), ("milliseconds", nanosPerMillisecond),
    ("ms", nanosPerMillisecond),
    ("second", nanosPerSecond), ("seconds", nanosPerSecond), ("s", nanosPerSecond),
    ("minute", 60 * nanosPerSecond), ("minutes", 60 * nanosPerSecond), ("min", 60 * nanosPerSecond),
    ("m", 60 * nanosPerSecond),
    ("hour", 3600 * nanosPerSecond), ("hours", 3600 * nanosPerSecond), ("h", 3600 * nanosPerSecond)]

theorem unitNanos?_eq_some_iff {unit : List Char} {scale : ℕ} :
    unitNanos? unit = some scale ↔ (String.ofList unit, scale) ∈ unitNames := by
  unfold unitNanos?
  generalize String.ofList unit = name
  split
  case h_21 => simp_all [unitNames]
  all_goals simp [unitNames, @eq_comm ℕ scale]

namespace Spelling

def sign (p : Spelling) : List Char := if p.minus then ['-'] else []

def chars (p : Spelling) : List Char :=
  p.before ++ (p.sign ++ (p.digits ++ (p.between ++ (p.unit ++ p.after))))

/-- The number that the digits denote; only digits of ASCII do. -/
def Denotes (p : Spelling) (count : ℕ) : Prop :=
  (∀ c ∈ p.digits, c.isDigit = true) ∧ Nat.ofDigitChars 10 p.digits 0 = count

/-- The unit is known under its name, in any case. -/
def HasScale (p : Spelling) (scale : ℕ) : Prop :=
  (String.ofList (p.unit.map Char.toLower), scale) ∈ unitNames

variable (p : Spelling)

theorem head?_digits : ∀ c ∈ (p.digits ++ (p.between ++ (p.unit ++ p.after))).head?, isDecimalDigit c = true := by
  intro c hc
  rw [List.head?_append, List.head?_eq_some_head p.digits_ne_nil, Option.some_or] at hc
  exact p.isDecimalDigit_digits c (Option.some.inj hc ▸ List.head_mem _)

theorem dropBlanks_chars : dropBlanks p.chars = p.sign ++ (p.digits ++ (p.between ++ (p.unit ++ p.after))) := by
  refine Text.dropWhile_append_of_head? p.isBlank_before fun c hc => ?_
  cases hminus : p.minus with
  | false =>
    rw [sign, hminus] at hc
    exact Text.isBlank_of_isDecimalDigit (p.head?_digits c hc)
  | true =>
    rw [sign, hminus] at hc
    obtain rfl := Option.some.inj hc
    decide

theorem head?_afterDigits : ∀ c ∈ (p.between ++ (p.unit ++ p.after)).head?, isDecimalDigit c = false := by
  intro c hc
  refine eq_false_of_ne_true fun hdigit => ?_
  have hunblank := Text.isBlank_of_isDecimalDigit hdigit
  rcases List.mem_append.mp (List.mem_of_mem_head? hc) with hmem | hmem
  · exact absurd (p.isBlank_between c hmem) (by simp [hunblank])
  · rcases List.mem_append.mp hmem with hmem | hmem
    · exact absurd (Text.isDecimalDigit_of_isAlpha (p.isAlpha_unit c hmem)) (by simp [hdigit])
    · exact absurd (p.isBlank_after c hmem) (by simp [hunblank])

theorem dropBlanks_of_isBlank {cs : List Char} (h : ∀ c ∈ cs, isBlank c = true) : dropBlanks cs = [] :=
  List.dropWhile_eq_nil_iff.mpr h

theorem takeWhile_unit :
    (dropBlanks (p.between ++ (p.unit ++ p.after))).takeWhile Char.isAlpha = p.unit ∧
      dropBlanks ((dropBlanks (p.between ++ (p.unit ++ p.after))).dropWhile Char.isAlpha) = [] := by
  cases hunit : p.unit with
  | nil =>
    have hblank : dropBlanks (p.between ++ ([] ++ p.after)) = [] := dropBlanks_of_isBlank fun c hc =>
      (List.mem_append.mp hc).elim (p.isBlank_between c) (p.isBlank_after c)
    rw [hblank]
    exact ⟨rfl, rfl⟩
  | cons letter letters =>
    have hletters : ∀ c ∈ letter :: letters, c.isAlpha = true := hunit ▸ p.isAlpha_unit
    have hdrop : dropBlanks (p.between ++ (letter :: letters ++ p.after)) = letter :: letters ++ p.after := by
      refine Text.dropWhile_append_of_head? p.isBlank_between fun c hc => ?_
      obtain rfl := Option.some.inj hc
      exact Text.isBlank_of_isAlpha (hletters letter List.mem_cons_self)
    have hafter : ∀ c ∈ p.after.head?, c.isAlpha = false := fun c hc => eq_false_of_ne_true fun hletter => by
      have hblank := p.isBlank_after c (List.mem_of_mem_head? hc)
      rw [Text.isBlank_of_isAlpha hletter] at hblank
      cases hblank
    rw [hdrop, Text.takeWhile_append_of_head? hletters hafter, Text.dropWhile_append_of_head? hletters hafter]
    exact ⟨rfl, dropBlanks_of_isBlank p.isBlank_after⟩

theorem shape?_chars : shape? p.chars = some ⟨p.minus, p.digits, p.unit⟩ := by
  have hsome : p.digits.isEmpty = false := List.isEmpty_eq_false_iff.mpr p.digits_ne_nil
  have htake := Text.takeWhile_append_of_head? p.isDecimalDigit_digits p.head?_afterDigits
  have hdrop := Text.dropWhile_append_of_head? p.isDecimalDigit_digits p.head?_afterDigits
  obtain ⟨hunit, hrest⟩ := p.takeWhile_unit
  unfold shape?
  rw [p.dropBlanks_chars]
  cases hminus : p.minus with
  | true =>
    simp only [sign, hminus, if_true, List.singleton_append, htake, hdrop, hunit, hrest, hsome]
    rfl
  | false =>
    simp only [sign, hminus, Bool.false_eq_true, if_false, List.nil_append]
    split
    · next rest hdash =>
      have hdigit := p.head?_digits '-' (by rw [hdash]; rfl)
      exact absurd hdigit (by decide)
    · simp only [htake, hdrop, hunit, hrest, hsome]
      rfl

/-- What follows the sign, taken apart. -/
theorem exists_of_rest {before rest : List Char} (hbefore : ∀ c ∈ before, isBlank c = true) (minus : Bool)
    (hdigits : rest.takeWhile isDecimalDigit ≠ [])
    (hafter : dropBlanks ((dropBlanks (rest.dropWhile isDecimalDigit)).dropWhile Char.isAlpha) = []) :
    ∃ p : Spelling, p.chars = before ++ ((if minus then ['-'] else []) ++ rest) := by
  refine ⟨{
    before, minus
    digits := rest.takeWhile isDecimalDigit
    between := (rest.dropWhile isDecimalDigit).takeWhile isBlank
    unit := (dropBlanks (rest.dropWhile isDecimalDigit)).takeWhile Char.isAlpha
    after := (dropBlanks (rest.dropWhile isDecimalDigit)).dropWhile Char.isAlpha
    isBlank_before := hbefore
    isDecimalDigit_digits := fun _ => List.mem_takeWhile_imp
    digits_ne_nil := hdigits
    isBlank_between := fun _ => List.mem_takeWhile_imp
    isAlpha_unit := fun _ => List.mem_takeWhile_imp
    isBlank_after := List.dropWhile_eq_nil_iff.mp hafter }, ?_⟩
  simp only [chars, sign, dropBlanks, List.takeWhile_append_dropWhile]

theorem exists_of_shape? {cs : List Char} {shape : Shape} (h : shape? cs = some shape) :
    ∃ p : Spelling, p.chars = cs := by
  have hcs : cs.takeWhile isBlank ++ dropBlanks cs = cs := List.takeWhile_append_dropWhile
  have hblank : ∀ c ∈ cs.takeWhile isBlank, isBlank c = true := fun _ => List.mem_takeWhile_imp
  unfold shape? at h
  dsimp only at h
  split at h
  all_goals
    simp only [Option.ite_none_left_eq_some, Bool.or_eq_true, not_or, List.isEmpty_iff, Bool.not_eq_true',
      ← Bool.not_eq_true, not_not] at h
    obtain ⟨⟨hdigits, hafter⟩, -⟩ := h
  · next rest hminus =>
    obtain ⟨p, hp⟩ := exists_of_rest hblank true hdigits hafter
    rw [hminus] at hcs
    exact ⟨p, hp.trans hcs⟩
  · obtain ⟨p, hp⟩ := exists_of_rest hblank false hdigits hafter
    exact ⟨p, hp.trans hcs⟩

end Spelling

/-! ## What a spelling means -/

namespace Spelling

/-- The span that a spelling denotes. -/
inductive Means (p : Spelling) : TimeSpan → Prop where
  | intro {count scale : ℕ} (plain : p.minus = false) (denotes : p.Denotes count) (short : count < wordBound)
    (known : p.HasScale scale) (fits : count * scale < wordBound) : p.Means ⟨count * scale⟩

variable {p : Spelling} {count scale : ℕ}

theorem word?_eq_some_iff : word? p.digits = some count ↔ p.Denotes count ∧ count < wordBound := by
  have hsome : p.digits.isEmpty = false := List.isEmpty_eq_false_iff.mpr p.digits_ne_nil
  simp [word?, Text.natOfDigits?, Denotes, Option.filter_eq_some_iff, hsome]

theorem unitNanos?_unit : unitNanos? (p.unit.map Char.toLower) = some scale ↔ p.HasScale scale :=
  unitNanos?_eq_some_iff

end Spelling

/-! ## What is wrong with a text -/

/-- The reason for which a text is refused: the first that applies, in this order. -/
inductive Refused (cs : List Char) : Reason → Prop where
  | shape (unspelled : ∀ p : Spelling, p.chars ≠ cs) : Refused cs .shape
  | negative (p : Spelling) (spelled : p.chars = cs) (minus : p.minus = true) : Refused cs .negative
  | outOfRange (p : Spelling) (spelled : p.chars = cs) (plain : p.minus = false)
    (long : ∀ count, p.Denotes count → wordBound ≤ count) : Refused cs .outOfRange
  | unknownUnit (p : Spelling) (spelled : p.chars = cs) (plain : p.minus = false) (count : ℕ)
    (denotes : p.Denotes count) (short : count < wordBound) (unknown : ∀ scale, ¬p.HasScale scale) :
    Refused cs (.unknownUnit (String.ofList p.unit))
  | overflow (p : Spelling) (spelled : p.chars = cs) (plain : p.minus = false) (count scale : ℕ)
    (denotes : p.Denotes count) (short : count < wordBound) (known : p.HasScale scale)
    (large : wordBound ≤ count * scale) : Refused cs .overflow

variable {cs : List Char} {t : TimeSpan} {reason : Reason}

open Spelling (word?_eq_some_iff unitNanos?_unit)

theorem Spelling.Means.ofChars? {p : Spelling} (h : p.Means t) : ofChars? p.chars = .ok t := by
  obtain ⟨plain, denotes, short, known, fits⟩ := h
  rw [TimeSpan.ofChars?, p.shape?_chars]
  simp only [plain, word?_eq_some_iff.mpr ⟨denotes, short⟩, unitNanos?_unit.mpr known, if_pos fits]
  rfl

theorem Refused.ofChars? (h : Refused cs reason) : ofChars? cs = .error reason := by
  cases h with
  | shape unspelled =>
    cases hshape : shape? cs with
    | none => rw [TimeSpan.ofChars?, hshape]
    | some shape =>
      obtain ⟨p, hp⟩ := Spelling.exists_of_shape? hshape
      exact absurd hp (unspelled p)
  | negative p spelled minus =>
    rw [TimeSpan.ofChars?, ← spelled, p.shape?_chars]
    exact if_pos minus
  | outOfRange p spelled plain long =>
    have hword : word? p.digits = none := Option.eq_none_iff_forall_ne_some.mpr fun count hcount => by
      obtain ⟨hdenotes, hshort⟩ := word?_eq_some_iff.mp hcount
      exact Nat.not_le_of_lt hshort (long count hdenotes)
    rw [TimeSpan.ofChars?, ← spelled, p.shape?_chars]
    simp only [plain, hword]
    rfl
  | unknownUnit p spelled plain count denotes short unknown =>
    have hunit : unitNanos? (p.unit.map Char.toLower) = none :=
      Option.eq_none_iff_forall_ne_some.mpr fun scale hscale => unknown scale (unitNanos?_unit.mp hscale)
    rw [TimeSpan.ofChars?, ← spelled, p.shape?_chars]
    simp only [plain, word?_eq_some_iff.mpr ⟨denotes, short⟩, hunit]
    rfl
  | overflow p spelled plain count scale denotes short known large =>
    rw [TimeSpan.ofChars?, ← spelled, p.shape?_chars]
    simp only [plain, word?_eq_some_iff.mpr ⟨denotes, short⟩, unitNanos?_unit.mpr known, if_neg (Nat.not_lt.mpr large)]
    rfl

theorem means_or_refused (cs : List Char) :
    (∃ p : Spelling, ∃ t, p.chars = cs ∧ p.Means t) ∨ ∃ reason, Refused cs reason := by
  by_cases hspelled : ∃ p : Spelling, p.chars = cs
  · obtain ⟨p, hp⟩ := hspelled
    cases hminus : p.minus with
    | true => exact .inr ⟨_, .negative p hp hminus⟩
    | false =>
      cases hword : word? p.digits with
      | none =>
        refine .inr ⟨_, .outOfRange p hp hminus fun count hcount => Nat.le_of_not_lt fun hshort => ?_⟩
        rw [word?_eq_some_iff.mpr ⟨hcount, hshort⟩] at hword
        cases hword
      | some count =>
        obtain ⟨hdenotes, hshort⟩ := word?_eq_some_iff.mp hword
        by_cases hknown : ∃ scale, p.HasScale scale
        · obtain ⟨scale, hscale⟩ := hknown
          by_cases hfits : count * scale < wordBound
          · exact .inl ⟨p, _, hp, .intro hminus hdenotes hshort hscale hfits⟩
          · exact .inr ⟨_, .overflow p hp hminus count scale hdenotes hshort hscale (Nat.le_of_not_lt hfits)⟩
        · exact .inr ⟨_, .unknownUnit p hp hminus count hdenotes hshort fun scale hscale => hknown ⟨scale, hscale⟩⟩
  · exact .inr ⟨_, .shape fun p hp => hspelled ⟨p, hp⟩⟩

theorem ofChars?_eq_ok_iff : ofChars? cs = .ok t ↔ ∃ p : Spelling, p.chars = cs ∧ p.Means t := by
  constructor
  · intro h
    rcases means_or_refused cs with ⟨p, t', rfl, hmeans⟩ | ⟨reason, hrefused⟩
    · obtain rfl : t' = t := Except.ok.inj (hmeans.ofChars?.symm.trans h)
      exact ⟨p, rfl, hmeans⟩
    · exact absurd (hrefused.ofChars?.symm.trans h) nofun
  · rintro ⟨p, rfl, hmeans⟩
    exact hmeans.ofChars?

theorem ofChars?_eq_error_iff : ofChars? cs = .error reason ↔ Refused cs reason := by
  constructor
  · intro h
    rcases means_or_refused cs with ⟨p, t, rfl, hmeans⟩ | ⟨reason', hrefused⟩
    · exact absurd (hmeans.ofChars?.symm.trans h) nofun
    · obtain rfl : reason' = reason := Except.error.inj (hrefused.ofChars?.symm.trans h)
      exact hrefused
  · exact Refused.ofChars?

/-- A text is read if and only if it spells a span, and as that span; else it is refused for the first reason. -/
theorem reads_spelling (s : String) :
    (∀ t, parse s = .ok t ↔ ∃ p : Spelling, p.chars = s.toList ∧ p.Means t) ∧
      ∀ e, parse s = .error e ↔ e.input = s ∧ Refused s.toList e.reason := by
  refine ⟨fun t => ?_, fun e => ?_⟩
  · rw [← ofChars?_eq_ok_iff]
    exact ⟨ok_of_mapError, fun h => by rw [parse, h]; rfl⟩
  · rw [← ofChars?_eq_error_iff, parse]
    cases ofChars? s.toList with
    | ok t => exact ⟨nofun, fun h => nomatch h.2⟩
    | error reason =>
      obtain ⟨input, reason'⟩ := e
      simp only [Except.mapError, Except.error.injEq, ReadError.mk.injEq, eq_comm]

/-- The sign comes first, then the digits, which are of another script, and the unit is not looked at. -/
example : parse "-٣ fortnights" = .error ⟨"-٣ fortnights", .negative⟩ ∧
    parse "٣ fortnights" = .error ⟨"٣ fortnights", .outOfRange⟩ := by decide

/-! ## Printed counts -/

namespace Spelling

/-- A number as it is printed, with or without a unit after it. -/
def printed (minus : Bool) (n : ℕ) (between unit : List Char) (isBlank_between : ∀ c ∈ between, isBlank c = true)
    (isAlpha_unit : ∀ c ∈ unit, c.isAlpha = true) : Spelling where
  before := []
  minus
  digits := Nat.toDigits 10 n
  between
  unit
  after := []
  isBlank_before := nofun
  isDecimalDigit_digits _ hc := Text.isDecimalDigit_of_isDigit (Text.isDigit_of_mem_toDigits hc)
  digits_ne_nil := Nat.toDigits_ne_nil
  isBlank_between
  isAlpha_unit
  isBlank_after := nofun

theorem denotes_of_digits {p : Spelling} {n : ℕ} (h : p.digits = Nat.toDigits 10 n) : p.Denotes n := by
  refine ⟨fun c hc => Text.isDigit_of_mem_toDigits (n := n) (h ▸ hc), ?_⟩
  rw [h, Nat.ofDigitChars_ten_toDigits]

/-- The text of a whole number. -/
def bare (minus : Bool) (n : ℕ) : Spelling := printed minus n [] [] nofun nofun

theorem hasScale_bare (minus : Bool) (n : ℕ) : (bare minus n).HasScale nanosPerMillisecond := by
  have hnone : ("", nanosPerMillisecond) ∈ unitNames := by decide
  exact hnone

theorem chars_bare_natCast (n : ℕ) : (bare false n).chars = (toString (n : ℤ)).toList := by
  have htext : (toString (n : ℤ)).toList = Nat.toDigits 10 n := Text.toList_toString n
  rw [htext, chars]
  simp [bare, printed, sign]

theorem chars_bare_negSucc (n : ℕ) : (bare true (n + 1)).chars = (toString (Int.negSucc n)).toList := by
  rw [Text.toList_toString_negSucc, chars]
  simp [bare, printed, sign]

end Spelling

variable {n : ℕ}

/-- A bare text is read as the number of milliseconds where that is a 64-bit number of nanoseconds. -/
theorem parse_natCast (h : n < wordBound) : parse (toString (n : ℤ)) =
    if n * nanosPerMillisecond < wordBound then .ok (ofMillis n) else .error ⟨toString (n : ℤ), .overflow⟩ := by
  have hdenotes : (Spelling.bare false n).Denotes n := Spelling.denotes_of_digits rfl
  have hscale := Spelling.hasScale_bare false n
  rw [parse, ← Spelling.chars_bare_natCast]
  split
  · next hfits =>
    rw [(Spelling.Means.intro rfl hdenotes h hscale hfits).ofChars?]
    rfl
  · next hlarge =>
    rw [(Refused.overflow _ rfl rfl n _ hdenotes h hscale (Nat.not_lt.mp hlarge)).ofChars?]
    rfl

theorem parse_negSucc (n : ℕ) : parse (toString (Int.negSucc n)) = .error ⟨toString (Int.negSucc n), .negative⟩ := by
  rw [parse, ← Spelling.chars_bare_negSucc, (Refused.negative _ rfl rfl).ofChars?]
  rfl

/-- A bare number is read alike as an integer and as a text, except that a text is refused where the nanoseconds do not
fit 64 bits. -/
theorem bare_number_read (n : ℤ) (high : n ≤ maxSigned) :
    ofScalar (.int n) = (if n < 0 then .error ⟨toString n, .negative⟩ else .ok (ofMillis n.toNat)) ∧
      parse (toString n) = (if n * nanosPerMillisecond < wordBound then ofScalar (.int n)
        else .error ⟨toString n, .overflow⟩) := by
  refine ⟨rfl, ?_⟩
  cases n with
  | ofNat n =>
    have hword : n < wordBound := by
      rw [Int.ofNat_eq_natCast, maxSigned] at high
      unfold wordBound
      omega
    have hfits : (Int.ofNat n * nanosPerMillisecond < wordBound) ↔ n * nanosPerMillisecond < wordBound := by
      rw [Int.ofNat_eq_natCast, ← Int.natCast_mul, Int.ofNat_lt]
    simp only [hfits]
    exact parse_natCast hword
  | negSucc n =>
    have hfits : Int.negSucc n * nanosPerMillisecond < wordBound := by
      unfold wordBound nanosPerMillisecond
      omega
    rw [if_pos hfits, parse_negSucc, ofScalar, if_pos (Int.negSucc_lt_zero n)]

theorem bare_number_read_limit : 18446744073709 ≤ maxSigned ∧
    parse (toString (18446744073709 : ℤ)) = .ok (ofMillis 18446744073709) := by
  have hrange : 18446744073709 ≤ maxSigned := by decide
  refine ⟨hrange, ?_⟩
  rw [(bare_number_read 18446744073709 hrange).2, if_pos (by decide)]
  rfl

/-- One more millisecond is accepted as an integer, but not as a text. -/
theorem bare_number_too_long : (minSigned ≤ 18446744073710 ∧ 18446744073710 ≤ maxSigned) ∧
    ofScalar (.int 18446744073710) = .ok (ofMillis 18446744073710) ∧
    parse (toString (18446744073710 : ℤ)) = .error ⟨"18446744073710", .overflow⟩ := by
  refine ⟨by decide, rfl, ?_⟩
  decide

end TimeSpan

end PhasedWorkload
