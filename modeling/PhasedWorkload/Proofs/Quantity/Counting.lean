import PhasedWorkload.Proofs.Binary64.Numerals
import PhasedWorkload.Proofs.Quantity.Printing

/-! # Which numbers are read as counts

A run of digits is read exactly. A numeral with a power of ten is read as the double nearest to it, hence exactly where
the number is a double itself, and a number of a document is read at its exact value. What is read is accepted if and
only if it is a whole number of 64 bits; only of two to the 64th, which as a double stands beside the largest count,
nothing is said.
-/
namespace PhasedWorkload.Count

open Binary64 (Numeral Rounded IsDouble number? scaled wholePart?_eq_some_iff)

variable {ε ε' : Type} {result : Except ε Count} {q : ℚ} {x : Binary64}

/-- The number is accepted if and only if it is a whole number of 64 bits, and it is read exactly. -/
def Reads (result : Except ε Count) (q : ℚ) : Prop :=
  ∀ n : Count, result = .ok n ↔ n.value < wordBound ∧ q = n.value

def Refuses (result : Except ε Count) : Prop := ∀ n, result ≠ .ok n

/-- A double is read at its exact value, except perhaps two to the 64th. -/
structure ReadsDouble (result : Except ε Count) (x : Binary64) : Prop where
  number : ∀ q, x.number? = some q → q ≠ wordBound → Reads result q
  rest : x.number? = none → Refuses result

theorem refuses_error (e : ε) : Refuses (.error e) := nofun

theorem reads_error {e : ε} (h : ∀ n : ℕ, n < wordBound → q ≠ n) : Reads (.error e) q :=
  fun n => ⟨nofun, fun hn => absurd hn.2 (h n.value hn.1)⟩

theorem reads_ok {n : ℕ} (h : n < wordBound) : Reads (ε := ε) (.ok ⟨n⟩) n := by
  rintro ⟨k⟩
  constructor
  · intro hk
    cases hk
    exact ⟨h, rfl⟩
  · rintro ⟨_, hk⟩
    obtain rfl : n = k := Nat.cast_inj.mp hk
    rfl

section Errors

variable {f : ε → ε'}

theorem Refuses.mapError (h : Refuses result) : Refuses (result.mapError f) :=
  fun n hn => h n (ok_of_mapError hn)

theorem Reads.mapError (h : Reads result q) : Reads (result.mapError f) q :=
  fun n => Iff.trans ⟨ok_of_mapError, fun hn => hn ▸ rfl⟩ (h n)

theorem ReadsDouble.mapError (h : ReadsDouble result x) : ReadsDouble (result.mapError f) x :=
  ⟨fun q hq hbound => (h.number q hq hbound).mapError, fun hrest => (h.rest hrest).mapError⟩

end Errors

/-! ## Doubles -/

theorem reads_wholePart {negative : Bool} {m : ℕ} {e : ℤ} (hsign : (negative && m != 0) = false)
    (hbound : scaled m e ≠ wordBound) : Reads (ofBinary64? (.finite negative m e)) (scaled m e) := by
  rw [ofBinary64?]
  simp only [Binary64.isFinite, Binary64.isNegative, hsign, Bool.not_true, Bool.or_false, Bool.false_eq_true, if_false]
  cases hwhole : Binary64.wholePart? (.finite negative m e) with
  | none =>
    refine reads_error fun n _ hn => ?_
    rw [wholePart?_eq_some_iff.mpr hn] at hwhole
    cases hwhole
  | some n =>
    have hvalue := wholePart?_eq_some_iff.mp hwhole
    rw [hvalue] at hbound ⊢
    have hne : n ≠ wordBound := fun heq => hbound (congrArg _ heq)
    dsimp only
    split
    · next hlarge => exact reads_error fun k hk heq => absurd (Nat.cast_inj.mp heq) (by omega)
    · next hsmall =>
      have hmin : min n (wordBound - 1) = n := by omega
      rw [hmin]
      exact reads_ok (by omega)

theorem readsDouble_ofBinary64? (x : Binary64) : ReadsDouble (ofBinary64? x) x := by
  cases x with
  | nan => exact ⟨nofun, fun _ => refuses_error _⟩
  | infinite negative => exact ⟨nofun, fun _ => refuses_error _⟩
  | finite negative m e =>
    refine ⟨fun q hq hbound => ?_, nofun⟩
    obtain rfl := Option.some.inj hq
    cases hsign : negative && m != 0 with
    | true =>
      obtain ⟨rfl, hm⟩ := Bool.and_eq_true_iff.mp hsign
      have hpositive : 0 < scaled m e :=
        mul_pos (Nat.cast_pos.mpr (Nat.pos_of_ne_zero (bne_iff_ne.mp hm))) (Binary64.unit_pos e)
      have hrefused : ofBinary64? (.finite true m e) = .error .notNonNegative := by
        simp [ofBinary64?, Binary64.isFinite, Binary64.isNegative, hm]
      rw [hrefused]
      refine reads_error fun n _ hn => ?_
      have hnonneg : (0 : ℚ) ≤ n := Nat.cast_nonneg n
      rw [if_pos rfl] at hn
      linarith
    | false =>
      have hvalue : (if negative = true then -scaled m e else scaled m e) = scaled m e := by
        cases negative with
        | false => rfl
        | true =>
          have hzero : m = 0 := by simpa using hsign
          simp [hzero, scaled]
      rw [hvalue] at hbound ⊢
      exact reads_wholePart hsign hbound

/-! ## Texts -/

/-- The text without the blanks at its ends and without underscores. -/
def written (s : String) : List Char := (Text.trim s.toList).filter (· ≠ '_')

variable {s : String} {cs : List Char} {d : Numeral}

theorem ofChars?_unsigned (h : written s = cs) (hsome : cs ≠ []) (hsign : cs.head? ≠ some '-') :
    ofChars? s.toList = match Text.natOfDigits? cs with
      | some n => if n < wordBound then .ok ⟨n⟩ else .error .outOfRange
      | none =>
        if cs.any fun c => c = 'e' ∨ c = 'E' then
          match Binary64.readDecimal? cs with
          | some d => ofBinary64? d.toBinary64
          | none => .error .notNumber
        else .error .notNumber := by
  subst h
  have hempty : ¬(written s).isEmpty = true := ne_true_of_eq_false (List.isEmpty_eq_false_iff.mpr hsome)
  unfold ofChars?
  exact (if_neg hempty).trans (if_neg hsign)

theorem refuses_minus (h : written s = d.chars) (hsign : d.sign = .minus) : Refuses (parse s) := by
  have hhead : (written s).head? = some '-' := by simp [h, Numeral.chars, hsign, Binary64.Sign.chars]
  have hempty : ¬(written s).isEmpty = true := by simp [h, Numeral.chars, hsign, Binary64.Sign.chars]
  have herror : ofChars? s.toList = .error .negative := by
    unfold ofChars?
    exact (if_neg hempty).trans (if_pos hhead)
  rw [parse, herror]
  exact refuses_error _

theorem reads_plain (h : written s = d.chars) (hplain : d.IsPlain) : Reads (parse s) d.value := by
  have hsign : d.sign ≠ .minus := by
    rw [hplain.sign]
    decide
  rw [parse, ofChars?_unsigned h Numeral.chars_ne_nil (Numeral.head?_chars hsign), hplain.natOfDigits?_chars,
    hplain.value_eq]
  dsimp only
  refine Reads.mapError ?_
  split
  · next hsmall => exact reads_ok hsmall
  · next hlarge => exact reads_error fun n hn heq => absurd (Nat.cast_inj.mp heq) (by omega)

/-- A numeral with a power of ten is read as the nearest double. -/
theorem readsDouble_power (h : written s = d.chars) (hsign : d.sign ≠ .minus) (hpower : d.power ≠ none) :
    ReadsDouble (parse s) d.read.toBinary64 := by
  obtain ⟨p, hp⟩ := Option.ne_none_iff_exists'.mp hpower
  have hmem : p.mark ∈ d.chars := by simp [Numeral.chars, Numeral.powerChars, hp, Binary64.Power.chars]
  have hdigit : p.mark.isDigit = false := by
    rcases p.isMark with hmark | hmark <;> rw [hmark] <;> decide
  have hany : (d.chars.any fun c => c = 'e' ∨ c = 'E') = true :=
    List.any_eq_true.mpr ⟨p.mark, hmem, decide_eq_true p.isMark⟩
  rw [parse, ofChars?_unsigned h Numeral.chars_ne_nil (Numeral.head?_chars hsign),
    Text.natOfDigits?_eq_none hmem hdigit, Numeral.readDecimal?_chars]
  dsimp only
  rw [if_pos hany]
  exact (readsDouble_ofBinary64? _).mapError

/-- Digits with a sign or a point are no count without a power of ten. -/
theorem refuses_powerless (h : written s = d.chars) (hsign : d.sign ≠ .minus) (hplain : ¬d.IsPlain)
    (hpower : d.power = none) : Refuses (parse s) := by
  have hnondigit : ∃ c ∈ d.chars, c.isDigit = false := by
    cases hfraction : d.fraction with
    | some fraction =>
      exact ⟨'.', by simp [Numeral.chars, Numeral.fractionChars, hfraction], by decide⟩
    | none =>
      cases hd : d.sign with
      | none => exact absurd ⟨hd, hfraction, hpower⟩ hplain
      | plus => exact ⟨'+', by simp [Numeral.chars, hd, Binary64.Sign.chars], by decide⟩
      | minus => exact absurd hd hsign
  obtain ⟨c, hmem, hdigit⟩ := hnondigit
  have hany : (d.chars.any fun c => c = 'e' ∨ c = 'E') = false := by
    refine List.any_eq_false.mpr fun c hc hmark => ?_
    have hletter : c = 'e' ∨ c = 'E' := of_decide_eq_true hmark
    rcases Numeral.mem_chars hpower hc with hdigit | rfl | rfl | rfl
    · rcases hletter with rfl | rfl <;> exact absurd hdigit (by decide)
    all_goals exact absurd hletter (by decide)
  rw [parse, ofChars?_unsigned h Numeral.chars_ne_nil (Numeral.head?_chars hsign),
    Text.natOfDigits?_eq_none hmem hdigit]
  dsimp only
  rw [hany, if_neg Bool.false_ne_true]
  exact refuses_error _

theorem reads_int {i : ℤ} (hi : i ≤ maxSigned) : Reads (ofScalar (.int i)) i := by
  rw [ofScalar]
  split
  · next hneg =>
    refine reads_error fun n _ hn => ?_
    have hvalue : i = n := by exact_mod_cast hn
    omega
  · next hnonneg =>
    have hvalue : (i : ℚ) = i.toNat := by exact_mod_cast (Int.toNat_of_nonneg (not_lt.mp hnonneg)).symm
    rw [hvalue]
    unfold maxSigned at hi
    exact reads_ok (by unfold wordBound; omega)

/-- Runs of digits, whole numbers and doubles are read exactly, and a numeral with a power of ten as its nearest double;
nothing is read after a minus, nor anything else without a power of ten. -/
theorem reads_number :
    (∀ (s : String) (d : Numeral), written s = d.chars →
      (d.IsPlain → Reads (parse s) d.value) ∧
      (d.sign ≠ .minus → d.power ≠ none → ∃ x, Rounded false d.value x ∧ ReadsDouble (parse s) x ∧
        (IsDouble d.value → d.value ≠ wordBound → Reads (parse s) d.value)) ∧
      (d.sign = .minus → Refuses (parse s)) ∧
      (d.power = none → ¬d.IsPlain → Refuses (parse s))) ∧
    (∀ i : ℤ, minSigned ≤ i → i ≤ maxSigned → Reads (ofScalar (.int i)) i) ∧
    ∀ x, ReadsDouble (ofScalar (.float x)) x := by
  refine ⟨fun s d h => ⟨reads_plain h, fun hsign hpower => ?_, refuses_minus h, fun hpower hplain => ?_⟩,
    fun i _ hi => reads_int hi, fun x => (readsDouble_ofBinary64? x).mapError⟩
  · have hminus := Binary64.Sign.isMinus_eq_false hsign
    have hvalue : d.value = d.magnitude := by
      rw [Numeral.value, hminus, if_neg Bool.false_ne_true]
    have hrounded : Rounded false d.value d.read.toBinary64 := by
      have hread := d.rounded_read
      rwa [hminus, ← hvalue] at hread
    have hdouble := readsDouble_power h hsign hpower
    exact ⟨_, hrounded, hdouble, fun hexact hbound => hdouble.number _ (hrounded.number?_eq hexact) hbound⟩
  · by_cases hsign : d.sign = .minus
    · exact refuses_minus h hsign
    · exact refuses_powerless h hsign hplain hpower

theorem reads_number_spelled : ∃ d : Numeral, written " 1_5.5E1" = d.chars ∧ d.sign ≠ .minus ∧ d.power ≠ none ∧
    IsDouble d.value ∧ d.value ≠ wordBound ∧ parse " 1_5.5E1" = .ok ⟨155⟩ ∧
    (minSigned ≤ 155 ∧ (155 : ℤ) ≤ maxSigned) ∧ ofScalar (.int 155) = .ok ⟨155⟩ := by
  let d : Numeral := ⟨.none, ['1', '5'], some ['5'], some ⟨'E', .none, ['1'], .inr rfl, by decide, by decide⟩,
    by decide, by decide⟩
  have hvalue : d.value = (155 : ℕ) := by
    change ((15 : ℕ) + (5 : ℕ) / 10 ^ 1 : ℚ) * 10 ^ (1 : ℤ) = (155 : ℕ)
    norm_num
  have hchars : written " 1_5.5E1" = d.chars := by decide
  have hdouble : IsDouble d.value := hvalue ▸ Binary64.isDouble_natCast (by decide)
  have hbound : d.value ≠ wordBound := by
    rw [hvalue]
    exact Nat.cast_injective.ne (by decide)
  have hfits : minSigned ≤ 155 ∧ (155 : ℤ) ≤ maxSigned := by decide
  have htext : Reads (parse " 1_5.5E1") d.value := by
    obtain ⟨_, _, _, hexact⟩ := (reads_number.1 _ d hchars).2.1 nofun nofun
    exact hexact hdouble hbound
  refine ⟨d, hchars, nofun, nofun, hdouble, hbound, ?_, hfits, ?_⟩
  · exact (htext ⟨155⟩).mpr ⟨by decide, hvalue⟩
  · exact (reads_number.2.1 155 hfits.1 hfits.2 ⟨155⟩).mpr ⟨by decide, by norm_num⟩

/-- An odd number of 54 binary digits is read as its even neighbour, a fraction too small for a double is lost, and a
sign in front of digits alone is refused. -/
theorem number_missed :
    (∃ d : Numeral, written "9007199254740993e0" = d.chars ∧ d.value = 9007199254740993 ∧
      parse "9007199254740993e0" = .ok ⟨9007199254740992⟩) ∧
    (∃ d : Numeral, written "1.00000000000000000001e0" = d.chars ∧ 1 < d.value ∧ d.value < 2 ∧
      parse "1.00000000000000000001e0" = .ok ⟨1⟩) ∧
    ∃ d : Numeral, written "+5" = d.chars ∧ d.value = 5 ∧ parse "+5" = .error ⟨"+5", .notNumber⟩ := by
  refine ⟨?odd, ?fraction, ?sign⟩
  case odd =>
    let d : Numeral := ⟨.none, "9007199254740993".toList, none, some ⟨'e', .none, ['0'], .inl rfl,
      by decide, by decide⟩, by decide, by decide⟩
    have hvalue : d.value = 9007199254740993 := by
      change ((9007199254740993 : ℕ) + (0 : ℕ) / 10 ^ 0 : ℚ) * 10 ^ (0 : ℤ) = 9007199254740993
      norm_num
    exact ⟨d, by decide, hvalue, by decide +kernel⟩
  case fraction =>
    let d : Numeral := ⟨.none, ['1'], some "00000000000000000001".toList,
      some ⟨'e', .none, ['0'], .inl rfl, by decide, by decide⟩, by decide, by decide⟩
    have hvalue : d.value = 1 + 1 / 10 ^ 20 := by
      change ((1 : ℕ) + (1 : ℕ) / 10 ^ 20 : ℚ) * 10 ^ (0 : ℤ) = 1 + 1 / 10 ^ 20
      norm_num
    refine ⟨d, by decide, ?_, ?_, by decide +kernel⟩
    all_goals
      rw [hvalue]
      norm_num
  case sign =>
    let d : Numeral := ⟨.plus, ['5'], none, none, by decide, by decide⟩
    have hvalue : d.value = 5 := by
      change ((5 : ℕ) + (0 : ℕ) / 10 ^ 0 : ℚ) * 10 ^ (0 : ℤ) = 5
      norm_num
    exact ⟨d, by decide, hvalue, by decide⟩

end PhasedWorkload.Count
