import Mathlib.Tactic.SplitIfs
import PhasedWorkload.Json.Printing
import PhasedWorkload.Json.Token
import PhasedWorkload.Proofs.Document.Values
import PhasedWorkload.Proofs.Text.Words

/-! # Tokens of printed values

A text is split into tokens from its front, so what has to be shown of a part of it is that the part is taken off
whole and that nothing of what follows goes with it. Only a number could take more, and after a value stands the end
of the text, a comma or the end of a list or a table.
-/
namespace PhasedWorkload

/-- The text of a double is read as the same double; reading rounds twice, so this is not so for all. -/
def Binary64.IsLegible (x : Binary64) : Prop := Json.spanToken? x.toDataText.toList = some (.number (.float x), [])

instance (x : Binary64) : Decidable x.IsLegible := inferInstanceAs (Decidable (_ = _))

namespace Json

open Binary64 (spanDigits spanSign)

/-- What may stand after a value: its text goes no further. -/
inductive Delimits : List Char → Prop where
  | nil : Delimits []
  | comma (rest : List Char) : Delimits (',' :: rest)
  | closeList (rest : List Char) : Delimits (']' :: rest)
  | closeTable (rest : List Char) : Delimits ('\x7d' :: rest)

variable {cs rest left : List Char} {negative : Bool} {n : Number}

/-! ## Numbers -/

theorem spanDigits_append (h : Delimits rest) (cs : List Char) :
    spanDigits (cs ++ rest) = ((spanDigits cs).1, (spanDigits cs).2 ++ rest) := by
  induction cs with
  | nil => cases h <;> rfl
  | cons c cs ih =>
    simp only [spanDigits, Prod.mk.injEq] at ih ⊢
    cases hc : c.isDigit with
    | false => simp [hc]
    | true => simp [hc, ih.1, ih.2]

theorem spanSign_append (h : Delimits rest) (cs : List Char) :
    spanSign (cs ++ rest) = ((spanSign cs).1, (spanSign cs).2 ++ rest) := by
  cases cs with
  | nil => cases h <;> rfl
  | cons c cs =>
    rw [List.cons_append]
    unfold spanSign
    split <;> simp_all

theorem spanPower?_append (h : Delimits rest) {power : ℤ} (hp : spanPower? cs = some (power, left)) :
    spanPower? (cs ++ rest) = some (power, left ++ rest) := by
  cases cs with
  | nil =>
    cases hp
    cases h <;> rfl
  | cons c cs =>
    simp only [spanPower?, List.cons_append] at hp ⊢
    split
    · next hc =>
      rw [if_pos hc] at hp
      rw [spanSign_append h, spanDigits_append h]
      obtain ⟨n, hn, heq⟩ := Option.map_eq_some_iff.mp hp
      obtain ⟨rfl, rfl⟩ := Prod.mk.inj heq
      exact Option.map_eq_some_iff.mpr ⟨n, hn, rfl⟩
    · next hc =>
      rw [if_neg hc] at hp
      cases hp
      rfl

theorem spanNumber?_append (h : Delimits rest) (hn : spanNumber? negative cs = some (n, left)) :
    spanNumber? negative (cs ++ rest) = some (n, left ++ rest) := by
  unfold spanNumber? at hn ⊢
  rw [spanDigits_append h]
  generalize spanDigits cs = spanned at hn
  obtain ⟨whole, after⟩ := spanned
  simp only at hn ⊢
  split at hn
  · cases hn
  · next hwhole =>
    rw [if_neg hwhole]
    split at hn
    · next fraction =>
      rw [List.cons_append]
      simp only [spanDigits_append h]
      split at hn
      · cases hn
      · next hfraction =>
        rw [if_neg hfraction]
        simp only [Option.bind_eq_bind, Option.bind_eq_some_iff, Option.pure_def, Option.some.injEq] at hn ⊢
        obtain ⟨⟨power, after⟩, hpower, number, hnumber, heq⟩ := hn
        obtain ⟨rfl, rfl⟩ := Prod.mk.inj heq
        exact ⟨_, spanPower?_append h hpower, number, hnumber, rfl⟩
    · next hpoint =>
      -- where the number has no point, what follows brings none
      have hpoint' : ∀ fraction, after ++ rest ≠ '.' :: fraction := by
        intro fraction heq
        cases after with
        | nil => cases h <;> cases heq
        | cons c after =>
          obtain ⟨rfl, _⟩ := List.cons.inj heq
          exact hpoint _ rfl
      split
      · next heq => exact absurd heq (hpoint' _)
      · simp only [Option.bind_eq_bind, Option.bind_eq_some_iff, Option.pure_def] at hn ⊢
        obtain ⟨⟨power, afterPower⟩, hpower, hn⟩ := hn
        refine ⟨_, spanPower?_append h hpower, ?_⟩
        have hlength : (afterPower ++ rest).length = (after ++ rest).length ↔ afterPower.length = after.length := by
          simp
        simp only [hlength]
        split at hn
        · next hinteger =>
          rw [if_pos hinteger]
          cases hn
          rfl
        · next hdouble =>
          rw [if_neg hdouble]
          obtain ⟨number, hnumber, heq⟩ := Option.bind_eq_some_iff.mp hn
          obtain ⟨rfl, rfl⟩ := Prod.mk.inj (Option.some.inj heq)
          exact Option.bind_eq_some_iff.mpr ⟨_, hnumber, rfl⟩

theorem spanToken?_digit {c : Char} (hc : c.isDigit = true) (cs : List Char) :
    spanToken? (c :: cs) = spanNumberToken? false (c :: cs) := by
  unfold spanToken?
  split <;> first | rfl | simp_all

theorem isDigit_of_spanNumber? (h : spanNumber? negative cs = some (n, left)) :
    ∃ c tail, cs = c :: tail ∧ c.isDigit = true := by
  cases cs with
  | nil => cases h
  | cons c tail =>
    refine ⟨c, tail, rfl, ?_⟩
    by_contra hc
    simp [spanNumber?, spanDigits, hc] at h

theorem spanNumber?_of_token (h : spanNumberToken? negative cs = some (.number n, left)) :
    spanNumber? negative cs = some (n, left) := by
  unfold spanNumberToken? at h
  split at h
  · next m rest hm =>
    cases h
    exact hm
  · obtain ⟨_, _, heq⟩ := Option.map_eq_some_iff.mp h
    cases heq

/-- A number is read after its minus sign, or where it starts. -/
theorem spanNumber?_of_spanToken? (h : spanToken? cs = some (.number n, left)) :
    (∃ tail, cs = '-' :: tail ∧ spanNumber? true tail = some (n, left)) ∨ spanNumber? false cs = some (n, left) := by
  unfold spanToken? at h
  split at h
  case h_11 tail =>
    unfold spanTextToken? at h
    split at h
    · cases h
    · obtain ⟨_, _, heq⟩ := Option.map_eq_some_iff.mp h
      cases heq
  case h_12 tail => exact .inl ⟨tail, rfl, spanNumber?_of_token h⟩
  case h_13 => exact .inr (spanNumber?_of_token h)
  all_goals cases h

/-- The text of a number is read from the front of a longer text if a delimiter follows. -/
theorem spanToken?_append (h : Delimits rest) (hn : spanToken? cs = some (.number n, left)) :
    spanToken? (cs ++ rest) = some (.number n, left ++ rest) := by
  rcases spanNumber?_of_spanToken? hn with ⟨tail, rfl, hnumber⟩ | hnumber
  · simp [spanToken?, spanNumberToken?, spanNumber?_append h hnumber]
  · obtain ⟨c, tail, rfl, hc⟩ := isDigit_of_spanNumber? hnumber
    rw [List.cons_append, spanToken?_digit hc, spanNumberToken?, ← List.cons_append, spanNumber?_append h hnumber]

/-! ## Integers -/

theorem absorb_eq (digits : List Char) (significand : ℕ) (h : Nat.ofDigitChars 10 digits significand < wordBound) :
    absorb significand digits = (Nat.ofDigitChars 10 digits significand, digits.length) := by
  induction digits generalizing significand with
  | nil => rfl
  | cons c digits ih =>
    rw [Nat.ofDigitChars_cons] at h
    have hnext : 10 * significand + (c.toNat - '0'.toNat) < wordBound := (Text.le_ofDigitChars digits _).trans_lt h
    simp only [absorb]
    rw [if_pos hnext, ih _ h, Nat.ofDigitChars_cons, List.length_cons]

theorem spanDigits_digits {digits : List Char} (hdigits : ∀ c ∈ digits, c.isDigit = true) (h : Delimits rest) :
    spanDigits (digits ++ rest) = (digits, rest) := by
  have hall : spanDigits digits = (digits, []) := by
    rw [spanDigits, List.takeWhile_eq_self_iff.mpr hdigits, List.dropWhile_eq_nil_iff.mpr hdigits]
  rw [spanDigits_append h, hall]
  rfl

theorem spanNumber?_toDigits (negative : Bool) {n : ℕ} (hn : n < wordBound) (h : Delimits rest) :
    spanNumber? negative (Nat.toDigits 10 n ++ rest) = some (integer negative n, rest) := by
  have hdigits : ∀ c ∈ Nat.toDigits 10 n, c.isDigit = true := fun c hc => Text.isDigit_of_mem_toDigits hc
  have habsorb := absorb_eq (Nat.toDigits 10 n) 0 (by rwa [Nat.ofDigitChars_ten_toDigits])
  rw [Nat.ofDigitChars_ten_toDigits] at habsorb
  have hsome : (Nat.toDigits 10 n).isEmpty = false := List.isEmpty_eq_false_iff.mpr Nat.toDigits_ne_nil
  have hleading : (Nat.toDigits 10 n).head? = some '0' → (Nat.toDigits 10 n).length = 1 := by
    intro hzero
    rw [Text.eq_zero_of_head?_toDigits hzero]
    rfl
  have hwhole : ¬((Nat.toDigits 10 n).isEmpty || (Nat.toDigits 10 n).head? = some '0' &&
      1 < (Nat.toDigits 10 n).length) := by
    simp only [hsome, Bool.false_or, Bool.and_eq_true, decide_eq_true_eq, not_and]
    intro hzero
    exact (hleading hzero).le.not_gt
  unfold spanNumber?
  simp only [spanDigits_digits hdigits h, habsorb, if_neg hwhole]
  cases h <;> simp [spanPower?]

theorem spanToken?_int {n : ℤ} (low : minSigned ≤ n) (high : n < wordBound) (h : Delimits rest) :
    spanToken? ((toString n).toList ++ rest) = some (.number (.int n), rest) := by
  cases n with
  | ofNat n =>
    have htext : (toString (Int.ofNat n)).toList = Nat.toDigits 10 n := Text.toList_toString n
    obtain ⟨c, tail, hdigits⟩ := List.exists_cons_of_ne_nil (Nat.toDigits_ne_nil (b := 10) (n := n))
    have hc : c.isDigit = true := Text.isDigit_of_mem_toDigits (hdigits ▸ List.mem_cons_self)
    have hnumber := spanNumber?_toDigits false (Int.ofNat_lt.mp high) h
    rw [hdigits] at hnumber
    rw [htext, hdigits, List.cons_append, spanToken?_digit hc, spanNumberToken?, ← List.cons_append, hnumber]
    rfl
  | negSucc n =>
    have hword : n + 1 < wordBound := by
      unfold minSigned at low
      unfold wordBound
      omega
    have hinteger : integer true (n + 1) = .int (Int.negSucc n) := by
      have hlow : ((n + 1 : ℕ) : ℤ) ≤ -minSigned := by omega
      rw [integer, Bool.not_true, if_neg Bool.false_ne_true, if_pos ⟨Nat.succ_ne_zero n, hlow⟩]
      rfl
    have hnumber := spanNumber?_toDigits true hword h
    rw [Text.toList_toString_negSucc, List.cons_append]
    simp only [spanToken?, spanNumberToken?, hnumber, hinteger]

/-! ## Texts -/

theorem hexNumber?_hexDigits : ∀ code < 0x20, Text.hexNumber? ['0', '0', hexDigit (code / 16), hexDigit (code % 16)] =
    some code := by
  decide

/-- An escape is undone. -/
theorem spanText?_escape {fuel : ℕ} {c : Char} {escape cs : List Char} (h : spanEscape? (escape ++ cs) = some (c, cs)) :
    spanText? (fuel + 1) ('\\' :: escape ++ cs) =
      (spanText? fuel cs).map fun spanned => (c :: spanned.1, spanned.2) := by
  rw [List.cons_append, spanText?, if_neg (by decide), if_pos rfl, h, Option.map_eq_bind]
  rfl

theorem spanEscape?_units {c : Char} (hc : c.toNat < 0x20) (cs : List Char) :
    spanEscape? ('u' :: '0' :: '0' :: hexDigit (c.toNat / 16) :: hexDigit (c.toNat % 16) :: cs) = some (c, cs) := by
  simp only [spanEscape?, spanUnits?, spanHex?, hexNumber?_hexDigits c.toNat hc, Option.map_some, Option.bind_eq_bind,
    Option.bind_some]
  rw [if_pos (by omega), Char.ofNat_toNat]
  rfl

theorem spanText?_escapedChar (fuel : ℕ) (c : Char) (cs : List Char) :
    spanText? (fuel + 1) (escapedChar c ++ cs) =
      (spanText? fuel cs).map fun spanned => (c :: spanned.1, spanned.2) := by
  have hescape : ∀ d escape, c = d → spanEscape? (escape :: cs) = some (d, cs) →
      spanText? (fuel + 1) (['\\', escape] ++ cs) =
        (spanText? fuel cs).map fun spanned => (c :: spanned.1, spanned.2) := by
    rintro d escape rfl h
    exact spanText?_escape h
  unfold escapedChar
  split_ifs with hquote hbackslash hbackspace hformFeed hlineFeed hreturn htab hcontrol
  · exact hescape _ _ hquote rfl
  · exact hescape _ _ hbackslash rfl
  · exact hescape _ _ hbackspace rfl
  · exact hescape _ _ hformFeed rfl
  · exact hescape _ _ hlineFeed rfl
  · exact hescape _ _ hreturn rfl
  · exact hescape _ _ htab rfl
  · exact spanText?_escape (spanEscape?_units hcontrol cs)
  · rw [List.singleton_append, spanText?, if_neg hquote, if_neg hbackslash, if_neg hcontrol, Option.map_eq_bind]
    rfl

theorem spanText?_escaped {fuel : ℕ} {text : List Char} (h : text.length < fuel) (rest : List Char) :
    spanText? fuel (text.flatMap escapedChar ++ '"' :: rest) = some (text, rest) := by
  induction text generalizing fuel with
  | nil =>
    obtain ⟨fuel, rfl⟩ := Nat.exists_eq_add_of_lt h
    rfl
  | cons c text ih =>
    rw [List.length_cons] at h
    obtain ⟨fuel, rfl⟩ := Nat.exists_eq_add_of_lt (Nat.zero_lt_of_lt h)
    rw [List.flatMap_cons, List.append_assoc, Nat.zero_add, spanText?_escapedChar, ih (by omega)]
    rfl

theorem length_le_flatMap_escapedChar (text : List Char) : text.length ≤ (text.flatMap escapedChar).length := by
  induction text with
  | nil => exact Nat.le_refl _
  | cons c text ih =>
    have hone : 0 < (escapedChar c).length := by
      unfold escapedChar
      split_ifs <;> exact Nat.zero_lt_succ _
    rw [List.flatMap_cons, List.length_append, List.length_cons]
    omega

theorem spanToken?_text (s : String) (rest : List Char) :
    spanToken? (renderText s ++ rest) = some (.text s, rest) := by
  have hshape : renderText s ++ rest = '"' :: (s.toList.flatMap escapedChar ++ '"' :: rest) := by
    simp [renderText]
  have hlength := length_le_flatMap_escapedChar s.toList
  have htext : spanText? ((s.toList.flatMap escapedChar ++ '"' :: rest).length + 1)
      (s.toList.flatMap escapedChar ++ '"' :: rest) = some (s.toList, rest) := by
    refine spanText?_escaped ?_ rest
    rw [List.length_append]
    omega
  rw [hshape]
  simp only [spanToken?, spanTextToken?, htext, String.ofList_toList]

/-! ## Values -/

variable {t : Token} {ts : List Token} {v : Value}

/-- The tokens of a text, whatever the bound of their number. -/
def Lexes (cs : List Char) (ts : List Token) : Prop := ∀ fuel, cs.length < fuel → tokensWithin fuel cs = ts

theorem lexes_nil : Lexes [] [] := by
  intro fuel h
  obtain ⟨fuel, rfl⟩ := Nat.exists_eq_add_of_lt h
  rfl

theorem ne_nil_of_spanToken? (h : spanToken? cs = some (t, left)) : cs ≠ [] := by
  rintro rfl
  cases h

theorem isSpace_of_spanToken? {c : Char} (h : spanToken? (c :: cs) = some (t, left)) : isSpace c = false := by
  by_contra hspace
  rw [Bool.not_eq_false] at hspace
  simp only [isSpace, Bool.or_eq_true, decide_eq_true_eq, or_assoc] at hspace
  rcases hspace with rfl | rfl | rfl | rfl <;> cases h

theorem lexes_cons {c : Char} (h : spanToken? (c :: cs) = some (t, rest)) (hlength : rest.length ≤ cs.length)
    (hrest : Lexes rest ts) : Lexes (c :: cs) (t :: ts) := by
  intro fuel hfuel
  obtain ⟨fuel, rfl⟩ := Nat.exists_eq_add_of_lt (Nat.zero_lt_of_lt hfuel)
  rw [List.length_cons] at hfuel
  have hskip : (c :: cs).dropWhile isSpace = c :: cs := by
    rw [List.dropWhile_cons, isSpace_of_spanToken? h]
    rfl
  rw [Nat.zero_add, tokensWithin, hskip]
  simp only [h]
  rw [hrest fuel (by omega)]

theorem lexes_append (h : spanToken? (cs ++ rest) = some (t, rest)) (hcs : cs ≠ []) (hrest : Lexes rest ts) :
    Lexes (cs ++ rest) (t :: ts) := by
  obtain ⟨c, cs, rfl⟩ := List.exists_cons_of_ne_nil hcs
  rw [List.cons_append] at h ⊢
  exact lexes_cons h (by rw [List.length_append]; omega) hrest

/-- The tokens of a value's text. -/
def tokensOf : Value → List Token
  | .null => [.null]
  | .bool b => [.bool b]
  | .int n => [.number (.int n)]
  | .float x => [.number (.float x)]
  | .text s => [.text s]
  | .list items => .openList :: ofItems items ++ [.closeList]
  | .object members => .openTable :: ofMembers members ++ [.closeTable]
where
  ofItems : List Value → List Token
    | [] => []
    | [v] => tokensOf v
    | v :: vs => tokensOf v ++ .comma :: ofItems vs
  ofMembers : List (String × Value) → List Token
    | [] => []
    | [(k, v)] => .text k :: .colon :: tokensOf v
    | (k, v) :: vs => .text k :: .colon :: tokensOf v ++ .comma :: ofMembers vs

/-- The text of a value is read as its tokens where a delimiter follows. -/
def LexesWell (v : Value) : Prop :=
  ∀ rest ts, Delimits rest → Lexes rest ts → Lexes (renderChars v ++ rest) (tokensOf v ++ ts)

theorem lexes_items {items : List Value} (h : ∀ v ∈ items, LexesWell v) (hrest : Lexes rest ts)
    (hdelimits : Delimits rest) : Lexes (renderChars.renderItems items ++ rest) (tokensOf.ofItems items ++ ts) := by
  induction items with
  | nil => exact hrest
  | cons v items ih =>
    have hv := h v List.mem_cons_self
    cases items with
    | nil => exact hv rest ts hdelimits hrest
    | cons w items =>
      have hitems := ih fun u hu => h u (List.mem_cons_of_mem _ hu)
      have hcomma := hv _ _ (.comma _) (lexes_cons rfl (Nat.le_refl _) hitems)
      simpa [renderChars.renderItems, tokensOf.ofItems] using hcomma

theorem lexes_text (s : String) (hrest : Lexes rest ts) : Lexes (renderText s ++ rest) (.text s :: ts) :=
  lexes_append (spanToken?_text s rest) (List.cons_ne_nil _ _) hrest

theorem lexes_member {m : String × Value} (h : LexesWell m.2) (hrest : Lexes rest ts) (hdelimits : Delimits rest) :
    Lexes (renderText m.1 ++ ':' :: (renderChars m.2 ++ rest)) (.text m.1 :: .colon :: (tokensOf m.2 ++ ts)) :=
  lexes_text m.1 (lexes_cons rfl (Nat.le_refl _) (h rest ts hdelimits hrest))

theorem lexes_members {members : Members} (h : ∀ m ∈ members, LexesWell m.2) (hrest : Lexes rest ts)
    (hdelimits : Delimits rest) :
    Lexes (renderChars.renderMembers members ++ rest) (tokensOf.ofMembers members ++ ts) := by
  induction members with
  | nil => exact hrest
  | cons m members ih =>
    have hm := h m List.mem_cons_self
    cases members with
    | nil => simpa [renderChars.renderMembers, tokensOf.ofMembers] using lexes_member hm hrest hdelimits
    | cons n members =>
      have hmembers := ih fun k hk => h k (List.mem_cons_of_mem _ hk)
      have hcomma := lexes_member hm (lexes_cons rfl (Nat.le_refl _) hmembers) (.comma _)
      simpa [renderChars.renderMembers, tokensOf.ofMembers] using hcomma

theorem lexesWell_of_proper (h : v.Proper) (hdoubles : ∀ x ∈ v.doubles, x.IsLegible) : LexesWell v := by
  induction h with
  | null =>
    intro rest ts _ hrest
    exact lexes_append rfl (by decide) hrest
  | bool b =>
    intro rest ts _ hrest
    cases b <;> exact lexes_append rfl (by decide) hrest
  | int n low high =>
    intro rest ts hdelimits hrest
    have halone := spanToken?_int low high .nil
    rw [List.append_nil] at halone
    exact lexes_append (spanToken?_int low high hdelimits) (ne_nil_of_spanToken? halone) hrest
  | float x finite =>
    intro rest ts hdelimits hrest
    have hlegible := hdoubles x List.mem_cons_self
    exact lexes_append (spanToken?_append hdelimits hlegible) (ne_nil_of_spanToken? hlegible) hrest
  | text s => exact fun rest ts _ hrest => lexes_text s hrest
  | list items _ ih =>
    intro rest ts _ hrest
    have hitems := lexes_items (fun v hv => ih v hv fun x hx => hdoubles x (Value.mem_doubles_list hv hx))
      (lexes_cons rfl (Nat.le_refl _) hrest) (.closeList rest)
    have hlist := lexes_cons (c := '[') rfl (Nat.le_refl _) hitems
    simpa [renderChars, tokensOf] using hlist
  | object members _ _ ih =>
    intro rest ts _ hrest
    have hmembers := lexes_members (fun m hm => ih m hm fun x hx => hdoubles x (Value.mem_doubles_object hm hx))
      (lexes_cons rfl (Nat.le_refl _) hrest) (.closeTable rest)
    have hobject := lexes_cons (c := '\x7b') rfl (Nat.le_refl _) hmembers
    simpa [renderChars, tokensOf] using hobject

theorem tokens_render (h : v.Proper) (hdoubles : ∀ x ∈ v.doubles, x.IsLegible) : tokens (render v) = tokensOf v := by
  have hlexes := lexesWell_of_proper h hdoubles [] [] .nil lexes_nil
  rw [List.append_nil, List.append_nil] at hlexes
  rw [tokens, render, String.toList_ofList]
  exact hlexes _ (by simp)

end Json

end PhasedWorkload
