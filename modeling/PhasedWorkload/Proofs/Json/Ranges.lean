import PhasedWorkload.Json.Reading
import PhasedWorkload.Proofs.Json.Lexing

/-! # Ranges of integers in JSON text

Digits are taken in while they fit 64 bits, so no text has a tree with an integer beyond the range that a reader
accepts.
-/
namespace PhasedWorkload.Json

variable {negative : Bool} {cs rest : List Char} {n : Number} {t : Token}

def Number.InRange : Number → Prop
  | .int n => minSigned ≤ n ∧ n < wordBound
  | .float _ => True

theorem absorb_lt {significand : ℕ} (h : significand < wordBound) (digits : List Char) :
    (absorb significand digits).1 < wordBound := by
  induction digits generalizing significand with
  | nil => exact h
  | cons c digits ih =>
    simp only [absorb]
    split
    · next hnext => exact ih hnext
    · exact h

theorem inRange_integer (negative : Bool) {significand : ℕ} (h : significand < wordBound) :
    (integer negative significand).InRange := by
  unfold integer
  split_ifs with hsign hlow
  · exact ⟨by unfold minSigned; omega, Int.ofNat_lt.mpr h⟩
  · exact ⟨by omega, by unfold wordBound; omega⟩
  · exact True.intro

theorem inRange_float? {significand : ℕ} {places stated : ℤ} (h : float? negative significand places stated = some n) :
    n.InRange := by
  obtain ⟨x, _, rfl⟩ := Option.map_eq_some_iff.mp h
  exact True.intro

theorem inRange_spanNumber? (h : spanNumber? negative cs = some (n, rest)) : n.InRange := by
  have hwhole := absorb_lt (by decide : 0 < wordBound) (Binary64.spanDigits cs).1
  unfold spanNumber? at h
  dsimp only at h
  split at h
  · cases h
  · split at h
    · split at h
      · cases h
      · simp only [Option.bind_eq_bind, Option.bind_eq_some_iff, Option.pure_def, Option.some.injEq] at h
        obtain ⟨_, _, number, hnumber, heq⟩ := h
        obtain ⟨rfl, _⟩ := Prod.mk.inj heq
        exact inRange_float? hnumber
    · simp only [Option.bind_eq_bind, Option.bind_eq_some_iff, Option.pure_def] at h
      obtain ⟨_, _, h⟩ := h
      split at h
      · cases h
        exact inRange_integer negative hwhole
      · obtain ⟨number, hnumber, heq⟩ := Option.bind_eq_some_iff.mp h
        cases heq
        exact inRange_float? hnumber

theorem inRange_spanToken? (h : spanToken? cs = some (.number n, rest)) : n.InRange := by
  rcases spanNumber?_of_spanToken? h with ⟨tail, _, hnumber⟩ | hnumber
  · exact inRange_spanNumber? hnumber
  · exact inRange_spanNumber? hnumber

theorem inRange_tokensWithin {fuel : ℕ} (h : .number n ∈ tokensWithin fuel cs) : n.InRange := by
  induction fuel generalizing cs with
  | zero => cases h
  | succ fuel ih =>
    unfold tokensWithin at h
    split at h
    · cases h
    · split at h
      · next htoken =>
        rcases List.mem_cons.mp h with rfl | h
        · exact inRange_spanToken? htoken
        · exact ih h
      · cases List.mem_singleton.mp h

namespace Builder

variable {b : Builder} {frames : List Frame}

inductive FrameInRange : Frame → Prop where
  | list (items : List Node) (ranges : ∀ n ∈ items, n.InRange) : FrameInRange (.list items)
  | table (members : List (String × Node)) (key : Option String) (ranges : ∀ m ∈ members, m.2.InRange) :
    FrameInRange (.table members key)

structure InRange (b : Builder) : Prop where
  frames : ∀ frame ∈ b.frames, FrameInRange frame
  root : ∀ n, b.root = some n → n.InRange

theorem InRange.fail (h : b.InRange) : b.fail.InRange := ⟨h.frames, h.root⟩

theorem InRange.place (h : b.InRange) {n : Node} (hn : n.InRange) : (b.place n).InRange := by
  obtain ⟨frames, expectation, root, faulted⟩ := b
  unfold Builder.place
  split
  · exact ⟨h.frames, fun _ heq => Option.some.inj heq ▸ hn⟩
  · next items rest hframes =>
    obtain ⟨hfirst, hrest⟩ := List.forall_mem_cons.mp (hframes ▸ h.frames)
    cases hfirst with
    | list _ ranges =>
      exact ⟨List.forall_mem_cons.mpr ⟨.list _ (List.forall_mem_cons.mpr ⟨hn, ranges⟩), hrest⟩, h.root⟩
  · next members key rest hframes =>
    obtain ⟨hfirst, hrest⟩ := List.forall_mem_cons.mp (hframes ▸ h.frames)
    cases hfirst with
    | table _ _ ranges =>
      exact ⟨List.forall_mem_cons.mpr ⟨.table _ _ (List.forall_mem_cons.mpr ⟨hn, ranges⟩), hrest⟩, h.root⟩
  · exact h.fail

theorem InRange.openFrame (h : b.InRange) {frame : Frame} (hframe : FrameInRange frame) (expectation : Expectation) :
    (b.openFrame frame expectation).InRange := by
  unfold Builder.openFrame
  split
  · exact ⟨List.forall_mem_cons.mpr ⟨hframe, h.frames⟩, h.root⟩
  · exact h.fail

theorem InRange.close (h : b.InRange) (isList : Bool) : (b.close isList).InRange := by
  unfold Builder.close
  split
  · next items rest hframes =>
    obtain ⟨hfirst, hrest⟩ := List.forall_mem_cons.mp (hframes ▸ h.frames)
    cases hfirst with
    | list _ ranges =>
      have hrange := Node.InRange.list items.reverse true fun n hn => ranges n (List.mem_reverse.mp hn)
      exact InRange.place (b := { b with frames := rest }) ⟨hrest, h.root⟩ hrange
  · next members rest hframes =>
    obtain ⟨hfirst, hrest⟩ := List.forall_mem_cons.mp (hframes ▸ h.frames)
    cases hfirst with
    | table _ _ ranges =>
      have hrange := Node.InRange.table members.reverse true fun m hm => ranges m (List.mem_reverse.mp hm)
      exact InRange.place (b := { b with frames := rest }) ⟨hrest, h.root⟩ hrange
  · exact h.fail

theorem InRange.comma (h : b.InRange) : b.comma.InRange := by
  unfold Builder.comma
  split
  · exact ⟨h.frames, h.root⟩
  · exact ⟨h.frames, h.root⟩
  · exact h.fail

theorem InRange.key (h : b.InRange) (s : String) : (b.key s).InRange := by
  unfold Builder.key
  split
  · next members key rest hframes =>
    obtain ⟨hfirst, hrest⟩ := List.forall_mem_cons.mp (hframes ▸ h.frames)
    cases hfirst with
    | table _ _ ranges => exact ⟨List.forall_mem_cons.mpr ⟨.table _ _ ranges, hrest⟩, h.root⟩
  · exact h.fail

theorem InRange.value (h : b.InRange) (ht : ∀ n, t = .number n → n.InRange) : (b.value t).InRange := by
  unfold Builder.value
  split
  case h_1 => exact h.openFrame (.list _ (List.forall_mem_nil _)) _
  case h_2 => exact h.openFrame (.table _ _ (List.forall_mem_nil _)) _
  case h_3 => exact h.place .null
  case h_4 v => exact h.place (.bool v)
  case h_5 n => exact h.place (.int n (ht _ rfl).1 (ht _ rfl).2)
  case h_6 x => exact h.place (.float x)
  case h_7 s => exact h.place (.text s)
  case h_8 => exact h.fail

theorem InRange.step (h : b.InRange) (ht : ∀ n, t = .number n → n.InRange) : (b.step t).InRange := by
  unfold Builder.step
  split
  · exact h
  · split
    case h_1 | h_5 => exact h.close true
    case h_2 | h_3 => exact h.value ht
    case h_4 => exact h.comma
    case h_6 | h_7 => exact h.close false
    case h_8 | h_9 => exact h.key _
    case h_10 => exact ⟨h.frames, h.root⟩
    case h_11 => exact h.fail

theorem InRange.foldl (h : b.InRange) {tokens : List Token} (hnumbers : ∀ n, .number n ∈ tokens → n.InRange) :
    (tokens.foldl Builder.step b).InRange := by
  induction tokens generalizing b with
  | nil => exact h
  | cons t tokens ih =>
    refine ih (h.step fun n heq => hnumbers n (heq ▸ List.mem_cons_self)) fun n hn => hnumbers n ?_
    exact List.mem_cons_of_mem _ hn

theorem inRange_unfinished (hframes : ∀ frame ∈ frames, FrameInRange frame) {inner : Option Node}
    (hinner : ∀ n, inner = some n → n.InRange) : (unfinished frames inner).InRange := by
  have hbroken : ∀ {inner : Option Node}, (∀ n, inner = some n → n.InRange) → (inner.getD .broken).InRange := by
    intro inner hinner
    cases inner with
    | none => exact .broken
    | some n => exact hinner n rfl
  induction frames generalizing inner with
  | nil => exact hbroken hinner
  | cons frame frames ih =>
    obtain ⟨hfirst, hrest⟩ := List.forall_mem_cons.mp hframes
    cases hfirst with
    | list items ranges =>
      refine ih hrest fun n heq => ?_
      obtain rfl := Option.some.inj heq
      refine .list _ _ fun m hm => ?_
      rcases List.mem_append.mp (List.mem_reverse.mp hm) with hm | hm
      · exact hinner m (Option.mem_toList.mp hm)
      · exact ranges m hm
    | table members key ranges =>
      refine ih hrest fun n heq => ?_
      obtain rfl := Option.some.inj heq
      refine .table _ _ fun m hm => ?_
      rcases List.mem_append.mp (List.mem_reverse.mp hm) with hm | hm
      · obtain ⟨k, _, rfl⟩ := Option.map_eq_some_iff.mp (Option.mem_toList.mp hm)
        exact hbroken hinner
      · exact ranges m hm

theorem InRange.document (h : b.InRange) : b.document.root.InRange := by
  unfold Builder.document
  split
  · next root hroot => exact h.root root hroot
  · exact inRange_unfinished h.frames fun _ heq => by cases heq

end Builder

theorem inRange_read (s : String) : (read s).root.InRange := by
  have hstart : Builder.InRange {} := ⟨List.forall_mem_nil _, fun _ heq => by cases heq⟩
  exact (hstart.foldl fun _ hn => inRange_tokensWithin hn).document

end PhasedWorkload.Json
