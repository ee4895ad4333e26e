import Mathlib.Algebra.Group.Nat.Defs
import Mathlib.Data.List.Basic
import PhasedWorkload.Telemetry.Bus

/-! # What a bus delivers

A bus keeps the latest of all events that were sent while somebody was subscribed. So a receiver is given the event
at its own place in this history, or is told how many it has missed if that event is not kept any more.
-/
namespace PhasedWorkload.Telemetry.Bus

variable {α : Type} {b : Bus α} {history : List α}

/-! ## The capacity -/

theorem doubleUntil_least {fuel i least : ℕ} (hbelow : ∀ j < i, 2 ^ j < least) (henough : least ≤ 2 ^ (i + fuel)) :
    ∃ k, doubleUntil fuel (2 ^ i) least = 2 ^ k ∧ least ≤ 2 ^ k ∧ ∀ j, least ≤ 2 ^ j → k ≤ j := by
  have hfirst : ∀ i, (∀ j < i, 2 ^ j < least) → ∀ j, least ≤ 2 ^ j → i ≤ j := by
    intro i hbelow j hj
    by_contra hlt
    exact absurd hj (Nat.not_le_of_lt (hbelow j (Nat.lt_of_not_le hlt)))
  induction fuel generalizing i with
  | zero => exact ⟨i, rfl, henough, hfirst i hbelow⟩
  | succ fuel ih =>
    unfold doubleUntil
    split
    · next hle => exact ⟨i, rfl, hle, hfirst i hbelow⟩
    · next hgt =>
      have hbelow' : ∀ j < i + 1, 2 ^ j < least := by
        intro j hj
        rcases Nat.lt_or_eq_of_le (Nat.le_of_lt_succ hj) with hlt | rfl
        · exact hbelow j hlt
        · exact Nat.lt_of_not_le hgt
      rw [← Nat.pow_succ']
      apply ih hbelow'
      rwa [Nat.add_right_comm]

/-- The capacity of a bus is the least power of two that is not less than the one that was asked for. -/
theorem roundedCapacity_least (least : ℕ) :
    ∃ k, roundedCapacity least = 2 ^ k ∧ least ≤ 2 ^ k ∧ ∀ j, least ≤ 2 ^ j → k ≤ j := by
  apply doubleUntil_least (i := 0)
  · exact fun j hj => absurd hj (Nat.not_lt_zero j)
  · rw [Nat.zero_add]
    exact Nat.le_of_lt Nat.lt_two_pow_self

/-! ## Receivers -/

theorem find?_others (receivers : List Receiver) (name other : String) :
    (receivers.filter fun r => r.name ≠ name).find? (fun r => r.name = other) =
      if other = name then none else receivers.find? fun r => r.name = other := by
  rw [List.find?_filter]
  by_cases h : other = name
  · rw [if_pos h, List.find?_eq_none]
    intro r _
    simp [h]
  · rw [if_neg h]
    congr 1
    funext r
    by_cases hr : r.name = other <;> simp [hr, h]

theorem find?_subscribe (b : Bus α) (name other : String) :
    (b.subscribe name).find? other = if other = name then some ⟨name, b.sent⟩ else b.find? other := by
  unfold subscribe find?
  rw [List.find?_append, find?_others]
  by_cases h : other = name
  · simp [h]
  · simp [h, Ne.symm h]

theorem find?_unsubscribe (b : Bus α) (name other : String) :
    (b.unsubscribe name).find? other = if other = name then none else b.find? other :=
  find?_others b.receivers name other

theorem find?_move (b : Bus α) (name other : String) (position : ℕ) :
    (b.move name position).find? other =
      if other = name then (b.find? name).map fun r => { r with position } else b.find? other := by
  have hname : ∀ r : Receiver, (if r.name = name then { r with position } else r).name = r.name := by
    intro r
    split <;> rfl
  unfold move find?
  rw [List.find?_map]
  have hsame : ((fun r : Receiver => decide (r.name = other)) ∘
      fun r => if r.name = name then { r with position } else r) = fun r => decide (r.name = other) := by
    funext r
    simp only [Function.comp_apply, hname]
  rw [hsame]
  by_cases h : other = name
  · subst h
    rw [if_pos rfl]
    refine Option.map_congr fun r hr => ?_
    rw [if_pos (by simpa using List.find?_some hr)]
  · rw [if_neg h]
    refine (Option.map_congr fun r hr => ?_).trans (congrFun Option.map_id _)
    have hother : r.name = other := by simpa using List.find?_some hr
    rw [if_neg (hother.symm ▸ h), id]

theorem name_of_find? {name : String} {r : Receiver} (h : b.find? name = some r) : r.name = name := by
  simpa using List.find?_some h

theorem send_steady (b : Bus α) (a : α) : (b.send a).1.receivers = b.receivers ∧ (b.send a).1.isOpen = b.isOpen ∧
    (b.send a).1.capacity = b.capacity := by
  unfold send
  split
  · exact ⟨rfl, rfl, rfl⟩
  · exact ⟨rfl, rfl, rfl⟩

theorem sent_le_send (b : Bus α) (a : α) : b.sent ≤ (b.send a).1.sent := by
  unfold send
  split
  · exact Nat.le_refl _
  · exact Nat.le_succ _

theorem send_unheard (h : b.receivers.isEmpty = true) (a : α) :
    (b.send a).1 = { b with unobserved := b.unobserved + 1 } := by
  rw [send, if_pos h]

theorem send_heard (h : b.receivers.isEmpty = false) (a : α) : (b.send a).1.unobserved = b.unobserved := by
  rw [send, if_neg (Bool.eq_false_iff.mp h)]

/-- Reading changes nothing but where the receiver stands. -/
theorem receive_cases (b : Bus α) (r : Receiver) :
    (b.receive r).1 = b ∨ ∃ position, (b.receive r).1 = b.move r.name position := by
  unfold receive
  split
  · exact .inr ⟨_, rfl⟩
  · split
    · exact .inr ⟨_, rfl⟩
    · exact .inl rfl

/-! ## The history -/

/-- The events that a bus has taken in, of which it keeps the latest. -/
structure Keeps (b : Bus α) (history : List α) : Prop where
  sent : b.sent = history.length
  kept : b.kept = history.drop (history.length - b.capacity)

namespace Keeps

theorem withCapacity (capacity : ℕ) : (Bus.withCapacity capacity : Bus α).Keeps [] := ⟨rfl, List.drop_nil.symm⟩

theorem congr {b' : Bus α} (h : b.Keeps history) (hsent : b'.sent = b.sent) (hkept : b'.kept = b.kept)
    (hcapacity : b'.capacity = b.capacity) : b'.Keeps history :=
  ⟨hsent.trans h.sent, by rw [hkept, hcapacity, h.kept]⟩

theorem oldest (h : b.Keeps history) : b.oldest = history.length - b.capacity := by
  rw [Bus.oldest, h.sent, h.kept, List.length_drop]
  omega

/-- An event is taken in if there is anybody to receive it. -/
theorem send (h : b.Keeps history) (a : α) :
    (b.send a).1.Keeps (history ++ if b.receivers.isEmpty then [] else [a]) := by
  unfold Bus.send
  split
  · exact ⟨by simpa using h.sent, by simpa using h.kept⟩
  · refine ⟨by simp [h.sent], ?_⟩
    have hkept : b.kept ++ [a] = (history ++ [a]).drop (history.length - b.capacity) := by
      rw [h.kept, List.drop_append_of_le_length (Nat.sub_le _ _)]
    simp only [hkept, List.drop_drop, List.length_drop, List.length_append, List.length_singleton]
    congr 1
    omega

/-- What a receiver is told depends on its place in the history. -/
theorem receive (h : b.Keeps history) (r : Receiver) :
    b.receive r =
      if r.position < history.length - b.capacity then
        (b.move r.name (history.length - b.capacity), .lagged (history.length - b.capacity - r.position))
      else history[r.position]?.elim (b, if b.isOpen then .empty else .closed) fun a =>
        (b.move r.name (r.position + 1), .event a) := by
  unfold Bus.receive
  rw [h.oldest]
  split
  · rfl
  · next hle =>
    have hplace : history.length - b.capacity + (r.position - (history.length - b.capacity)) = r.position := by omega
    rw [h.kept, List.getElem?_drop, hplace]
    cases history[r.position]? <;> rfl

end Keeps

end PhasedWorkload.Telemetry.Bus
