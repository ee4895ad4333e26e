import PhasedWorkload.Proofs.Barrier.Passage

/-! # Lockstep

The participants of an ensemble move in lockstep. What has happened to each of them agrees with its place,
and every section keeps that. Who was given a phase, and who was released from its end, is then known to
have come after the arrivals of all, since the places of all are near the round.
-/
namespace PhasedWorkload

open Barrier

variable {b c : Barrier} {places : List ℕ} {past new : List Happening} {who k m n : ℕ} {s t : Stance}
  {w : Option Wait}

/-! ## What every participant keeps -/

theorem givenTo_cons (who : ℕ) (h : Happening) (past : List Happening) :
    givenTo who (h :: past) = givenTo who past ++ (h.given? who).toList := by
  simp only [givenTo, List.reverse_cons, List.filterMap_append]
  cases hg : h.given? who <;> simp [hg]

theorem givenTo_append (hnew : ∀ x ∈ new, x.given? who = none) (past : List Happening) :
    givenTo who (new ++ past) = givenTo who past := by
  induction new with
  | nil => rfl
  | cons x new ih =>
    rw [List.cons_append, givenTo_cons, hnew x List.mem_cons_self, ih fun y hy => hnew y (List.mem_cons_of_mem _ hy)]
    simp

theorem Passage.givenTo {k' m' : ℕ} (hp : Passage who c k m k' m' s w new)
    (h : givenTo who past = List.range m) : PhasedWorkload.givenTo who (new ++ past) = List.range m' := by
  cases hp <;> simp [givenTo_cons, Happening.given?, h, List.range_succ]

theorem Passage.arrived_iff {k' m' : ℕ} (hp : Passage who c k m k' m' s w new)
    (h : ∀ n, .arrived who n ∈ past ↔ 2 * n + 1 ≤ k) (n : ℕ) :
    .arrived who n ∈ new ++ past ↔ 2 * n + 1 ≤ k' := by
  cases hp <;> simp [h] <;> omega

theorem Passage.closed_iff {k' m' : ℕ} (hp : Passage who c k m k' m' s w new)
    (h : ∀ n, .closed who n ∈ past ↔ 2 * n + 2 ≤ k) (n : ℕ) :
    .closed who n ∈ new ++ past ↔ 2 * n + 2 ≤ k' := by
  cases hp <;> simp [h] <;> omega

theorem Passage.who_eq {k' m' : ℕ} (hp : Passage who c k m k' m' s w new) {x : Happening} (hx : x ∈ new) :
    x.who = who := by
  cases hp <;> simp at hx <;> rcases hx with rfl | rfl <;> rfl

/-- What has happened to a participant agrees with its place. -/
structure Stands (b : Barrier) (past : List Happening) (who k : ℕ) (s : Stance) (w : Option Wait) : Prop where
  ordered : givenTo who past = List.range (givenTo who past).length
  stance : b.errored = false → s.At b k (givenTo who past).length w
  inside : ∀ n, s = .inside n → k = 2 * n + 1 ∧ n < b.starts ∧ w = none
  arrived : ∀ n, .arrived who n ∈ past ↔ 2 * n + 1 ≤ k
  closed : ∀ n, 2 * n + 2 ≤ k → .closed who n ∈ past
  place_le : b.errored = false → ∀ n, .closed who n ∈ past → 2 * n + 2 ≤ k

namespace Stands

/-- What happens to others and at a later state of the barrier leaves a participant where it is. -/
theorem other (h : Stands b past who k s w) (hbc : Precedes b c) (hnew : ∀ x ∈ new, x.who ≠ who) :
    Stands c (new ++ past) who k s w := by
  have hgiven : givenTo who (new ++ past) = givenTo who past := by
    apply givenTo_append
    intro x hx
    have := hnew x hx
    cases x <;> simp_all [Happening.given?, Happening.who]
  have hmem : ∀ x : Happening, x.who = who → (x ∈ new ++ past ↔ x ∈ past) := by
    intro x hx
    simp only [List.mem_append, or_iff_right_iff_imp]
    exact fun hm => absurd hx (hnew x hm)
  refine ⟨by rw [hgiven]; exact h.ordered, fun hc => ?_, fun n hn => ?_, fun n => ?_, fun n hn => ?_,
    fun hc n hn => ?_⟩
  · rw [hgiven]
    exact (h.stance (hbc.alive hc)).later hbc
  · obtain ⟨hk, hstarts, hw⟩ := h.inside n hn
    exact ⟨hk, hstarts.trans_le hbc.starts_le, hw⟩
  · rw [hmem _ rfl]
    exact h.arrived n
  · exact (hmem _ rfl).mpr (h.closed n hn)
  · exact h.place_le (hbc.alive hc) n ((hmem _ rfl).mp hn)

theorem closed_iff (h : Stands b past who k s w) (hb : b.errored = false) (n : ℕ) :
    .closed who n ∈ past ↔ 2 * n + 2 ≤ k := ⟨h.place_le hb n, h.closed n⟩

/-- A passage takes its participant from its place to the next, and what happens says so. -/
theorem passage (h : Stands b past who k s w) (hb : b.errored = false) {k' m' : ℕ} {s' : Stance}
    {w' : Option Wait} (hp : Passage who c k (givenTo who past).length k' m' s' w' new) :
    Stands c (new ++ past) who k' s' w' := by
  have hgiven := hp.givenTo h.ordered
  have hlen : (givenTo who (new ++ past)).length = m' := by rw [hgiven, List.length_range]
  have hclosed := hp.closed_iff (h.closed_iff hb)
  refine ⟨by rw [hlen, hgiven], fun _ => hlen ▸ hp.at, ?_, hp.arrived_iff h.arrived, fun n => (hclosed n).mpr,
    fun _ n => (hclosed n).mp⟩
  rintro n rfl
  cases hp.at with
  | inside _ running => exact ⟨rfl, running, rfl⟩

/-- After an abort a participant stays at its place; it may have called the end of its phase. -/
theorem refuse (h : Stands b past who k s w) {s' : Stance} (hc : c.errored = true) (hs : ∀ n, s' ≠ .inside n)
    (hnew : ∀ x ∈ new, ∃ n, x = .closed who n) (w' : Option Wait) : Stands c (new ++ past) who k s' w' := by
  have hgiven : givenTo who (new ++ past) = givenTo who past := by
    apply givenTo_append
    intro x hx
    obtain ⟨n, rfl⟩ := hnew x hx
    rfl
  refine ⟨by rw [hgiven]; exact h.ordered, fun hb => ?_, fun n hn => absurd hn (hs n), fun n => ?_, fun n hn => ?_,
    fun hb => ?_⟩
  · simp [hc] at hb
  · rw [← h.arrived n, List.mem_append, or_iff_right]
    intro hx
    obtain ⟨_, hx⟩ := hnew _ hx
    cases hx
  · exact List.mem_append_right _ (h.closed n hn)
  · simp [hc] at hb

end Stands

/-! ## What has come before -/

/-- What has to have happened before: all arrived before a phase is given, and all called its end before
anybody is released from it. -/
def Happening.Follows (required : ℕ) (before : List Happening) : Happening → Prop
  | .given _ phase => ∀ other < required, .arrived other phase ∈ before
  | .released _ phase => ∀ other < required, .closed other phase ∈ before
  | .arrived _ _ | .closed _ _ => True

def Grounded (required : ℕ) : List Happening → Prop
  | [] => True
  | x :: before => x.Follows required before ∧ Grounded required before

theorem Grounded.follows {required : ℕ} {x : Happening} {before : List Happening} :
    ∀ {after : List Happening}, Grounded required (after ++ x :: before) → x.Follows required before
  | [], h => h.1
  | _ :: _, h => Grounded.follows h.2

theorem Grounded.append_closed {required : ℕ} (hpast : Grounded required past)
    (hnew : ∀ x ∈ new, ∃ n, x = .closed who n) : Grounded required (new ++ past) := by
  induction new with
  | nil => exact hpast
  | cons x new ih =>
    obtain ⟨n, rfl⟩ := hnew x List.mem_cons_self
    exact ⟨trivial, ih fun y hy => hnew y (List.mem_cons_of_mem _ hy)⟩

/-- A passage comes after what it needs once the arrivals and the calls of all are known. -/
theorem Passage.grounded {required k' m' : ℕ} (hp : Passage who c k m k' m' s w new)
    (hpast : Grounded required past)
    (harr : ∀ n < c.starts, ∀ other < required, .arrived other n ∈ new ++ past)
    (hclo : ∀ n < c.ends, ∀ other < required, .closed other n ∈ new ++ past) :
    Grounded required (new ++ past) := by
  cases hp with
  | wait | advance => exact hpast
  | assemble | close | leave => exact ⟨trivial, hpast⟩
  | begin n running =>
    refine ⟨fun other ho => ?_, trivial, hpast⟩
    simpa using harr _ running other ho
  | give n running =>
    refine ⟨fun other ho => ?_, hpast⟩
    simpa using harr _ running other ho
  | finish n passed =>
    refine ⟨fun other ho => ?_, trivial, hpast⟩
    simpa using hclo n passed other ho
  | release n passed =>
    refine ⟨fun other ho => ?_, hpast⟩
    simpa using hclo n passed other ho

namespace Ensemble

/-- All participants stand at their places. -/
structure Ordered (e : Ensemble) (places : List ℕ) : Prop where
  tally : Tally e.crowd.barrier places
  stances : e.stances.length = places.length
  callers : e.crowd.callers.length = places.length
  stands : ∀ i k s, places[i]? = some k → e.stances[i]? = some s →
    Stands e.crowd.barrier e.past i k s (e.crowd.wait? i)

variable {e : Ensemble}

theorem Ordered.exists_place (h : e.Ordered places) (hs : e.stances[who]? = some s) :
    ∃ k, places[who]? = some k ∧ Stands e.crowd.barrier e.past who k s (e.crowd.wait? who) := by
  obtain ⟨hi, _⟩ := List.getElem?_eq_some_iff.mp hs
  have hk := List.getElem?_eq_getElem (h.stances ▸ hi)
  exact ⟨_, hk, h.stands who _ s hk hs⟩

theorem Ordered.exists_stance (h : e.Ordered places) (hi : who < places.length) :
    ∃ k s, k ∈ places ∧ e.stances[who]? = some s ∧
      Stands e.crowd.barrier e.past who k s (e.crowd.wait? who) := by
  have hs := List.getElem?_eq_getElem (h.stances.symm ▸ hi)
  obtain ⟨k, hk, hstands⟩ := h.exists_place hs
  exact ⟨k, _, List.mem_of_getElem? hk, hs, hstands⟩

theorem Ordered.arrived (h : e.Ordered places) (hn : n < e.crowd.barrier.starts) :
    ∀ other < places.length, .arrived other n ∈ e.past := by
  intro other ho
  obtain ⟨k, s, hk, _, hstands⟩ := h.exists_stance ho
  exact (hstands.arrived n).mpr (h.tally.le_of_lt_starts hn hk)

theorem Ordered.closed (h : e.Ordered places) (hn : n < e.crowd.barrier.ends) :
    ∀ other < places.length, .closed other n ∈ e.past := by
  intro other ho
  obtain ⟨k, s, hk, _, hstands⟩ := h.exists_stance ho
  exact hstands.closed n (h.tally.le_of_lt_ends hn hk)

theorem Ordered.update (h : e.Ordered places) {v : Visit} (hv : Precedes e.crowd.barrier v.barrier)
    (ht : Tally v.barrier (places.set who k)) (hnew : ∀ x ∈ new, x.who = who)
    (hself : Stands v.barrier (new ++ e.past) who k s (Crowd.waitOf v.outcome)) (hi : who < places.length) :
    Ordered ⟨e.crowd.record who v, e.stances.set who s, new ++ e.past⟩ (places.set who k) := by
  refine ⟨ht, by simp [h.stances], by simp [Crowd.length_record, h.callers], ?_⟩
  refine forall_set h.stands h.stances hi ?_ ?_
  · rw [Crowd.wait?_record_self _ _ (h.callers.symm ▸ hi)]
    exact hself
  · intro i k' s' hne hs
    rw [Crowd.wait?_record_ne _ _ hne]
    exact hs.other hv fun x hx => (hnew x hx).trans_ne hne.symm

def Orderly (e : Ensemble) : Prop := ∃ places, e.Ordered places ∧ Grounded places.length e.past

theorem Orderly.record_passes (h : e.Ordered places) (hg : Grounded places.length e.past)
    (hb : e.crowd.barrier.errored = false) (hs : Stands e.crowd.barrier e.past who k s w)
    (hi : who < places.length) {called : List Happening} {v : Visit}
    (hv : Precedes e.crowd.barrier v.barrier)
    (hp : Passes who e.crowd.barrier k (givenTo who e.past).length t called places v) :
    (e.record who t called (e.crowd.record who v, Crowd.answer? v)).Orderly := by
  obtain ⟨k', m', ht, hpass⟩ := hp
  have ho := h.update hv ht (fun _ hx => hpass.who_eq hx) (hs.passage hb hpass) hi
  have hlen : (places.set who k').length = places.length := List.length_set
  refine ⟨places.set who k', ho, ?_⟩
  rw [hlen]
  exact hpass.grounded hg (fun n hn => hlen ▸ ho.arrived hn) (fun n hn => hlen ▸ ho.closed hn)

theorem Orderly.record_refuses (h : e.Ordered places) (hg : Grounded places.length e.past)
    (hk : places[who]? = some k) (hs : Stands e.crowd.barrier e.past who k s w) {called : List Happening}
    (hcalled : ∀ x ∈ called, ∃ n, x = .closed who n) {v : Visit} (hv : Precedes e.crowd.barrier v.barrier)
    (hr : Refuses who e.crowd.barrier t called places v) :
    (e.record who t called (e.crowd.record who v, Crowd.answer? v)).Orderly := by
  obtain ⟨ht, hb, hin, hpast⟩ := hr
  obtain ⟨hi, _⟩ := List.getElem?_eq_some_iff.mp hk
  have hsame := set_same hk
  have ho := h.update hv (hsame.symm ▸ ht)
    (fun x hx => by obtain ⟨n, rfl⟩ := hcalled x hx; rfl) (hs.refuse hb hin hcalled _) hi
  rw [hsame] at ho
  have hg' := hg.append_closed hcalled
  rw [← hpast] at ho hg'
  exact ⟨places, ho, hg'⟩

/-- What a section does depends on whether the run has been aborted. -/
theorem Orderly.record_section (h : e.Ordered places) (hg : Grounded places.length e.past)
    (hk : places[who]? = some k) (hs : Stands e.crowd.barrier e.past who k s w) {called : List Happening}
    (hcalled : ∀ x ∈ called, ∃ n, x = .closed who n) {v : Visit} (hv : Precedes e.crowd.barrier v.barrier)
    (hpasses : e.crowd.barrier.errored = false →
      Passes who e.crowd.barrier k (givenTo who e.past).length t called places v)
    (hrefuses : e.crowd.barrier.errored = true → Refuses who e.crowd.barrier t called places v) :
    (e.record who t called (e.crowd.record who v, Crowd.answer? v)).Orderly := by
  cases hb : e.crowd.barrier.errored with
  | true => exact Orderly.record_refuses h hg hk hs hcalled hv (hrefuses hb)
  | false => exact Orderly.record_passes h hg hb hs (List.getElem?_eq_some_iff.mp hk).1 hv (hpasses hb)

theorem orderly_opening (required maxPhase : ℕ) : (opening required maxPhase).Orderly := by
  refine ⟨List.replicate required 0, ⟨Tally.opening required maxPhase, by simp [opening], by simp [opening], ?_⟩,
    trivial⟩
  intro i k s hk hs
  simp only [opening, List.getElem?_replicate, Option.ite_none_right_eq_some, Option.some.injEq] at hk hs
  obtain ⟨hi, rfl⟩ := hk
  obtain ⟨_, rfl⟩ := hs
  have hw : (opening required maxPhase).crowd.wait? i = none := by simp [opening, Crowd.wait?, hi]
  rw [hw]
  refine ⟨rfl, fun _ => .outside 0 (Nat.zero_le _), fun n hn => ?_, fun n => ?_, fun n hn => ?_, fun _ n hn => ?_⟩
  · cases hn
  · simp [opening]
  · omega
  · simp [opening] at hn

theorem Orderly.abort (h : e.Orderly) : Orderly { e with crowd := e.crowd.abort } := by
  obtain ⟨places, ho, hg⟩ := h
  refine ⟨places, ⟨ho.tally.abort, ho.stances, by simp [Crowd.abort, Crowd.length_notify, ho.callers], ?_⟩, hg⟩
  intro i k s hk hs
  have hw : e.crowd.abort.wait? i = e.crowd.wait? i := Crowd.wait?_notify e.crowd _ i
  rw [hw]
  have hnothing : ∀ x ∈ ([] : List Happening), x.who ≠ i := nofun
  exact (ho.stands i k s hk hs).other (precedes_abort e.crowd.barrier) hnothing

theorem Orderly.step (h : e.Orderly) (a : Action) : (e.step a).Orderly := by
  obtain ⟨places, ho, hg⟩ := h
  have hstay : e.Orderly := ⟨places, ho, hg⟩
  cases a with
  | abort => exact hstay.abort
  | call who call =>
    cases hs : e.stances[who]? with
    | none => simpa only [Ensemble.step, hs] using hstay
    | some s =>
      cases ht : s.enter? call with
      | none => simpa only [Ensemble.step, hs, ht] using hstay
      | some t =>
        simp only [Ensemble.step, hs, ht]
        obtain ⟨k, hk, hstands⟩ := ho.exists_place hs
        have hcalled : ∀ x ∈ s.called who call, ∃ n, x = .closed who n := by
          intro x hx
          cases s <;> cases call <;> simp [Stance.called] at hx
          exact ⟨_, hx⟩
        refine Orderly.record_section ho hg hk hstands hcalled (precedes_enter _ call) (fun hb => ?_)
          fun hb => refuses_enter ho.tally hb who ht
        have hat := hstands.stance hb
        rw [hat.wait_eq_none ht] at hat
        exact passes_enter ho.tally hk hb hat ht
  | wake who =>
    cases hs : e.stances[who]? with
    | none => simpa only [Ensemble.step, hs] using hstay
    | some s =>
      cases hbusy : e.crowd.isBusy who with
      | false => simpa [Ensemble.step, hs, hbusy] using hstay
      | true =>
        obtain ⟨w, hw⟩ := Crowd.exists_wait? hbusy
        simp only [Ensemble.step, hs, hbusy, ↓reduceIte, Crowd.wake_eq hw]
        obtain ⟨k, hk, hstands⟩ := ho.exists_place hs
        rw [hw] at hstands
        have hnot : ∀ n, s ≠ .inside n := fun n hn => nomatch (hstands.inside n hn).2.2
        exact Orderly.record_section ho hg hk hstands (by simp) (precedes_wake _ w)
          (fun hb => passes_wake ho.tally hk hb (hstands.stance hb))
          fun hb => refuses_wake ho.tally hb who hnot

theorem Orderly.run (h : e.Orderly) (actions : List Action) : (e.run actions).Orderly := by
  induction actions generalizing e with
  | nil => exact h
  | cons a actions ih => exact ih (h.step a)

/-! ## The laws of lockstep -/

theorem length_stances_step (e : Ensemble) (a : Action) : (e.step a).stances.length = e.stances.length := by
  cases a with
  | abort => rfl
  | call who call =>
    simp only [Ensemble.step]
    split
    · rfl
    · split
      · rfl
      · exact List.length_set
  | wake who =>
    simp only [Ensemble.step]
    split
    · rfl
    · split
      · exact List.length_set
      · rfl

theorem length_stances_run (e : Ensemble) (actions : List Action) :
    (e.run actions).stances.length = e.stances.length := by
  induction actions generalizing e with
  | nil => rfl
  | cons a actions ih => exact (ih (e.step a)).trans (length_stances_step e a)

theorem mem_record_closed (e : Ensemble) (who other n : ℕ) (t : Stance) (called : List Happening)
    (result : Crowd × Option Answer) : .closed other n ∈ (e.record who t called result).past ↔
      .closed other n ∈ called ∨ .closed other n ∈ e.past := by
  have hanswered : .closed other n ∉ t.answered who result.2 := by
    unfold Stance.answered
    split <;> simp
  have hcounted : .closed other n ∉ Happening.counted who e.crowd.barrier result.1.barrier := by
    unfold Happening.counted
    split <;> simp
  simp [record, hanswered, hcounted]

theorem Orderly.inside_eq (h : e.Orderly) {p : ℕ} (hs : e.stances[who]? = some (.inside p)) :
    p = e.currentPhase := by
  obtain ⟨places, ho, _⟩ := h
  obtain ⟨k, hk, hstands⟩ := ho.exists_place hs
  obtain ⟨rfl, hstarts, _⟩ := hstands.inside p rfl
  exact ((ho.tally.running_of_lt_starts hk hstarts).2.symm).trans ho.tally.sound.phase.symm

/-- While the run goes on, the current phase is past a phase exactly when everybody has called its end. -/
theorem Orderly.lt_currentPhase_iff (h : e.Orderly) (ha : e.isAborted = false) (hpos : 0 < e.stances.length) :
    n < e.currentPhase ↔ ∀ other < e.stances.length, .closed other n ∈ e.past := by
  obtain ⟨places, ho, _⟩ := h
  have hreq : 0 < e.crowd.barrier.required := by
    rw [← ho.tally.everybody, ← ho.stances]
    exact hpos
  have hb : e.crowd.barrier.errored = false := ho.tally.sound.aborted.symm.trans ha
  rw [currentPhase, ho.tally.sound.phase, ho.stances]
  constructor
  · exact fun hn => ho.closed hn
  · intro hall
    refine (ho.tally.lt_ends_iff hreq).mpr fun k hk => ?_
    obtain ⟨i, hi⟩ := List.getElem?_of_mem hk
    have hlt := (List.getElem?_eq_some_iff.mp hi).1
    have hs := List.getElem?_eq_getElem (ho.stances.symm ▸ hlt)
    exact (ho.stands i k _ hi hs).place_le hb n (hall i hlt)

theorem step_finish {p : ℕ} (waits : Bool) (hs : e.stances[who]? = some (.inside p)) :
    ∃ t, e.step (.call who (.finish waits)) =
      e.record who t [.closed who p] (e.crowd.enter who (.finish waits)) := by
  cases waits with
  | false => exact ⟨.left p, by simp only [Ensemble.step, hs, Stance.enter?, Stance.called]⟩
  | true => exact ⟨.ending p, by simp only [Ensemble.step, hs, Stance.enter?, Stance.called]⟩

/-- Calling the end of a phase moves the current phase on exactly when all others have called it. -/
theorem Orderly.currentPhase_finish (h : e.Orderly) {p : ℕ} (waits : Bool)
    (hs : e.stances[who]? = some (.inside p)) (ha : e.isAborted = false) :
    ((e.step (.call who (.finish waits))).currentPhase = e.currentPhase ∨
      (e.step (.call who (.finish waits))).currentPhase = e.currentPhase + 1) ∧
    (e.currentPhase < (e.step (.call who (.finish waits))).currentPhase ↔
      ∀ other < e.stances.length, other ≠ who → .closed other p ∈ e.past) := by
  have hp := h.inside_eq hs
  have h' := h.step (.call who (.finish waits))
  have hlen := length_stances_step e (.call who (.finish waits))
  obtain ⟨places, ho, _⟩ := h
  obtain ⟨places', ho', _⟩ := id h'
  have hpos : 0 < e.stances.length := (Nat.zero_le who).trans_lt (List.getElem?_eq_some_iff.mp hs).1
  obtain ⟨t, ht⟩ := step_finish waits hs
  rw [ht] at h' ho' hlen ⊢
  have hmem := fun other => mem_record_closed e who other p t [.closed who p] (e.crowd.enter who (.finish waits))
  have hb : e.crowd.barrier.errored = false := ho.tally.sound.aborted.symm.trans ha
  have ha' : (e.record who t [.closed who p] (e.crowd.enter who (.finish waits))).isAborted = false :=
    ho'.tally.sound.aborted.trans ((errored_enter e.crowd.barrier _).trans hb)
  constructor
  · have hcases := publishedPhase_finish e.crowd.barrier waits
    rwa [← ho.tally.sound.phase] at hcases
  · rw [← hp, h'.lt_currentPhase_iff ha' (hlen.symm ▸ hpos), hlen]
    constructor
    · intro hall other hother hne
      have := (hmem other).mp (hall other hother)
      simpa [hne] using this
    · intro hall other hother
      refine (hmem other).mpr ?_
      rcases eq_or_ne other who with rfl | hne
      · exact Or.inl List.mem_cons_self
      · exact Or.inr (hall other hother hne)

theorem currentPhase_step_of_ne (e : Ensemble) (a : Action)
    (ha : ∀ who waits p, a = .call who (.finish waits) → e.stances[who]? ≠ some (.inside p)) :
    (e.step a).currentPhase = e.currentPhase := by
  cases a with
  | abort => rfl
  | wake who =>
    simp only [Ensemble.step]
    split
    · rfl
    · split
      · next hbusy =>
        obtain ⟨w, hw⟩ := Crowd.exists_wait? hbusy
        rw [Crowd.wake_eq hw]
        exact publishedPhase_wake e.crowd.barrier w
      · rfl
  | call who call =>
    simp only [Ensemble.step]
    split
    · rfl
    · next s hs =>
      split
      · rfl
      · next t ht =>
        refine publishedPhase_enter e.crowd.barrier ?_
        rintro waits rfl
        cases s <;> simp [Stance.enter?] at ht
        exact ha who waits _ rfl hs

/-- The current phase moves on, by one, exactly when the last participant calls its end. -/
theorem Orderly.currentPhase_step (h : e.Orderly) (a : Action) :
    (e.IsLastEnd a → (e.step a).currentPhase = e.currentPhase + 1) ∧
    (¬e.IsLastEnd a → (e.step a).currentPhase = e.currentPhase) := by
  constructor
  · rintro ⟨ha, who, waits, rfl, hs, hall⟩
    obtain ⟨hcases, hiff⟩ := h.currentPhase_finish waits hs ha
    have := hiff.mpr hall
    omega
  · intro hnot
    by_cases hend : ∃ who waits p, a = .call who (.finish waits) ∧ e.stances[who]? = some (.inside p)
    · obtain ⟨who, waits, p, rfl, hs⟩ := hend
      have hp := h.inside_eq hs
      cases ha : e.isAborted with
      | true =>
        obtain ⟨t, ht⟩ := step_finish waits hs
        obtain ⟨places, ho, _⟩ := h
        rw [ht]
        change (e.crowd.barrier.enter (.finish waits)).barrier.publishedPhase = _
        rw [enter_finish_aborted waits (ho.tally.sound.aborted.symm.trans ha)]
        rfl
      | false =>
        obtain ⟨hcases, hiff⟩ := h.currentPhase_finish waits hs ha
        have hless : ¬e.currentPhase < (e.step (.call who (.finish waits))).currentPhase := fun hlt =>
          hnot ⟨ha, who, waits, rfl, hp ▸ hs, hp ▸ hiff.mp hlt⟩
        omega
    · exact currentPhase_step_of_ne e a fun who waits p ha hs => hend ⟨who, waits, p, ha, hs⟩

/-- In every run of the participants that a barrier requires, whatever the order of their sections and
whenever it is aborted: each is given the phases 0, 1, 2 and so on; nobody is given a phase before all have
arrived at its start; nobody is inside a phase while another is inside a different one; nobody is released
from the end of a phase before all have called it; and the current phase moves on, by one, exactly when the
last of them calls its end. -/
theorem lockstep (required maxPhase : ℕ) (actions : List Action) :
    let e := (opening required maxPhase).run actions
    (∀ who < required, ∃ count, givenTo who e.past = List.range count) ∧
    (∀ who phase after before, e.past = after ++ .given who phase :: before →
      ∀ other < required, .arrived other phase ∈ before) ∧
    (∀ who other p q : ℕ, e.stances[who]? = some (.inside p) → e.stances[other]? = some (.inside q) → p = q) ∧
    (∀ who phase after before, e.past = after ++ .released who phase :: before →
      ∀ other < required, .closed other phase ∈ before) ∧
    ∀ a, (e.IsLastEnd a → (e.step a).currentPhase = e.currentPhase + 1) ∧
      (¬e.IsLastEnd a → (e.step a).currentPhase = e.currentPhase) := by
  intro e
  have h : e.Orderly := (orderly_opening required maxPhase).run actions
  obtain ⟨places, ho, hg⟩ := id h
  have hlen : places.length = required := by
    rw [← ho.stances, length_stances_run]
    exact List.length_replicate
  refine ⟨?_, ?_, ?_, ?_, h.currentPhase_step⟩
  · intro who hwho
    obtain ⟨k, s, _, _, hstands⟩ := ho.exists_stance (hlen.symm ▸ hwho)
    exact ⟨_, hstands.ordered⟩
  · intro who phase after before hpast
    rw [hpast, hlen] at hg
    exact hg.follows
  · intro who other p q hp hq
    exact (h.inside_eq hp).trans (h.inside_eq hq).symm
  · intro who phase after before hpast
    rw [hpast, hlen] at hg
    exact hg.follows

/-- One of two leaves the first phase early and waits at the next start until the other ends the phase. -/
example : (opening 2 0).run [.call 0 .start, .call 1 .start, .wake 0, .call 0 (.finish false), .call 0 .start,
      .wake 0, .call 1 (.finish true), .call 1 .start, .wake 0] =
    { crowd := ⟨{ required := 2, starts := 2, ends := 1, publishedPhase := 1, started := true },
        [none, some ⟨.started 1, true⟩]⟩
      stances := [.inside 1, .starting]
      past := [.given 0 1, .arrived 0 1, .arrived 1 1, .released 1 0, .closed 1 0, .closed 0 0, .given 0 0, .given 1 0,
        .arrived 1 0, .arrived 0 0] } := by decide

end Ensemble

end PhasedWorkload
