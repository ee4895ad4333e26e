import Mathlib.Algebra.Order.BigOperators.Group.Finset
import PhasedWorkload.Proofs.Performer.Progress

/-! # The phases of a performer

A performer that goes on asking is given every phase once, in order, and is then told that the run is over.
Until then somebody is always free: what is left to do for all performers together goes down again and
again, and never up.
-/
namespace PhasedWorkload

open Barrier
open Participant (Reply)

variable {τ : Type}

namespace Performer

variable {b : Barrier} {places : List ℕ} {k m i : ℕ} {p : Performer τ}

def HasDecided (p : Performer τ) : Prop :=
  p.participant.finished = true ∨ ∃ wait, p.activity = .advancing .confirming wait

/-- Is about to start a phase, or is starting one. -/
def IsStarting (p : Performer τ) : Prop :=
  ∃ wait, p.activity = .advancing .arriving wait ∨ ∃ phase, p.activity = .advancing (.departing phase) wait

theorem Stands.given_le (h : p.Stands b k m) (hb : b.errored = false) : m ≤ b.maxPhase + 1 := by
  have hle := h.bounded
  have hk : 2 * m ≤ k + 1 := by
    cases hact : p.isAdvancing with
    | true =>
      obtain ⟨point, wait, hact⟩ := exists_advancing hact
      cases ((h.asking point wait hact).2 hb).2 <;> omega
    | false => cases h.resting hact hb <;> omega
  omega

/-- Whoever has decided that the run is over has been through all phases. -/
theorem Stands.place_of_decided (h : p.Stands b k m) (hb : b.errored = false) (hd : p.HasDecided) :
    k = 2 * b.maxPhase + 2 ∧ b.maxPhase < b.ends := by
  have hle := h.bounded
  rcases hd with hf | ⟨wait, hact⟩
  · have hact : p.isAdvancing = false := by
      cases hact : p.isAdvancing with
      | false => rfl
      | true => simp [finished_eq_false h hb hact] at hf
    cases h.resting hact hb with
    | fresh shows | inside _ shows _ | left _ shows => simp [shows.2.2] at hf
    | finished n _ passed last => omega
  · cases ((h.asking _ wait hact).2 hb).2 with
    | confirming n passed last => omega

/-- Nobody at the last meeting point has a phase to start. -/
theorem Stands.at_last (h : p.Stands b (2 * b.maxPhase + 2) m) (hb : b.errored = false) :
    m = b.maxPhase + 1 ∧ ¬p.IsStarting := by
  cases hact : p.isAdvancing with
  | false =>
    have hstarting : ¬p.IsStarting := by
      rintro ⟨wait, hact' | ⟨phase, hact'⟩⟩ <;> simp [isAdvancing, hact'] at hact
    refine ⟨?_, hstarting⟩
    generalize hk : 2 * b.maxPhase + 2 = k at h
    cases h.resting hact hb <;> omega
  | true =>
    obtain ⟨point, wait, hact⟩ := exists_advancing hact
    have hat := ((h.asking point wait hact).2 hb).2
    generalize hk : 2 * b.maxPhase + 2 = k at hat
    cases hat with
    | finishing | assembling | departing => omega
    | arriving n passed more => omega
    | ending | leaving | advancing | deciding | confirming =>
      refine ⟨by omega, ?_⟩
      rintro ⟨wait, hact' | ⟨phase, hact'⟩⟩ <;> simp [hact] at hact'

end Performer

namespace Troupe

variable {t : Troupe τ} {s : Stage} {participants : List (Participant τ)} {places : List ℕ} {i who : ℕ}
  {p : Performer τ} {a : Action} {schedule : ℕ → Action}

def isPhase : Reply → Bool
  | .phase _ => true
  | _ => false

def given (t : Troupe τ) (who : ℕ) : ℕ := (t.replies who).countP isPhase

theorem Told.given {m : ℕ} {knows : Bool} (h : Told m knows (t.replies who)) : t.given who = m := by
  obtain ⟨count, heq, _⟩ := h
  have hphases : ((List.range m).map Reply.phase).countP isPhase = m := by
    simp [List.countP_map, Function.comp_def, isPhase]
  rw [Troupe.given, heq, List.countP_append, hphases]
  simp [List.countP_replicate, isPhase]

theorem given_record (t : Troupe τ) (who i : ℕ) (r : World × Performer τ × Option Report) :
    (t.record who r).given i = t.given i + if i = who then phasesIn r.2.2 else 0 := by
  rw [given, replies_record, List.countP_append, given]
  split
  · rcases r.2.2 with _ | (_ | _ | _) | _ <;> rfl
  · rfl

/-! ## What is left to do -/

def weight (t : Troupe τ) (i : ℕ) : ℕ :=
  t.performers[i]?.elim 0 fun p => p.weight t.world.barrier (t.given i)

/-- What is left to do for all performers together. -/
def work (t : Troupe τ) : ℕ := ∑ i ∈ Finset.range t.performers.length, t.weight i

def IsFree (t : Troupe τ) (who : ℕ) : Prop := ∃ p, t.performers[who]? = some p ∧ p.IsFree t.world.barrier

/-- The performer asks for the next phase, or goes on with that. -/
def Presses (t : Troupe τ) (who : ℕ) (a : Action) : Prop :=
  ∃ p cue, t.performers[who]? = some p ∧ a = .cue who cue ∧ p.Presses cue

theorem weight_eq (hp : t.performers[i]? = some p) : t.weight i = p.weight t.world.barrier (t.given i) := by
  simp [weight, hp]

theorem step_cue (hp : t.performers[who]? = some p) (cue : Cue) :
    t.step (.cue who cue) = t.record who (p.follow t.world cue) := by
  simp only [step, hp, Option.elim_some]

theorem performers_record_self (hp : t.performers[who]? = some p) (r : World × Performer τ × Option Report) :
    (t.record who r).performers[who]? = some r.2.1 :=
  List.getElem?_set_self (List.getElem?_eq_some_iff.mp hp).1

theorem performers_record_ne (hne : i ≠ who) (r : World × Performer τ × Option Report) :
    (t.record who r).performers[i]? = t.performers[i]? :=
  List.getElem?_set_ne hne.symm

theorem weight_record_ne (hne : i ≠ who) {r : World × Performer τ × Option Report}
    (hmax : r.1.barrier.maxPhase = t.world.barrier.maxPhase) : (t.record who r).weight i = t.weight i := by
  have hweight : ∀ p : Performer τ, p.weight r.1.barrier (t.given i) = p.weight t.world.barrier (t.given i) :=
    fun p => by rw [Performer.weight, Performer.weight, hmax]
  rw [weight, weight, performers_record_ne hne, given_record, if_neg hne, Nat.add_zero]
  cases t.performers[i]? with
  | none => rfl
  | some p => exact hweight p

theorem length_record (t : Troupe τ) (who : ℕ) (r : World × Performer τ × Option Report) :
    (t.record who r).performers.length = t.performers.length := List.length_set

/-- Who follows a cue, and what is left for it to do before and after. -/
theorem Ordered.exists_weights (h : t.Ordered places) (hb : t.world.barrier.errored = false)
    (hp : t.performers[who]? = some p) (cue : Cue) :
    ∃ k m, places[who]? = some k ∧ p.Stands t.world.barrier k m ∧ t.weight who = p.weight t.world.barrier m ∧
      (t.record who (p.follow t.world cue)).weight who =
        (p.follow t.world cue).2.1.weight (p.follow t.world cue).1.barrier
          (m + phasesIn (p.follow t.world cue).2.2) := by
  obtain ⟨k, hk⟩ := h.exists_place hp
  obtain ⟨m, hstands, htold⟩ := h.stands who k p hk hp
  have hgiven : t.given who = m := (htold hb).given
  refine ⟨k, m, hk, hstands, ?_, ?_⟩
  · rw [weight_eq hp, hgiven]
  · rw [weight_eq (performers_record_self hp _), given_record, if_pos rfl, hgiven]
    rfl

theorem Ordered.weight_record_le (h : t.Ordered places) (hb : t.world.barrier.errored = false)
    (hp : t.performers[who]? = some p) (cue : Cue) (i : ℕ) :
    (t.record who (p.follow t.world cue)).weight i ≤ t.weight i := by
  obtain ⟨k, m, hk, hstands, hold, hnew⟩ := h.exists_weights hb hp cue
  rcases eq_or_ne i who with rfl | hne
  · rw [hold, hnew]
    exact (Performer.weight_follow hstands h.tally hk hb cue).1
  · exact (weight_record_ne hne (p.precedes_follow t.world cue).maxPhase_eq).le

theorem Ordered.work_record_le (h : t.Ordered places) (hb : t.world.barrier.errored = false)
    (hp : t.performers[who]? = some p) (cue : Cue) : (t.record who (p.follow t.world cue)).work ≤ t.work := by
  rw [work, work, length_record]
  exact Finset.sum_le_sum fun i _ => h.weight_record_le hb hp cue i

/-- Whoever is free and follows a cue goes nearer to the end or stays free, the latter only if it does not
press on. -/
theorem Ordered.work_record_lt (h : t.Ordered places) (hb : t.world.barrier.errored = false)
    (hp : t.performers[who]? = some p) (hfree : p.IsFree t.world.barrier) (cue : Cue) :
    (t.record who (p.follow t.world cue)).work < t.work ∨
      (t.record who (p.follow t.world cue)).IsFree who ∧ ¬p.Presses cue := by
  obtain ⟨k, m, hk, hstands, hold, hnew⟩ := h.exists_weights hb hp cue
  rcases (Performer.weight_follow hstands h.tally hk hb cue).2 hfree with hlt | ⟨hfree', hpress⟩
  · left
    have hwho : who ∈ Finset.range t.performers.length :=
      Finset.mem_range.mpr (List.getElem?_eq_some_iff.mp hp).1
    rw [work, work, length_record]
    exact Finset.sum_lt_sum (fun i _ => h.weight_record_le hb hp cue i) ⟨who, hwho, by rwa [hold, hnew]⟩
  · exact .inr ⟨⟨_, performers_record_self hp _, hfree'⟩, hpress⟩

theorem Ordered.isFree_record (h : t.Ordered places) (hb : t.world.barrier.errored = false) (hne : i ≠ who)
    (hfree : t.IsFree i) {r : World × Performer τ × Option Report}
    (hv : Precedes t.world.barrier r.1.barrier) : (t.record who r).IsFree i := by
  obtain ⟨q, hq, hfree⟩ := hfree
  obtain ⟨l, hl⟩ := h.exists_place hq
  obtain ⟨_, hstands, _⟩ := h.stands i l q hl hq
  exact ⟨q, (performers_record_ne hne _).trans hq, hfree.later hstands h.tally hl hb hv⟩

theorem presses_cue (hp : t.performers[who]? = some p) {cue : Cue} (hpress : t.Presses i (.cue who cue)) :
    i = who ∧ p.Presses cue := by
  obtain ⟨q, _, hq, heq, hpress⟩ := hpress
  cases heq
  cases hp.symm.trans hq
  exact ⟨rfl, hpress⟩

/-- Everybody goes nearer to the end or stays where it is. Whoever is free goes nearer or stays free, the
latter only as long as it does not press on. -/
theorem Ordered.work_step (h : t.Ordered places) (hb : t.world.barrier.errored = false) (ha : a ≠ .abort) :
    (t.step a).work ≤ t.work ∧
    ∀ i, t.IsFree i → (t.step a).work < t.work ∨ (t.step a).IsFree i ∧ ¬t.Presses i a := by
  cases a with
  | abort => exact absurd rfl ha
  | tick nanos =>
    refine ⟨le_rfl, fun i hfree => .inr ⟨hfree, ?_⟩⟩
    rintro ⟨_, _, _, heq, _⟩
    cases heq
  | cue who cue =>
    cases hp : t.performers[who]? with
    | none =>
      have hstep : t.step (.cue who cue) = t := by simp only [Troupe.step, hp, Option.elim_none]
      rw [hstep]
      refine ⟨le_rfl, fun i hfree => .inr ⟨hfree, ?_⟩⟩
      rintro ⟨q, _, hq, heq, _⟩
      cases heq
      cases hp.symm.trans hq
    | some p =>
      rw [step_cue hp]
      refine ⟨h.work_record_le hb hp cue, fun i hfree => ?_⟩
      rcases eq_or_ne i who with rfl | hne
      · obtain ⟨q, hq, hfree⟩ := hfree
        cases hp.symm.trans hq
        rcases h.work_record_lt hb hp hfree cue with hlt | ⟨hfree', hnot⟩
        · exact .inl hlt
        · exact .inr ⟨hfree', fun hpress => hnot (presses_cue hp hpress).2⟩
      · have hfree' := h.isFree_record hb hne hfree (p.precedes_follow t.world cue)
        exact .inr ⟨hfree', fun hpress => hne (presses_cue hp hpress).1⟩

/-- As long as somebody has not been told that the run is over, somebody is free. -/
theorem Ordered.exists_free (h : t.Ordered places) (hb : t.world.barrier.errored = false)
    (hp : t.performers[who]? = some p) (hf : p.participant.finished = false) : ∃ i, t.IsFree i := by
  -- Otherwise everybody would wait for others or be through, and so nobody would be left at the round.
  by_contra hnone
  have hahead : ∀ (i l : ℕ) (q : Performer τ), t.performers[i]? = some q → places[i]? = some l →
      q.participant.finished = false → t.world.barrier.Ahead l := by
    intro i l q hq hl hfinished
    obtain ⟨m, hstands, _⟩ := h.stands i l q hl hq
    refine hstands.ahead h.tally hl hb (Bool.eq_true_of_not_eq_false fun hstalled => ?_)
    exact hnone ⟨i, q, hq, hfinished, hstalled⟩
  have hall : ∀ l ∈ places, t.world.barrier.Ahead l ∨ t.world.barrier.Through l := by
    intro l hl
    obtain ⟨i, hi⟩ := List.getElem?_of_mem hl
    obtain ⟨q, hq⟩ := h.exists_performer hi
    obtain ⟨m, hstands, _⟩ := h.stands i l q hi hq
    cases hfinished : q.participant.finished with
    | false => exact .inl (hahead i l q hq hi hfinished)
    | true => exact .inr (hstands.through h.tally hi hb hfinished)
  obtain ⟨k, hk⟩ := h.exists_place hp
  exact h.tally.not_ahead hall (List.mem_of_getElem? hk) (hahead who k p hp hk hf)

/-! ## Endless schedules -/

/-- The troupe after so many actions of a schedule. -/
def after (t : Troupe τ) (schedule : ℕ → Action) : ℕ → Troupe τ
  | 0 => t
  | n + 1 => (t.after schedule n).step (schedule n)

/-- Asks for phases again and again, and goes on with that, until it is told that the run is over. -/
def Perseveres (t : Troupe τ) (schedule : ℕ → Action) (who : ℕ) : Prop :=
  ∀ n, ∃ n' ≥ n, (t.after schedule n').Presses who (schedule n') ∨ Reply.over ∈ (t.after schedule n').replies who

theorem length_step (t : Troupe τ) (a : Action) : (t.step a).performers.length = t.performers.length := by
  cases a with
  | abort => rfl
  | tick nanos => rfl
  | cue who cue =>
    cases hp : t.performers[who]? with
    | none => simp only [step, hp, Option.elim_none]
    | some p => rw [step_cue hp, length_record]

theorem precedes_step (t : Troupe τ) (a : Action) : Precedes t.world.barrier (t.step a).world.barrier := by
  cases a with
  | abort => exact precedes_abort t.world.barrier
  | tick nanos => exact .refl t.world.barrier
  | cue who cue =>
    cases hp : t.performers[who]? with
    | none =>
      simp only [step, hp, Option.elim_none]
      exact .refl t.world.barrier
    | some p =>
      rw [step_cue hp]
      exact p.precedes_follow t.world cue

theorem errored_step (t : Troupe τ) (ha : a ≠ .abort) :
    (t.step a).world.barrier.errored = t.world.barrier.errored := by
  cases a with
  | abort => exact absurd rfl ha
  | tick nanos => rfl
  | cue who cue =>
    cases hp : t.performers[who]? with
    | none => simp only [step, hp, Option.elim_none]
    | some p =>
      rw [step_cue hp]
      exact p.errored_follow t.world cue

theorem mem_replies_step {reply : Reply} (a : Action) (h : reply ∈ t.replies i) :
    reply ∈ (t.step a).replies i := by
  cases a with
  | abort => exact h
  | tick nanos => exact h
  | cue who cue =>
    cases hp : t.performers[who]? with
    | none => simpa only [step, hp, Option.elim_none] using h
    | some p =>
      rw [step_cue hp, replies_record]
      exact List.mem_append_left _ h

/-- Everything is in order at all times, and nobody aborts the run. -/
structure Undisturbed (t : Troupe τ) (schedule : ℕ → Action) : Prop where
  ordered : ∀ n, ∃ places, (t.after schedule n).Ordered places
  alive : ∀ n, (t.after schedule n).world.barrier.errored = false
  kept : ∀ n, schedule n ≠ .abort

theorem undisturbed_opening (h : s.Enlisted participants) (hkept : ∀ n, schedule n ≠ .abort) :
    (opening s participants).Undisturbed schedule := by
  refine ⟨fun n => ?_, fun n => ?_, hkept⟩
  · induction n with
    | zero => exact ⟨_, ordered_opening h⟩
    | succ n ih =>
      obtain ⟨places, ho⟩ := ih
      exact ho.step (schedule n)
  · induction n with
    | zero =>
      change s.barrier.errored = false
      rw [h.barrier]
    | succ n ih => exact (errored_step _ (hkept n)).trans ih

theorem length_after (t : Troupe τ) (schedule : ℕ → Action) (n : ℕ) :
    (t.after schedule n).performers.length = t.performers.length := by
  induction n with
  | zero => rfl
  | succ n ih => exact (length_step _ _).trans ih

theorem maxPhase_after (t : Troupe τ) (schedule : ℕ → Action) (n : ℕ) :
    (t.after schedule n).world.barrier.maxPhase = t.world.barrier.maxPhase := by
  induction n with
  | zero => rfl
  | succ n ih => exact (precedes_step _ _).maxPhase_eq.trans ih

theorem mem_replies_after {reply : Reply} {n n' : ℕ} (hn : n ≤ n')
    (h : reply ∈ (t.after schedule n).replies i) : reply ∈ (t.after schedule n').replies i := by
  induction n', hn using Nat.le_induction with
  | base => exact h
  | succ n' _ ih => exact mem_replies_step _ ih

theorem Ordered.over_iff (h : t.Ordered places) (hb : t.world.barrier.errored = false)
    (hp : t.performers[who]? = some p) : Reply.over ∈ t.replies who ↔ p.participant.finished = true := by
  obtain ⟨k, hk⟩ := h.exists_place hp
  obtain ⟨m, _, htold⟩ := h.stands who k p hk hp
  obtain ⟨count, heq, hover⟩ := htold hb
  rw [heq, ← hover, Nat.pos_iff_ne_zero]
  simp

namespace Undisturbed

variable {n n' : ℕ}

theorem work_le (h : t.Undisturbed schedule) (hn : n ≤ n') :
    (t.after schedule n').work ≤ (t.after schedule n).work := by
  induction n', hn using Nat.le_induction with
  | base => exact le_rfl
  | succ n' _ ih =>
    obtain ⟨places, ho⟩ := h.ordered n'
    exact (ho.work_step (h.alive n') (h.kept n')).1.trans ih

theorem work_lt_or_free (h : t.Undisturbed schedule) (hn : n ≤ n') (hfree : (t.after schedule n).IsFree i) :
    (t.after schedule n').work < (t.after schedule n).work ∨ (t.after schedule n').IsFree i := by
  induction n', hn using Nat.le_induction with
  | base => exact .inr hfree
  | succ n' _ ih =>
    obtain ⟨places, ho⟩ := h.ordered n'
    obtain ⟨hle, hstep⟩ := ho.work_step (h.alive n') (h.kept n')
    rcases ih with hlt | hfree'
    · exact .inl (hle.trans_lt hlt)
    · have hbefore := h.work_le ‹n ≤ n'›
      rcases hstep i hfree' with hlt | ⟨hfree'', _⟩
      · exact .inl (hlt.trans_le hbefore)
      · exact .inr hfree''

/-- Whoever is free and perseveres gets something done. -/
theorem exists_work_lt (h : t.Undisturbed schedule) (hfree : (t.after schedule n).IsFree i)
    (hgo : t.Perseveres schedule i) : ∃ n' ≥ n, (t.after schedule n').work < (t.after schedule n).work := by
  obtain ⟨n', hn, hpress⟩ := hgo n
  rcases h.work_lt_or_free hn hfree with hlt | hfree'
  · exact ⟨n', hn, hlt⟩
  · obtain ⟨places, ho⟩ := h.ordered n'
    rcases hpress with hpress | hover
    · rcases (ho.work_step (h.alive n') (h.kept n')).2 i hfree' with hlt | ⟨_, hnot⟩
      · exact ⟨n' + 1, hn.trans (Nat.le_succ n'), hlt.trans_le (h.work_le hn)⟩
      · exact absurd hpress hnot
    · obtain ⟨p, hp, hfree'⟩ := hfree'
      have hfinished := (ho.over_iff (h.alive n') hp).mp hover
      simp [hfree'.1] at hfinished

/-- If all persevere, all are told in the end that the run is over. -/
theorem exists_over (h : t.Undisturbed schedule) (hgo : ∀ who < t.performers.length, t.Perseveres schedule who)
    (n : ℕ) : ∃ last ≥ n, ∀ who < t.performers.length, Reply.over ∈ (t.after schedule last).replies who := by
  -- Whoever is free presses on some time, and then less is left to do than before.
  induction hw : (t.after schedule n).work using Nat.strong_induction_on generalizing n with
  | h w ih =>
    by_cases hall : ∀ who < t.performers.length, Reply.over ∈ (t.after schedule n).replies who
    · exact ⟨n, le_rfl, hall⟩
    · simp only [not_forall] at hall
      obtain ⟨who, hwho, hnot⟩ := hall
      obtain ⟨places, ho⟩ := h.ordered n
      have hp := List.getElem?_eq_getElem ((length_after t schedule n).symm ▸ hwho)
      have hf := fun hf => hnot ((ho.over_iff (h.alive n) hp).mpr hf)
      obtain ⟨i, hfree⟩ := ho.exists_free (h.alive n) hp (Bool.eq_false_of_not_eq_true hf)
      have hi : i < t.performers.length := by
        obtain ⟨q, hq, _⟩ := hfree
        exact length_after t schedule n ▸ (List.getElem?_eq_some_iff.mp hq).1
      obtain ⟨n', hn, hlt⟩ := h.exists_work_lt hfree (hgo i hi)
      obtain ⟨last, hlast, hover⟩ := ih _ (hw ▸ hlt) n' rfl
      exact ⟨last, hn.trans hlast, hover⟩

end Undisturbed

/-! ## Every phase once -/

theorem Ordered.exists_stands (h : t.Ordered places) (hwho : who < t.performers.length) :
    ∃ k m p, places[who]? = some k ∧ t.performers[who]? = some p ∧ p.Stands t.world.barrier k m ∧
      (t.world.barrier.errored = false → Told m p.participant.finished (t.replies who)) := by
  have hp := List.getElem?_eq_getElem hwho
  obtain ⟨k, hk⟩ := h.exists_place hp
  obtain ⟨m, hstands, htold⟩ := h.stands who k _ hk hp
  exact ⟨k, m, _, hk, hp, hstands, htold⟩

/-- The phases come in order and up to the last one, and nothing comes after the end of the run is known. -/
theorem Ordered.replies_eq (h : t.Ordered places) (hb : t.world.barrier.errored = false)
    (hwho : who < t.performers.length) :
    ∃ m count, t.replies who = (List.range m).map .phase ++ List.replicate count Reply.over ∧
      m ≤ t.world.barrier.maxPhase + 1 ∧ (0 < count → m = t.world.barrier.maxPhase + 1) := by
  obtain ⟨k, m, p, hk, hp, hstands, htold⟩ := h.exists_stands hwho
  obtain ⟨count, heq, hover⟩ := htold hb
  refine ⟨m, count, heq, hstands.given_le hb, fun hcount => ?_⟩
  obtain ⟨rfl, _⟩ := hstands.place_of_decided hb (.inl (hover.mp hcount))
  exact (hstands.at_last hb).1

/-- The current phase is never further than one past the last. -/
theorem Ordered.currentPhase_le (h : t.Ordered places) (hpos : 0 < t.performers.length) :
    t.currentPhase ≤ t.world.barrier.maxPhase + 1 := by
  have hreq : 0 < t.world.barrier.required := h.tally.everybody ▸ h.everybody ▸ hpos
  obtain ⟨i, hi⟩ := List.getElem?_of_mem (h.tally.exists_behind hreq)
  obtain ⟨p, hp⟩ := h.exists_performer hi
  obtain ⟨m, hstands, _⟩ := h.stands i _ p hi hp
  have hround := hstands.bounded
  have := h.tally.sound.ends_le
  rw [currentPhase, h.tally.sound.phase]
  unfold Barrier.round at hround
  omega

/-- When somebody has decided that the run is over, all phases are over and nobody starts one. -/
theorem Ordered.decided (h : t.Ordered places) (hb : t.world.barrier.errored = false)
    (hp : t.performers[who]? = some p) (hd : p.HasDecided) :
    t.currentPhase = t.world.barrier.maxPhase + 1 ∧ ∀ i q, t.performers[i]? = some q → ¬q.IsStarting ∧
      ∃ count, t.replies i =
        (List.range (t.world.barrier.maxPhase + 1)).map .phase ++ List.replicate count Reply.over := by
  obtain ⟨k, hk⟩ := h.exists_place hp
  obtain ⟨m, hstands, _⟩ := h.stands who k p hk hp
  obtain ⟨rfl, hends⟩ := hstands.place_of_decided hb hd
  have hle := h.tally.sound.ends_le
  have hnear := h.tally.near_of_getElem? hk
  unfold Barrier.round at hnear
  refine ⟨by rw [currentPhase, h.tally.sound.phase]; omega, fun i q hq => ?_⟩
  obtain ⟨l, hl⟩ := h.exists_place hq
  obtain ⟨n, hqstands, htold⟩ := h.stands i l q hl hq
  have hlast : l = 2 * t.world.barrier.maxPhase + 2 := by
    have hnear' := h.tally.near_of_getElem? hl
    have hbounded := hqstands.bounded
    unfold Barrier.round at hnear'
    omega
  subst hlast
  obtain ⟨rfl, hstarting⟩ := hqstands.at_last hb
  obtain ⟨count, heq, _⟩ := htold hb
  exact ⟨hstarting, count, heq⟩

theorem replies_askPhase (hp : t.performers[who]? = some p) (hrest : p.activity = .resting)
    (hf : p.participant.finished = true) :
    (t.step (.cue who .askPhase)).replies who = t.replies who ++ [Reply.over] := by
  rw [step_cue hp, replies_record, if_pos rfl, Performer.follow, if_pos hrest, Performer.askPhase_finished hf]
  rfl

/-- Participants that were made on one stage are each given the phases from the first to the last, once and
in order, and are then told that the run is over, however often they ask. This is so whatever they are
configured to do and in whatever order they take their steps, as long as each goes on asking and nobody
aborts the run. Nobody decides that the run is over while another has a phase to start, and the current
phase is past the last one as soon as anybody knows. -/
theorem every_phase_once (h : s.Enlisted participants) (hpos : 0 < participants.length)
    (hkept : ∀ n, schedule n ≠ .abort) :
    let last := s.barrier.maxPhase
    let t := (opening s participants).after schedule
    (∀ n, ∀ who < participants.length, ∃ m count,
      (t n).replies who = (List.range m).map .phase ++ List.replicate count Reply.over ∧ m ≤ last + 1 ∧
      (0 < count → m = last + 1)) ∧
    (∀ (n who : ℕ) (p : Performer τ), (t n).performers[who]? = some p → p.activity = .resting →
      Reply.over ∈ (t n).replies who →
        ((t n).step (.cue who .askPhase)).replies who = (t n).replies who ++ [Reply.over]) ∧
    (∀ (n who : ℕ) (p : Performer τ), (t n).performers[who]? = some p → p.HasDecided →
      ∀ (other : ℕ) (q : Performer τ), (t n).performers[other]? = some q → ¬q.IsStarting ∧
        ∃ count, (t n).replies other = (List.range (last + 1)).map .phase ++ List.replicate count Reply.over) ∧
    (∀ n, (t n).currentPhase ≤ last + 1 ∧
      ∀ who < participants.length, Reply.over ∈ (t n).replies who → (t n).currentPhase = last + 1) ∧
    ((∀ who < participants.length, (opening s participants).Perseveres schedule who) →
      ∃ done, ∀ n ≥ done, ∀ who < participants.length, ∃ count, 0 < count ∧
        (t n).replies who = (List.range (last + 1)).map .phase ++ List.replicate count Reply.over) := by
  intro last t
  have hu := undisturbed_opening h hkept
  have hlen : ∀ n, (t n).performers.length = participants.length := fun n =>
    (length_after _ _ n).trans (List.length_map _)
  have hmax : ∀ n, (t n).world.barrier.maxPhase = last := maxPhase_after _ _
  have hreplies : ∀ n, ∀ who < participants.length, ∃ m count,
      (t n).replies who = (List.range m).map .phase ++ List.replicate count Reply.over ∧ m ≤ last + 1 ∧
      (0 < count → m = last + 1) := by
    intro n who hwho
    obtain ⟨places, ho⟩ := hu.ordered n
    exact hmax n ▸ ho.replies_eq (hu.alive n) (hlen n ▸ hwho)
  refine ⟨hreplies, fun n who p hp hrest hover => ?_, fun n who p hp hd => ?_, fun n => ?_, fun hgo => ?_⟩
  · obtain ⟨places, ho⟩ := hu.ordered n
    exact replies_askPhase hp hrest ((ho.over_iff (hu.alive n) hp).mp hover)
  · obtain ⟨places, ho⟩ := hu.ordered n
    exact hmax n ▸ (ho.decided (hu.alive n) hp hd).2
  · obtain ⟨places, ho⟩ := hu.ordered n
    refine ⟨hmax n ▸ ho.currentPhase_le (hlen n ▸ hpos), fun who hwho hover => ?_⟩
    have hp := List.getElem?_eq_getElem (hlen n ▸ hwho)
    exact hmax n ▸ (ho.decided (hu.alive n) hp (.inl ((ho.over_iff (hu.alive n) hp).mp hover))).1
  · obtain ⟨done, _, hdone⟩ := hu.exists_over (fun who hwho => hgo who (hlen 0 ▸ hwho)) 0
    refine ⟨done, fun n hn who hwho => ?_⟩
    obtain ⟨m, count, heq, _, hover⟩ := hreplies n who hwho
    have hmem : Reply.over ∈ (t n).replies who := mem_replies_after hn (hdone who (hlen 0 ▸ hwho))
    have hcount : 0 < count := by
      rw [heq] at hmem
      have : count ≠ 0 := by simpa using hmem
      omega
    exact ⟨count, hcount, by rw [heq, hover hcount]⟩

/-- Two participants take turns, and each in its turn asks for the next phase, which may come to nothing, and
takes a step. -/
theorem every_phase_once_alternating :
    let participants := [Stage.soloist .untilPhaseEnd, Stage.soloist (.iterations 1)]
    let s : Stage := { plan := default, barrier := { required := 2, maxPhase := 1 } }
    let schedule (n : ℕ) : Action := .cue (n / 2 % 2) (if n % 2 = 0 then .askPhase else .goOn 0)
    let t := (opening s participants).after schedule
    s.Enlisted participants ∧ 0 < participants.length ∧ (∀ n, schedule n ≠ .abort) ∧
    (∀ who < 2, (opening s participants).Perseveres schedule who) ∧
    ∃ done, ∀ n ≥ done, ∀ who < 2, ∃ count, 0 < count ∧
      (t n).replies who = [.phase 0, .phase 1] ++ List.replicate count Reply.over := by
  intro participants s schedule t
  have hpair : s.Enlisted participants := Stage.enlisted_pair _ _ 1
  have hkept : ∀ n, schedule n ≠ .abort := nofun
  have hover : ∀ who < 2, Reply.over ∈ (t 48).replies who := by decide +kernel
  have hgo : ∀ who < 2, (opening s participants).Perseveres schedule who := fun who hwho n =>
    ⟨max n 48, le_max_left n 48, .inr (mem_replies_after (le_max_right n 48) (hover who hwho))⟩
  exact ⟨hpair, by decide, hkept, hgo, (every_phase_once hpair (by decide) hkept).2.2.2.2 hgo⟩

end Troupe

end PhasedWorkload
