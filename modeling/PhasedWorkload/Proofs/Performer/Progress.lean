import PhasedWorkload.Proofs.Performer.Troupe

/-! # Progress of a performer

A performer that waits has arrived at a meeting point that others have still to come to; one that knows that
the run is over is at the last meeting point there is. They cannot be all there are: somebody is behind, and
is free to go on. What is left for a performer to do is measured by the phases that it has not been given
and by the point where it is. The measure goes down with every step of a free performer towards the next
phase, and what one performer waits for does not come back when others go on.
-/
namespace PhasedWorkload

open Barrier

namespace Barrier

variable {b c : Barrier} {places : List ℕ} {k : ℕ}

/-- The place of somebody who waits for others. -/
def Ahead (b : Barrier) (k : ℕ) : Prop := k = b.round + 1 ∧ (b.ends < b.starts ∨ b.ends ≤ b.maxPhase)

/-- The place of somebody who has been through all phases. -/
def Through (b : Barrier) (k : ℕ) : Prop := k = b.round ∧ b.starts = b.ends ∧ b.maxPhase < b.ends

/-- Nobody waits for those who have been through all phases. -/
theorem Tally.not_ahead (h : Tally b places) (hall : ∀ k ∈ places, b.Ahead k ∨ b.Through k) (hk : k ∈ places) :
    ¬b.Ahead k := by
  have hpos : 0 < b.required := h.everybody ▸ List.length_pos_of_mem hk
  have hbehind : b.Through b.round := by
    rcases hall _ (h.exists_behind hpos) with ⟨hround, _⟩ | hthrough
    · omega
    · exact hthrough
  rintro ⟨_, hrunning⟩
  have := hbehind.2
  omega

end Barrier

namespace Participant

variable {b c : Barrier} {places : List ℕ} {k m i : ℕ} {point : Point} {wait : Wait}

theorem Point.At.ahead (hat : point.At b k m (some wait)) (h : Tally b places) (hk : places[i]? = some k)
    (hw : b.holds wait = true) : b.Ahead k := by
  have hnear := h.near_of_getElem? hk
  have hle := h.sound.ends_le
  have hsucc := h.sound.starts_le
  unfold Ahead Barrier.round at *
  cases hat with
  | ending n =>
    simp only [holds, Bool.and_eq_true, decide_eq_true_eq] at hw
    omega
  | advancing n =>
    simp only [holds, Bool.and_eq_true, decide_eq_true_eq] at hw
    omega
  | assembling n more =>
    simp only [holds, Bool.and_eq_true, decide_eq_true_eq] at hw
    omega

/-- What a participant no longer waits for, it never waits for again. -/
theorem Point.At.not_holds_later (hat : point.At b k m (some wait)) (h : Tally b places)
    (hk : places[i]? = some k) (hb : b.errored = false) (hw : b.holds wait = false) (hbc : Precedes b c) :
    c.holds wait = false := by
  cases hat with
  | ending n =>
    have hn := h.lt_ends_of_ne hk (by simpa [holds, hb] using hw)
    have := hbc.ends_le
    simp [holds, show c.ends ≠ n by omega]
  | advancing n =>
    have hn : n < b.ends := by simpa [holds, hb] using hw
    have := hbc.ends_le
    simp [holds, show ¬c.ends ≤ n by omega]
  | assembling n more =>
    have hn := h.lt_starts_of_ne hk (by simpa [holds, hb] using hw)
    have := hbc.starts_le
    simp [holds, show c.starts ≠ m by omega]

/-- How far it is from the reply. -/
def Point.rank : Point → Option Wait → ℕ
  | .confirming, _ => 1
  | .departing _, _ => 2
  | .arriving, some _ => 3
  | .arriving, none => 4
  | .deciding, _ => 5
  | .settling _, some _ => 6
  | .settling _, none => 7

/-- A participant whose wait is over gets its answer. -/
theorem Point.At.answered (hat : point.At b k m (some wait)) (hw : b.holds wait = false) :
    ∃ answer, (b.wake wait).outcome = .answered answer := by
  rw [wake_of_not_holds hw]
  cases hat with
  | ending n => exact ⟨_, rfl⟩
  | advancing n => exact ⟨_, rfl⟩
  | assembling n more =>
    simp only [leave]
    split
    · exact ⟨_, rfl⟩
    · exact ⟨_, rfl⟩

end Participant

def phasesIn : Option Report → ℕ
  | some (.phase (.phase _)) => 1
  | _ => 0

theorem Report.Says.eq_add {m m' : ℕ} {knows knows' : Bool} {report : Option Report}
    (h : Report.Says m knows m' knows' report) : m' = m + phasesIn report := by
  cases h <;> rfl

namespace Performer

variable {τ : Type} {b c : Barrier} {places : List ℕ} {k m i : ℕ} {p q : Performer τ} {w : World}
  {point : Participant.Point} {wait : Option Wait} {cue : Cue}

def isStalled (p : Performer τ) (b : Barrier) : Bool :=
  match p.activity with
  | .advancing _ (some wait) => b.holds wait
  | _ => false

/-- Has not been told that the run is over and does not wait. -/
def IsFree (p : Performer τ) (b : Barrier) : Prop := p.participant.finished = false ∧ p.isStalled b = false

/-- How far a performer is from its next phase, or from being told that there is none. -/
def rank (p : Performer τ) : ℕ :=
  if p.participant.finished then 0
  else match p.activity with
    | .advancing point wait => point.rank wait
    | _ => 8

/-- What is left to do for a performer that was given `m` phases. -/
def weight (b : Barrier) (m : ℕ) (p : Performer τ) : ℕ := 9 * (b.maxPhase + 1 - m) + p.rank

theorem rank_finished (hf : p.participant.finished = true) : p.rank = 0 := by simp [rank, hf]

theorem rank_advancing (hf : p.participant.finished = false) (hact : p.activity = .advancing point wait) :
    p.rank = point.rank wait := by
  simp [rank, hf, hact]

theorem rank_at (hf : p.participant.finished = false) (turn : Option Turn) (point : Participant.Point)
    (wait : Option Wait) : rank ⟨p.participant, turn, .advancing point wait⟩ = point.rank wait :=
  rank_advancing (by exact hf) rfl

theorem rank_resting (hf : p.participant.finished = false) (hact : p.isAdvancing = false) : p.rank = 8 := by
  cases h : p.activity with
  | advancing point wait => simp [isAdvancing, h] at hact
  | resting => simp [rank, hf, h]
  | iterating point => simp [rank, hf, h]

/-- An answer brings its participant nearer to the end. -/
theorem weight_takePhase {answer : Answer} (ha : point.Answers b k m answer)
    (hf : p.participant.finished = false) (hact : p.activity = .advancing point wait)
    (hle : k ≤ 2 * b.maxPhase + 2) {r : Performer τ × Option Report}
    (hr : r = takePhase { p with participant := (p.participant.proceed point answer).1 }
      (p.participant.proceed point answer).2) :
    weight b (m + phasesIn r.2) r.1 < weight b m p := by
  subst hr
  unfold weight
  rw [rank_advancing hf hact]
  cases ha with
  | settled n pending passed =>
    have hrank : 6 ≤ Participant.Point.rank (.settling pending) wait := by
      cases wait <;> simp [Participant.Point.rank]
    have hrank' : Participant.Point.rank .deciding none = 5 := rfl
    simp only [Participant.proceed, takePhase, phasesIn, rank_at hf, hrank']
    omega
  | decided n passed =>
    simp only [Participant.proceed, takePhase, phasesIn, rank_at hf]
    by_cases hmore : m ≤ b.maxPhase <;> simp [hmore, Participant.Point.rank]
  | confirmed n passed last =>
    rw [rank_finished rfl]
    simp [Participant.proceed, Participant.finish, takePhase, phasesIn, Participant.Point.rank]
  -- Where a phase does not wait for this participant, the end of the phase comes before the reply.
  | given n running =>
    have hrank : 3 ≤ Participant.Point.rank .arriving wait := by cases wait <;> simp [Participant.Point.rank]
    cases hblocks : p.participant.blocks m with
    | true =>
      have hp : p.participant.proceed .arriving (.phase m) =
          ({ p.participant with pending := some .finish }, .replied (.phase m)) := if_pos hblocks
      rw [hp, rank_resting (by exact hf) rfl]
      simp only [takePhase, phasesIn]
      omega
    | false =>
      have hp : p.participant.proceed .arriving (.phase m) = (p.participant, .at (.departing m)) :=
        if_neg (by simp [hblocks])
      have hrank' : Participant.Point.rank (.departing m) none = 2 := rfl
      rw [hp]
      simp only [takePhase, phasesIn, rank_at hf, hrank']
      omega
  | departed n running =>
    rw [rank_resting (by exact hf) rfl]
    simp only [Participant.proceed, takePhase, phasesIn, Participant.Point.rank]
    omega

/-! ## A cue -/

theorem finished_eq_false (h : p.Stands b k m) (hb : b.errored = false) (hact : p.isAdvancing = true) :
    p.participant.finished = false := by
  obtain ⟨point, wait, hact⟩ := exists_advancing hact
  exact ((h.asking point wait hact).2 hb).1.2.2

theorem isStalled_eq_false (hact : p.isAdvancing = false) (b : Barrier) : p.isStalled b = false := by
  cases h : p.activity with
  | advancing point wait => simp [isAdvancing, h] at hact
  | resting => simp [isStalled, h]
  | iterating point => simp [isStalled, h]

theorem rank_keeps (hact : p.isAdvancing = false) (hq : p.Keeps q) : q.rank = p.rank := by
  cases hf : p.participant.finished with
  | true => rw [rank_finished hf, rank_finished (hq.finished.trans hf)]
  | false => rw [rank_resting hf hact, rank_resting (hq.finished.trans hf) hq.rest]

theorem weight_iterates {r : World × Performer τ × Option Report} (hact : p.isAdvancing = false)
    (h : p.Iterates w r) : weight r.1.barrier (m + phasesIn r.2.2) r.2.1 = weight w.barrier m p := by
  obtain ⟨hbarrier, hkeeps, hreport⟩ := h
  have hnone : phasesIn r.2.2 = 0 := by
    have := (hreport m true).eq_add
    omega
  rw [weight, weight, hbarrier, hnone, rank_keeps hact hkeeps]
  rfl

/-- A section of a performer that does not wait brings it nearer to the end. -/
theorem weight_advance (h : p.Stands w.barrier k m) (ht : Tally w.barrier places) (hk : places[i]? = some k)
    (hb : w.barrier.errored = false) (hact : p.activity = .advancing point wait)
    (hfree : p.isStalled w.barrier = false) :
    weight (p.advance w point wait).1.barrier (m + phasesIn (p.advance w point wait).2.2)
      (p.advance w point wait).2.1 < weight w.barrier m p := by
  obtain ⟨hs, hat⟩ := (h.asking point wait hact).2 hb
  obtain ⟨k', ht', hle, hv⟩ := hat.keeps ht hk h.bounded hb
  have hmax := (point.precedes_visit w.barrier wait).maxPhase_eq
  have hsame : weight w.barrier m p = weight (point.visit w.barrier wait).barrier m p := by
    rw [weight, weight, hmax]
  rw [hsame, advance_eq]
  cases ho : (point.visit w.barrier wait).outcome with
  | answered answer =>
    simp only [ho] at hv ⊢
    exact weight_takePhase hv hs.2.2 hact hle rfl
  | waiting wait' =>
    simp only [ho] at hv ⊢
    rw [weight, weight, rank_at hs.2.2, rank_advancing hs.2.2 hact]
    cases wait with
    | none => cases hv <;> simp [phasesIn, Participant.Point.rank]
    | some wait =>
      have hw : w.barrier.holds wait = false := by simpa [isStalled, hact] using hfree
      obtain ⟨answer, ho'⟩ := hat.answered hw
      rw [Participant.Point.visit, ho'] at ho
      cases ho

theorem advance_stalled (hact : p.activity = .advancing point wait) (hw : p.isStalled w.barrier = true) :
    p.advance w point wait = (w, p, none) := by
  cases wait with
  | none => simp [isStalled, hact] at hw
  | some wait =>
    have hholds : w.barrier.holds wait = true := by simpa [isStalled, hact] using hw
    rw [advance_eq, Participant.Point.visit, wake_of_holds hholds]
    simp only [← hact]

theorem weight_askPhase (hact : p.activity = .resting) :
    weight b (m + phasesIn p.askPhase.2) p.askPhase.1 ≤ weight b m p ∧
    (p.participant.finished = false → weight b (m + phasesIn p.askPhase.2) p.askPhase.1 < weight b m p) := by
  cases hf : p.participant.finished with
  | true =>
    rw [askPhase_finished hf, weight, weight, rank_finished hf, rank_finished (by exact hf)]
    exact ⟨le_rfl, nofun⟩
  | false =>
    have hlt : weight b (m + phasesIn p.askPhase.2) p.askPhase.1 < weight b m p := by
      rw [askPhase_unfinished hf, weight, weight, rank_resting hf (isAdvancing_eq_false hact),
        rank_advancing (by exact hf) rfl]
      cases p.participant.pending <;> simp [phasesIn, Participant.Point.rank]
    exact ⟨hlt.le, fun _ => hlt⟩

/-- A cue never leads away from the end. If the performer is free, it brings it nearer or leaves it free;
the latter only if the cue is not about the next phase. -/
theorem weight_follow (h : p.Stands w.barrier k m) (ht : Tally w.barrier places) (hk : places[i]? = some k)
    (hb : w.barrier.errored = false) (cue : Cue) :
    weight (p.follow w cue).1.barrier (m + phasesIn (p.follow w cue).2.2) (p.follow w cue).2.1 ≤
      weight w.barrier m p ∧
    (p.IsFree w.barrier →
      weight (p.follow w cue).1.barrier (m + phasesIn (p.follow w cue).2.2) (p.follow w cue).2.1 <
        weight w.barrier m p ∨
      (p.follow w cue).2.1.IsFree (p.follow w cue).1.barrier ∧ ¬p.Presses cue) := by
  by_cases hpress : p.Presses cue
  · cases cue with
    | openTurn | askIteration => exact hpress.elim
    | goOn jitter =>
      obtain ⟨point, wait, hact⟩ := exists_advancing hpress
      rw [follow, step_advancing hact]
      cases hstalled : p.isStalled w.barrier with
      | false =>
        have hlt := weight_advance h ht hk hb hact hstalled
        exact ⟨hlt.le, fun _ => .inl hlt⟩
      | true =>
        rw [advance_stalled hact hstalled]
        exact ⟨le_rfl, fun hfree => by simp [hfree.2] at hstalled⟩
    | askPhase =>
      have hrest : p.activity = .resting := hpress
      obtain ⟨hle, hlt⟩ := weight_askPhase (b := w.barrier) (m := m) hrest
      rw [follow, if_pos hrest]
      exact ⟨hle, fun hfree => .inl (hlt hfree.1)⟩
  · cases hact : p.isAdvancing with
    | true =>
      rw [follow_advancing hact hpress]
      exact ⟨le_rfl, fun hfree => .inr ⟨hfree, hpress⟩⟩
    | false =>
      have hit := iterates_follow hact hpress w
      rw [weight_iterates hact hit]
      refine ⟨le_rfl, fun hfree => .inr ⟨⟨?_, isStalled_eq_false hit.2.1.rest _⟩, hpress⟩⟩
      exact hit.2.1.finished.trans hfree.1

theorem IsFree.later (hfree : p.IsFree b) (h : p.Stands b k m) (ht : Tally b places) (hk : places[i]? = some k)
    (hb : b.errored = false) (hbc : Precedes b c) : p.IsFree c := by
  refine ⟨hfree.1, ?_⟩
  cases hact : p.isAdvancing with
  | false => exact isStalled_eq_false hact c
  | true =>
    obtain ⟨point, wait, hact⟩ := exists_advancing hact
    cases wait with
    | none => simp [isStalled, hact]
    | some wait =>
      have hw : b.holds wait = false := by simpa [isStalled, hact] using hfree.2
      have hat := ((h.asking point _ hact).2 hb).2
      simpa [isStalled, hact] using hat.not_holds_later ht hk hb hw hbc

/-! ## Who is not free -/

theorem Stands.ahead (h : p.Stands b k m) (ht : Tally b places) (hk : places[i]? = some k)
    (hb : b.errored = false) (hw : p.isStalled b = true) : b.Ahead k := by
  cases hact : p.activity with
  | advancing point wait =>
    cases wait with
    | none => simp [isStalled, hact] at hw
    | some wait =>
      have hat := ((h.asking point _ hact).2 hb).2
      exact hat.ahead ht hk (by simpa [isStalled, hact] using hw)
  | resting => simp [isStalled, hact] at hw
  | iterating point => simp [isStalled, hact] at hw

theorem Stands.through (h : p.Stands b k m) (ht : Tally b places) (hk : places[i]? = some k)
    (hb : b.errored = false) (hf : p.participant.finished = true) : b.Through k := by
  have hact : p.isAdvancing = false := by
    cases hact : p.isAdvancing with
    | false => rfl
    | true => simp [finished_eq_false h hb hact] at hf
  cases h.resting hact hb with
  | fresh shows | inside _ shows _ | left _ shows => simp [shows.2.2] at hf
  | finished n shows passed last =>
    obtain ⟨hs, he⟩ := ht.idle_of_le_ends hk passed
    exact ⟨by unfold Barrier.round; omega, hs.trans he.symm, by omega⟩

end Performer

end PhasedWorkload
