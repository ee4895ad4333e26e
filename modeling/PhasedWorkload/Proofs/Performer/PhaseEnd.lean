import PhasedWorkload.Proofs.Performer.Journal

/-! # The end of a phase

Work that goes on until the phase ends looks at the current phase only at every so many checks, and keeps to what it has
seen in between. The checks are counted through all iterators of the phase, so wherever the phase ends between two
looks, the next look is within one interval; and a phase that has been seen to be over stays over.
-/
namespace PhasedWorkload

open Turn (Reply)

variable {τ : Type} {p : Performer τ} {phase last current now : ℕ} {slot : Slot τ} {w : World} {t : Tracker}
  {checks : List Check}

namespace Check

def isLate (phase : ℕ) (c : Check) : Bool := phase < c.current

/-- Made after the end of a phase, and yet the work goes on. -/
def misses (phase : ℕ) (c : Check) : Bool := c.isLate phase && !c.isDone

/-- Checks that say that a phase is over only when it is, and that do not take it back. The last phase that was
published is known. -/
structure Agree (phase last : ℕ) (checks : List Check) : Prop where
  reached : phase ≤ last
  seen : ∀ c ∈ checks, c.current ≤ last
  early : ∀ c ∈ checks, c.current = phase → c.isDone = false
  lasting : checks.Pairwise fun c d => c.isDone = true → d.isDone = true

theorem Agree.concat (h : Agree phase last checks) (hlast : last ≤ current) {isDone : Bool}
    (hearly : current = phase → isDone = false) (hlasting : ∀ c ∈ checks, c.isDone = true → isDone = true) (now : ℕ) :
    Agree phase current (checks ++ [⟨now, current, isDone⟩]) where
  reached := h.reached.trans hlast
  seen := List.forall_mem_append.mpr ⟨fun c hc => (h.seen c hc).trans hlast, List.forall_mem_singleton.mpr le_rfl⟩
  early := List.forall_mem_append.mpr ⟨h.early, List.forall_mem_singleton.mpr hearly⟩
  lasting := by
    refine List.pairwise_append.mpr ⟨h.lasting, List.pairwise_singleton _ _, fun c hc d hd => ?_⟩
    obtain rfl := List.mem_singleton.mp hd
    exact hlasting c hc

theorem Agree.countP_misses (h : Agree phase phase checks) : checks.countP (misses phase) = 0 := by
  refine List.countP_eq_zero.mpr fun c hc => ?_
  have hseen := h.seen c hc
  simp [misses, isLate, Nat.not_lt_of_le hseen]

end Check

/-- The checks that the tracker of a phase without an end of its own has answered. -/
structure Tracker.Answers (phase last : ℕ) (checks : List Check) (t : Tracker) : Prop where
  agree : Check.Agree phase last checks
  rule : t.rule = .untilPhaseEnd
  phase_eq : t.phase = phase
  counted : t.checks = checks.length
  goesOn : t.isOver = false → ∀ c ∈ checks, c.isDone = false
  /-- since the last look -/
  missed : t.isOver = false → checks.countP (Check.misses phase) ≤ (checks.length - 1) % Tracker.checkInterval
  ended : t.isOver = true → phase < last ∧ checks.countP (Check.misses phase) ≤ Tracker.checkInterval - 1

namespace Tracker

theorem check_over (hrule : t.rule = .untilPhaseEnd) (hover : t.isOver = true) (current now : ℕ) :
    t.check current now = ({ t with checks := t.checks + 1 }, true) := by
  simp [check, hrule, hover]

theorem check_looks (hrule : t.rule = .untilPhaseEnd) (hover : t.isOver = false)
    (hlooks : t.checks % checkInterval = 0) (current now : ℕ) :
    t.check current now =
      ({ t with checks := t.checks + 1, isOver := current ≠ t.phase }, decide (current ≠ t.phase)) := by
  simp [check, hrule, hover, hlooks]

theorem check_trusts (hrule : t.rule = .untilPhaseEnd) (hover : t.isOver = false)
    (hlooks : t.checks % checkInterval ≠ 0) (current now : ℕ) :
    t.check current now = ({ t with checks := t.checks + 1 }, false) := by
  simp [check, hrule, hover, hlooks]

namespace Answers

theorem fresh (phase : ℕ) : Answers phase phase [] { rule := .untilPhaseEnd, phase } where
  agree := ⟨le_rfl, nofun, nofun, .nil⟩
  rule := rfl
  phase_eq := rfl
  counted := rfl
  goesOn _ := nofun
  missed _ := Nat.zero_le _
  ended := nofun

theorem begin (h : t.Answers phase last checks) (now : ℕ) : (t.begin now).Answers phase last checks := { h with }

theorem countIteration (h : t.Answers phase last checks) : t.countIteration.Answers phase last checks := { h with }

theorem later (h : t.Answers phase last checks) (hlast : last ≤ current) : t.Answers phase current checks where
  agree := ⟨h.agree.reached.trans hlast, fun c hc => (h.agree.seen c hc).trans hlast, h.agree.early, h.agree.lasting⟩
  rule := h.rule
  phase_eq := h.phase_eq
  counted := h.counted
  goesOn := h.goesOn
  missed := h.missed
  ended hover := ⟨(h.ended hover).1.trans_le hlast, (h.ended hover).2⟩

theorem misses_le (h : t.Answers phase last checks) :
    checks.countP (Check.misses phase) ≤ checkInterval - 1 := by
  cases hover : t.isOver with
  | true => exact (h.ended hover).2
  | false => exact (h.missed hover).trans (Nat.le_pred_of_lt (Nat.mod_lt _ (by decide)))

/-- A look sees the end if there is one, and otherwise nothing has been missed. -/
theorem look (h : t.Answers phase last checks) (hlast : last ≤ current) (hover : t.isOver = false)
    (hlooks : t.checks % checkInterval = 0) (now : ℕ) :
    (t.check current now).1.Answers phase current (checks ++ [⟨now, current, (t.check current now).2⟩]) := by
  rw [check_looks h.rule hover hlooks, h.phase_eq]
  have hagree : Check.Agree phase current (checks ++ [⟨now, current, decide (current ≠ phase)⟩]) :=
    h.agree.concat hlast (fun heq => by simp [heq]) (fun c hc hdone => by simp [h.goesOn hover c hc] at hdone) now
  refine ⟨hagree, h.rule, rfl, by simp [h.counted], fun hgoes => ?_, fun hgoes => ?_, fun hends => ?_⟩
  · obtain rfl : current = phase := by simpa using hgoes
    exact List.forall_mem_append.mpr ⟨h.goesOn hover, by simp⟩
  · obtain rfl : current = phase := by simpa using hgoes
    rw [hagree.countP_misses]
    exact Nat.zero_le _
  · have hne : current ≠ phase := by simpa using hends
    refine ⟨Nat.lt_of_le_of_ne (h.agree.reached.trans hlast) hne.symm, ?_⟩
    simpa [Check.misses, hne] using h.misses_le

/-- Between two looks the end may be missed once more at every check. -/
theorem trust (h : t.Answers phase last checks) (hlast : last ≤ current) (hover : t.isOver = false)
    (hlooks : t.checks % checkInterval ≠ 0) (now : ℕ) :
    (t.check current now).1.Answers phase current (checks ++ [⟨now, current, (t.check current now).2⟩]) := by
  rw [check_trusts h.rule hover hlooks]
  have hagree : Check.Agree phase current (checks ++ [⟨now, current, false⟩]) :=
    h.agree.concat hlast (fun _ => rfl) (fun c hc hdone => by simp [h.goesOn hover c hc] at hdone) now
  refine ⟨hagree, h.rule, h.phase_eq, by simp [h.counted], fun _ => ?_, fun _ => ?_, fun hends => ?_⟩
  · exact List.forall_mem_append.mpr ⟨h.goesOn hover, by simp⟩
  · have hmissed := h.missed hover
    have hone : List.countP (Check.misses phase) [⟨now, current, false⟩] ≤ 1 := List.countP_le_length
    rw [h.counted, checkInterval] at hlooks
    rw [checkInterval] at hmissed
    simp only [List.countP_append, List.length_append, List.length_singleton, checkInterval]
    -- the number of this check is no multiple of the interval, so its remainder is one more than the last
    omega
  · exact absurd (hover.symm.trans hends) nofun

theorem check (h : t.Answers phase last checks) (hlast : last ≤ current) (now : ℕ) :
    (t.check current now).1.Answers phase current (checks ++ [⟨now, current, (t.check current now).2⟩]) := by
  cases hover : t.isOver with
  | true =>
    obtain ⟨hphase, hmisses⟩ := h.ended hover
    rw [check_over h.rule hover]
    have hne : current ≠ phase := (hphase.trans_le hlast).ne'
    refine ⟨h.agree.concat hlast (fun heq => absurd heq hne) (fun _ _ _ => rfl) now, h.rule, h.phase_eq,
      by simp [h.counted], fun hgoes => ?_, fun hgoes => ?_, fun _ => ⟨hphase.trans_le hlast, ?_⟩⟩
    · exact absurd (hover.symm.trans hgoes) nofun
    · exact absurd (hover.symm.trans hgoes) nofun
    · simpa [Check.misses] using hmisses
  | false =>
    by_cases hlooks : t.checks % checkInterval = 0
    · exact h.look hlast hover hlooks now
    · exact h.trust hlast hover hlooks now

end Answers

end Tracker

/-- The checks that a view shows have been answered by its tracker, which may still have to be made. -/
def View.Answered (phase last : ℕ) (v : View) : Prop :=
  (v.tracker.getD { rule := .untilPhaseEnd, phase }).Answers phase last v.checks

theorem View.Answered.step {v v' : View} (h : v.Answered phase last) (hlast : last ≤ w.barrier.publishedPhase)
    (hstep : v.Step .untilPhaseEnd phase w v') : v'.Answered phase w.barrier.publishedPhase := by
  have hcounts : ({ v with tracker := v.tracker.map Tracker.countIteration } : View).Answered phase last := by
    unfold Answered at h ⊢
    dsimp only
    cases htracker : v.tracker with
    | none =>
      rw [htracker] at h
      exact h
    | some t =>
      rw [htracker] at h
      exact h.countIteration
  cases hstep with
  | opened => exact (h.begin w.now).later hlast
  | moved | slept => exact h.later hlast
  | skipped | granted => exact hcounts.later hlast
  | checked t htracked =>
    rw [Answered, htracked] at h
    exact h.check hlast w.now

namespace Journal

theorem answered_run (hworks : p.WorksBy .untilPhaseEnd phase) (hturn : p.turn = some ⟨phase, none⟩)
    {cues : List (Cue × World)}
    (hphases : (phase :: cues.map fun cue => cue.2.barrier.publishedPhase).Pairwise (· ≤ ·)) :
    ∃ last, (run { stint := { performer := p } } cues).view.Answered phase last := by
  let start : Journal τ := { stint := { performer := p } }
  have hfresh : start.view.Answered phase phase := by
    have htracker : start.view.tracker = none := by simp [view, start, hturn]
    rw [View.Answered, htracker]
    exact .fresh phase
  -- the invariant carries the last phase that was published; the worlds to come are not behind it
  obtain ⟨-, last, hanswered, -⟩ : (start.run cues).stint.performer.WorksBy .untilPhaseEnd phase ∧
      ∃ last, (start.run cues).view.Answered phase last ∧ [last].Pairwise (· ≤ ·) := by
    refine run_keeps (P := fun v rest => ∃ last, v.Answered phase last ∧
      (last :: rest.map fun w => w.barrier.publishedPhase).Pairwise (· ≤ ·)) ?_ hworks
      ⟨phase, hfresh, by simpa [Function.comp_def] using hphases⟩
    rintro v v' w rest hstep ⟨last, hanswered, hphases⟩
    obtain ⟨hlast, hrest⟩ := List.pairwise_cons.mp hphases
    exact ⟨_, hanswered.step (hlast _ List.mem_cons_self) hstep, hrest⟩
  exact ⟨last, hanswered⟩

/-- Work that goes on until its phase ends notices the end within one interval of checks, wherever in the interval it
comes and however the work is split over iterators. The current phase never goes back. Of the checks after the end fewer
than make an interval let the work go on. An item is begun by the check that lets it through, so there are no more items
that are begun after the end. While the phase goes on no check says that it is over, and once one has said so all later
ones do. -/
theorem end_noticed (hturn : p.turn = some ⟨phase, none⟩) (hrest : p.activity = .resting)
    (hslot : p.participant.slot? phase = some slot) (hrule : slot.rule = .untilPhaseEnd) {cues : List (Cue × World)}
    (hphases : (phase :: cues.map fun cue => cue.2.barrier.publishedPhase).Pairwise (· ≤ ·)) :
    let j := run { stint := { performer := p } } cues
    j.checks.countP (Check.misses phase) ≤ Tracker.checkInterval - 1 ∧
      j.begun.length = (Stint.run { performer := p } cues).replies.count .item ∧
      j.begun.Sublist ((j.checks.filter fun c => !c.isDone).map some) ∧
      j.begun.countP (fun check => check.any (Check.isLate phase)) ≤ Tracker.checkInterval - 1 ∧
      (∀ c ∈ j.checks, c.current = phase → c.isDone = false) ∧
      j.checks.Pairwise fun c d => c.isDone = true → d.isDone = true := by
  intro j
  have hworks := Performer.worksBy_begin hturn hrest hslot hrule
  obtain ⟨last, hanswered⟩ := answered_run hworks hturn hphases
  have hmisses := hanswered.misses_le
  have hthrough : j.view.LetThrough := letThrough_run hworks hrest _
  refine ⟨hmisses, length_begun_run rfl _, hthrough.begun, ?_, hanswered.agree.early, hanswered.agree.lasting⟩
  calc j.begun.countP (fun check => check.any (Check.isLate phase))
    _ ≤ (Check.passing j.checks).countP fun check => check.any (Check.isLate phase) := hthrough.begun.countP_le
    _ = j.checks.countP (Check.misses phase) := by
      rw [Check.passing, List.countP_map, List.countP_filter]
      rfl
    _ ≤ Tracker.checkInterval - 1 := hmisses

/-- The phase ends just after the first check, and a new iterator is made before that is noticed. Seven more items are
begun, and after them there are none. -/
theorem end_noticed_late :
    let slot : Slot Unit := ⟨(), .untilPhaseEnd, none, false⟩
    let p : Performer Unit := { participant := { actor := "", slots := [(0, slot)] }, turn := some ⟨0, none⟩ }
    let w (published : ℕ) : World := { barrier := { publishedPhase := published } }
    let asks (published steps : ℕ) : List (Cue × World) :=
      (.askIteration, w published) :: List.replicate steps (.goOn 0, w published)
    let cues := [(.openTurn, w 0)] ++ asks 0 3 ++ asks 1 3 ++ asks 1 3 ++ [(.openTurn, w 1)] ++
      (List.replicate 5 (asks 1 3)).flatten ++ asks 1 2 ++ asks 1 2
    let j := run { stint := { performer := p } } cues
    (p.turn = some ⟨0, none⟩ ∧ p.activity = .resting ∧ p.participant.slot? 0 = some slot ∧ slot.rule = .untilPhaseEnd ∧
      (0 :: cues.map fun cue => cue.2.barrier.publishedPhase).Pairwise (· ≤ ·)) ∧
    j.stint.replies = List.replicate 8 .item ++ [.exhausted, .exhausted] ∧ j.checks.countP (Check.misses 0) = 7 ∧
    j.checks.countP (Check.misses 0) ≤ Tracker.checkInterval - 1 ∧
    j.begun.countP (fun check => check.any (Check.isLate 0)) ≤ Tracker.checkInterval - 1 := by
  intro slot p w asks cues j
  have hcues : (0 :: cues.map fun cue => cue.2.barrier.publishedPhase).Pairwise (· ≤ ·) := by decide
  have hturn : p.turn = some ⟨0, none⟩ := rfl
  have hslot : p.participant.slot? 0 = some slot := rfl
  obtain ⟨hmisses, _, _, hbegun, _⟩ := end_noticed hturn rfl hslot rfl hcues
  exact ⟨⟨hturn, rfl, hslot, rfl, hcues⟩, by decide, by decide, hmisses, hbegun⟩

end Journal

end PhasedWorkload
