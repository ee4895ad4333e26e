import PhasedWorkload.Proofs.Performer.Journal

/-! # The deadline of a phase

A phase of limited time ends for a performer so long after it has made its first iterator. All its iterators have this
one deadline. They check it before every item, and no pause goes beyond it, be it for the skipped iteration or for a
token.
-/
namespace PhasedWorkload

open Turn (Reply)

variable {τ : Type} {p : Performer τ} {phase began now : ℕ} {limit : TimeSpan} {slot : Slot τ} {w : World} {t : Tracker}

/-- Progress in a phase of limited time. -/
structure Tracker.Expires (limit : TimeSpan) (began : ℕ) (t : Tracker) : Prop where
  rule : t.rule = .elapsed limit
  started : t.began = some began

namespace Tracker.Expires

theorem begin (h : t.Expires limit began) (now : ℕ) : (t.begin now).Expires limit began :=
  ⟨h.rule, by simp [Tracker.begin, h.started]⟩

theorem countIteration (h : t.Expires limit began) : t.countIteration.Expires limit began := ⟨h.rule, h.started⟩

theorem remaining? (h : t.Expires limit began) (now : ℕ) : t.remaining? now = some (limit.nanos - (now - began)) := by
  simp [Tracker.remaining?, h.rule, h.started]

/-- The check answers by the deadline, and leaves nothing behind. -/
theorem check (h : t.Expires limit began) (hnow : began ≤ now) (current : ℕ) :
    t.check current now = (t, decide (began + limit.nanos ≤ now)) := by
  have hover : (some (limit.nanos - (now - began)) = some 0) ↔ began + limit.nanos ≤ now := by
    rw [Option.some_inj]
    omega
  simp only [Tracker.check, h.rule, h.remaining? now, hover]

end Tracker.Expires

/-- What is noted in a phase of limited time. -/
structure View.Within (limit : TimeSpan) (began : ℕ) (v : View) : Prop where
  tracked : ∃ t, v.tracker = some t ∧ t.Expires limit began
  asleep : ∀ wake, v.activity = .iterating (.asleep wake) → wake ≤ began + limit.nanos
  checks : ∀ c ∈ v.checks, c.isDone = true ↔ began + limit.nanos ≤ c.now
  sleeps : ∀ s ∈ v.sleeps, s.now + s.span ≤ began + limit.nanos

theorem View.Within.step {rule : StopRule} {v v' : View} (h : v.Within limit began) (hnow : began ≤ w.now)
    (hstep : v.Step rule phase w v') : v'.Within limit began := by
  obtain ⟨t, htracked, hexpires⟩ := h.tracked
  cases hstep with
  | opened =>
    refine ⟨⟨_, rfl, ?_⟩, h.asleep, h.checks, h.sleeps⟩
    rw [htracked]
    exact hexpires.begin w.now
  | moved a _ hasleep =>
    exact ⟨h.tracked, fun wake ha => h.asleep wake ((hasleep wake ha).trans ha), h.checks, h.sleeps⟩
  | skipped span => exact ⟨⟨_, by rw [htracked]; rfl, hexpires.countIteration⟩, nofun, h.checks, h.sleeps⟩
  | granted => exact ⟨⟨_, by rw [htracked]; rfl, hexpires.countIteration⟩, nofun, h.checks, h.sleeps⟩
  | checked u hu =>
    obtain rfl : t = u := Option.some.inj (htracked.symm.trans hu)
    rw [hexpires.check hnow]
    refine ⟨⟨t, rfl, hexpires⟩, fun wake ha => ?_, fun c hc => ?_, h.sleeps⟩
    · dsimp only at ha
      split at ha <;> cases ha
    · rcases List.mem_append.mp hc with hc | hc
      · exact h.checks c hc
      · obtain rfl := List.mem_singleton.mp hc
        exact decide_eq_true_iff
  | slept u span hu hpos hwithin =>
    obtain rfl : t = u := Option.some.inj (htracked.symm.trans hu)
    have hspan : w.now + span ≤ began + limit.nanos := by
      have hleft := hwithin _ (hexpires.remaining? w.now)
      omega
    refine ⟨⟨t, htracked, hexpires⟩, ?_, h.checks, fun s hs => ?_⟩
    · rintro _ ⟨⟩
      exact hspan
    · rcases List.mem_append.mp hs with hs | hs
      · exact h.sleeps s hs
      · obtain rfl := List.mem_singleton.mp hs
        exact hspan

namespace Stint

variable {s : Stint τ}

def goTo (s : Stint τ) (activity : Activity) : Stint τ := { s with performer := { s.performer with activity } }

def exhaust (s : Stint τ) : Stint τ := { s.goTo .resting with replies := s.replies ++ [.exhausted] }

theorem step_resting (hrest : s.performer.activity = .resting) (jitter : ℕ) (w : World) :
    s.step (.goOn jitter) w = s := by
  have htokens : s.performer.tokensIn w (.goOn jitter) = 0 := by
    rw [Performer.tokensIn, Performer.limiter?_of_ne (by simp [hrest])]
    rfl
  simp [step, Performer.allows, Performer.follow, Performer.step, hrest, htokens, record, replyIn]

theorem step_askIteration (hrest : s.performer.activity = .resting) (hturn : s.performer.turn = some ⟨phase, some t⟩)
    (hslot : s.performer.participant.slot? phase = some slot) (w : World) :
    s.step .askIteration w = s.goTo (.iterating .watching) := by
  simp [step, Performer.allows, Performer.follow, Performer.askIteration, Performer.tokensIn, record, replyIn, goTo,
    hrest, hturn, hslot]

theorem step_watching (hact : s.performer.activity = .iterating .watching)
    (hturn : s.performer.turn = some ⟨phase, some t⟩) (hslot : s.performer.participant.slot? phase = some slot)
    (jitter : ℕ) (w : World) :
    s.step (.goOn jitter) w = if w.barrier.publishedAbort then s.exhaust else s.goTo (.iterating .checking) := by
  rw [step_goOn hact hturn hslot, Performer.tokensIn, Performer.limiter?_of_ne (by simp [hact])]
  simp only [Performer.iterate]
  split
  · rfl
  · simp [Performer.goTo, record, replyIn, goTo]

theorem step_checking (hact : s.performer.activity = .iterating .checking)
    (hturn : s.performer.turn = some ⟨phase, some t⟩) (hslot : s.performer.participant.slot? phase = some slot)
    (jitter : ℕ) {w : World} (hdone : t.check w.barrier.publishedPhase w.now = (t, true)) :
    s.step (.goOn jitter) w = s.exhaust := by
  rw [step_goOn hact hturn hslot, Performer.tokensIn, Performer.limiter?_of_ne (by simp [hact])]
  simp only [Performer.iterate, hdone]
  rw [← hturn]
  rfl

/-- An iterator whose first check says that the work is done is exhausted, and nothing else has happened. -/
theorem run_exhausted (hrest : s.performer.activity = .resting) (hturn : s.performer.turn = some ⟨phase, some t⟩)
    (hslot : s.performer.participant.slot? phase = some slot) (asked watched : World) {checked : World}
    (hdone : t.check checked.barrier.publishedPhase checked.now = (t, true)) (jitter jitter' : ℕ) :
    s.run [(.askIteration, asked), (.goOn jitter, watched), (.goOn jitter', checked)] =
      { s with replies := s.replies ++ [.exhausted] } := by
  have hexhausted : s.exhaust = { s with replies := s.replies ++ [.exhausted] } := by
    rw [exhaust, goTo, ← hrest]
  change ((s.step .askIteration asked).step (.goOn jitter) watched).step (.goOn jitter') checked = _
  rw [step_askIteration hrest hturn hslot, step_watching (s := s.goTo _) rfl hturn hslot]
  split
  · exact (step_resting rfl jitter' checked).trans hexhausted
  · exact (step_checking (s := s.goTo _) rfl hturn hslot jitter' hdone).trans hexhausted

end Stint

namespace Journal

/-- The first iterator starts the clock. -/
theorem within_openTurn (hworks : p.WorksBy (.elapsed limit) phase) (hturn : p.turn = some ⟨phase, none⟩)
    (hrest : p.activity = .resting) (first : World) :
    (step { stint := { performer := p } } .openTurn first).view.Within limit first.now := by
  let start : Journal τ := { stint := { performer := p } }
  have hopened : start.step .openTurn first = start.record .openTurn first (p.openTurn first.now) none := by
    simp [start, step, Performer.allows, Performer.follow, hrest]
  have hfresh : start.view.tracker = none := by simp [view, start, hturn]
  change (start.step .openTurn first).view.Within limit first.now
  rw [hopened, view_openTurn hworks hrest, hfresh]
  refine ⟨⟨_, rfl, rfl, rfl⟩, fun wake ha => ?_, List.forall_mem_nil _, List.forall_mem_nil _⟩
  simp [view, start, hrest] at ha

theorem within_run (hworks : p.WorksBy (.elapsed limit) phase) (hturn : p.turn = some ⟨phase, none⟩)
    (hrest : p.activity = .resting) {first : World} {cues : List (Cue × World)}
    (hclock : ∀ cue ∈ cues, first.now ≤ cue.2.now) :
    let j := run { stint := { performer := p } } ((.openTurn, first) :: cues)
    j.stint.performer.WorksBy (.elapsed limit) phase ∧ j.view.Within limit first.now := by
  intro j
  -- after the first cue the invariant needs only that no world is earlier
  obtain ⟨hworks', hwithin, -⟩ : j.stint.performer.WorksBy (.elapsed limit) phase ∧ j.view.Within limit first.now ∧
      ∀ w ∈ ([] : List World), first.now ≤ w.now :=
    run_keeps (P := fun v rest => v.Within limit first.now ∧ ∀ w ∈ rest, first.now ≤ w.now)
      (fun hstep h => ⟨h.1.step (h.2 _ List.mem_cons_self) hstep, fun w hw => h.2 w (List.mem_cons_of_mem _ hw)⟩)
      (advances hworks .openTurn first).1 ⟨within_openTurn hworks hturn hrest first, List.forall_mem_map.mpr hclock⟩
  exact ⟨hworks', hwithin⟩

/-- A phase of limited time has one deadline, which is so long after the first iterator was made, whatever the limiter,
the pauses and the later iterators do. Every sleep ends by it. Every check answers by it, and each item is let through
by a check before it. An iterator that is first checked at the deadline or after it is exhausted: no token is taken, no
iteration counted and no skip used up. -/
theorem within_deadline (hturn : p.turn = some ⟨phase, none⟩) (hrest : p.activity = .resting)
    (hslot : p.participant.slot? phase = some slot) (hrule : slot.rule = .elapsed limit) {first : World}
    {cues : List (Cue × World)} (hclock : ∀ cue ∈ cues, first.now ≤ cue.2.now) :
    let j := run { stint := { performer := p } } ((.openTurn, first) :: cues)
    let deadline := first.now + limit.nanos
    (∀ s ∈ j.sleeps, s.now + s.span ≤ deadline) ∧
      (∀ wake, j.stint.performer.activity = .iterating (.asleep wake) → wake ≤ deadline) ∧
      (∀ c ∈ j.checks, c.isDone = true ↔ deadline ≤ c.now) ∧
      j.begun.length = (Stint.run { performer := p } ((.openTurn, first) :: cues)).replies.count .item ∧
      (∀ check ∈ j.begun, ∃ c ∈ j.checks, check = some c ∧ c.isDone = false ∧ c.now < deadline) ∧
      (j.stint.performer.activity = .resting → ∀ asked watched checked jitter jitter', deadline ≤ checked.now →
        j.stint.run [(.askIteration, asked), (.goOn jitter, watched), (.goOn jitter', checked)] =
          { j.stint with replies := j.stint.replies ++ [.exhausted] }) := by
  intro j deadline
  have hworks := Performer.worksBy_begin hturn hrest hslot hrule
  obtain ⟨hworks', hwithin⟩ := within_run hworks hturn hrest hclock
  have hthrough : j.view.LetThrough := letThrough_run hworks hrest _
  refine ⟨hwithin.sleeps, hwithin.asleep, hwithin.checks, length_begun_run rfl _, fun check hcheck => ?_, ?_⟩
  · obtain ⟨c, hc, rfl⟩ := List.mem_map.mp (hthrough.begun.subset hcheck)
    obtain ⟨hmem, hundone⟩ := List.mem_filter.mp hc
    have hnot : c.isDone = false := by simpa using hundone
    refine ⟨c, hmem, rfl, hnot, Nat.lt_of_not_le fun hlate => ?_⟩
    rw [(hwithin.checks c hmem).mpr hlate] at hnot
    cases hnot
  · intro hrest' asked watched checked jitter jitter' hlate
    obtain ⟨t, htracked, hexpires⟩ := hwithin.tracked
    obtain ⟨tracker, hturn'⟩ := hworks'.turn
    obtain ⟨slot', hslot', -⟩ := hworks'.configured
    obtain rfl : tracker = some t := by simpa [view, hturn'] using htracked
    have hdone := hexpires.check ((Nat.le_add_right _ _).trans hlate) checked.barrier.publishedPhase
    rw [decide_eq_true hlate] at hdone
    exact Stint.run_exhausted hrest' hturn' hslot' asked watched hdone jitter jitter'

/-- A phase of twenty nanoseconds from the fifth on. The first iteration is skipped, the second has its token, and the
third is refused one; the pause is cut to the four nanoseconds that are left. -/
theorem within_deadline_cut :
    let slot : Slot Unit := ⟨(), .elapsed ⟨20⟩, some 0, true⟩
    let p : Performer Unit :=
      { participant := { actor := "", slots := [(0, slot)], pause := ⟨4⟩ }, turn := some ⟨0, none⟩ }
    let w (now : ℕ) : World := { limiters := [⟨⟨1, ⟨10⟩⟩, if now < 19 then 0 else 18, 2⟩], now }
    let goOn (now steps : ℕ) : List (Cue × World) := List.replicate steps (.goOn 30, w now)
    let cues := [(.askIteration, w 5)] ++ goOn 5 3 ++ goOn 6 1 ++ goOn 10 1 ++ goOn 18 3 ++
      [(.openTurn, w 19), (.askIteration, w 19)] ++ goOn 20 3 ++ goOn 21 1 ++ goOn 24 1 ++ goOn 25 3
    let j := run { stint := { performer := p } } ((.openTurn, w 5) :: cues)
    (p.turn = some ⟨0, none⟩ ∧ p.activity = .resting ∧ p.participant.slot? 0 = some slot ∧ slot.rule = .elapsed ⟨20⟩ ∧
      ∀ cue ∈ cues, (w 5).now ≤ cue.2.now) ∧
    j.stint.replies = [.item, .exhausted] ∧ j.sleeps = [⟨6, 4⟩, ⟨21, 4⟩] ∧
    j.checks = [⟨5, 0, false⟩, ⟨18, 0, false⟩, ⟨20, 0, false⟩, ⟨25, 0, true⟩] ∧
    (∀ s ∈ j.sleeps, s.now + s.span ≤ 25) ∧
    (j.stint.run [(.askIteration, w 25), (.goOn 0, w 25), (.goOn 0, w 26)]).replies =
      [.item, .exhausted, .exhausted] := by
  intro slot p w goOn cues j
  have hcues : ∀ cue ∈ cues, (w 5).now ≤ cue.2.now := by decide
  have hturn : p.turn = some ⟨0, none⟩ := rfl
  have hslot : p.participant.slot? 0 = some slot := rfl
  obtain ⟨hsleeps, _, _, _, _, hends⟩ := within_deadline hturn rfl hslot rfl hcues
  have hreplies : j.stint.replies = [.item, .exhausted] := by decide
  refine ⟨⟨hturn, rfl, hslot, rfl, hcues⟩, hreplies, by decide, by decide, hsleeps, ?_⟩
  rw [hends (by decide) (w 25) (w 25) (w 26) 0 0 (by decide), hreplies]
  rfl

end Journal

end PhasedWorkload
