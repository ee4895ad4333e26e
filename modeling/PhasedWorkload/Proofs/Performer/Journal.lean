import PhasedWorkload.Proofs.Performer.Stint

/-! # Journals

A journal is kept beside a stint. It notes every completion check with its answer, every sleep that is asked for, and
for every item the last check before it. What a step can change in a view of the journal is said once for all stop
rules; a bound on what is noted has to be kept by each of these changes.
-/
namespace PhasedWorkload

variable {τ : Type}

/-- A completion check: when it was made, the current phase that it was given, and its answer. -/
structure Check where
  now : ℕ
  current : ℕ
  isDone : Bool
deriving DecidableEq, Repr

/-- The checks that have let the work go on. -/
def Check.passing (checks : List Check) : List (Option Check) := (checks.filter fun c => !c.isDone).map some

theorem Check.passing_concat (checks : List Check) (c : Check) :
    passing (checks ++ [c]) = passing checks ++ if c.isDone then [] else [some c] := by
  cases hdone : c.isDone <;> simp [passing, hdone]

/-- A sleep, by the time at which it was asked for. -/
structure Sleep where
  now : ℕ
  span : ℕ
deriving DecidableEq, Repr

namespace Performer

/-- The completion check that is made on a cue. -/
def checkIn (p : Performer τ) (w : World) : Cue → Option Check
  | .goOn _ =>
    match p.activity, p.turn.bind fun t => (p.participant.slot? t.phase).bind fun _ => t.tracker with
    | .iterating .checking, some t => some ⟨w.now, w.barrier.publishedPhase, (t.check w.barrier.publishedPhase w.now).2⟩
    | _, _ => none
  | _ => none

/-- The sleep that is asked for where a performer becomes another. -/
def sleepIn (p q : Performer τ) (w : World) : Option Sleep :=
  match p.activity, q.activity with
  | .iterating (.pausing _), .iterating (.asleep wake) => some ⟨w.now, wake - w.now⟩
  | _, _ => none

variable {p : Performer τ} {rule : StopRule} {phase : ℕ} {tracker : Option Tracker} {slot : Slot τ}

theorem checkIn_of_ne (h : p.activity ≠ .iterating .checking) (w : World) (cue : Cue) : p.checkIn w cue = none := by
  cases cue with
  | goOn jitter =>
    simp only [checkIn]
    split
    · next hact _ => exact absurd hact h
    · rfl
  | askPhase | openTurn | askIteration => rfl

theorem sleepIn_of_ne (h : ∀ span, p.activity ≠ .iterating (.pausing span)) (q : Performer τ) (w : World) :
    p.sleepIn q w = none := by
  unfold sleepIn
  split
  · next hact _ => exact absurd hact (h _)
  · rfl

/-- At work in a phase by a rule. -/
structure WorksBy (rule : StopRule) (phase : ℕ) (p : Performer τ) : Prop where
  turn : ∃ tracker, p.turn = some ⟨phase, tracker⟩
  configured : ∃ slot, p.participant.slot? phase = some slot ∧ slot.rule = rule
  iterates : p.isAdvancing = false

theorem worksBy_begin (hturn : p.turn = some ⟨phase, tracker⟩) (hrest : p.activity = .resting)
    (hslot : p.participant.slot? phase = some slot) (hrule : slot.rule = rule) : p.WorksBy rule phase :=
  ⟨⟨tracker, hturn⟩, ⟨slot, hslot, hrule⟩, isAdvancing_eq_false hrest⟩

theorem WorksBy.openTurn (h : p.WorksBy rule phase) (hturn : p.turn = some ⟨phase, tracker⟩) (now : ℕ) :
    (p.openTurn now).turn = some ⟨phase, some ((tracker.getD { rule, phase }).begin now)⟩ := by
  obtain ⟨slot, hslot, hrule⟩ := h.configured
  have hfresh : Turn.rule p.participant ⟨phase, tracker⟩ = rule := by
    rw [Turn.rule, hslot]
    exact hrule
  simp only [Performer.openTurn, hturn, Option.map_some, Turn.iterator, hfresh]

end Performer

/-- A stint and the notes on it. -/
structure Journal (τ : Type) where
  stint : Stint τ
  checks : List Check := []
  sleeps : List Sleep := []
  /-- for each item the last check before it -/
  begun : List (Option Check) := []

/-- What a journal shows: the tracker and the activity of its performer, and the notes. -/
structure View where
  tracker : Option Tracker
  activity : Activity
  checks : List Check := []
  sleeps : List Sleep := []
  begun : List (Option Check) := []

namespace Journal

def view (j : Journal τ) : View where
  tracker := j.stint.performer.turn.bind Turn.tracker
  activity := j.stint.performer.activity
  checks := j.checks
  sleeps := j.sleeps
  begun := j.begun

def record (j : Journal τ) (cue : Cue) (w : World) (q : Performer τ) (report : Option Report) : Journal τ where
  stint := j.stint.record q report (j.stint.performer.tokensIn w cue)
  checks := j.checks ++ (j.stint.performer.checkIn w cue).toList
  sleeps := j.sleeps ++ (j.stint.performer.sleepIn q w).toList
  begun := j.begun ++ if report = some (.iteration .item) then [j.checks.getLast?] else []

def step (j : Journal τ) (cue : Cue) (w : World) : Journal τ :=
  if j.stint.performer.allows cue then
    j.record cue w (j.stint.performer.follow w cue).2.1 (j.stint.performer.follow w cue).2.2
  else j

def run (j : Journal τ) (cues : List (Cue × World)) : Journal τ := cues.foldl (fun j cue => j.step cue.1 cue.2) j

end Journal

namespace View

variable {rule : StopRule} {phase : ℕ} {w : World}

/-- What a step can do to a view, given the rule of the phase and the world. -/
inductive Step (rule : StopRule) (phase : ℕ) (w : World) (v : View) : View → Prop where
  | opened : Step rule phase w v { v with tracker := some ((v.tracker.getD { rule, phase }).begin w.now) }
  | moved (a : Activity) (chooses : a = .iterating .choosing → v.activity = a)
      (sleeps : ∀ wake, a = .iterating (.asleep wake) → v.activity = a) : Step rule phase w v { v with activity := a }
  | checked (t : Tracker) (tracked : v.tracker = some t) (checks : v.activity = .iterating .checking) :
      Step rule phase w v
        { v with
          tracker := some (t.check w.barrier.publishedPhase w.now).1
          activity :=
            if (t.check w.barrier.publishedPhase w.now).2 then .resting else .iterating .choosing
          checks :=
            v.checks ++ [⟨w.now, w.barrier.publishedPhase, (t.check w.barrier.publishedPhase w.now).2⟩] }
  | skipped (span : ℕ) : Step rule phase w v
      { v with tracker := v.tracker.map Tracker.countIteration, activity := .iterating (.pausing span) }
  | granted (chooses : v.activity = .iterating .choosing) : Step rule phase w v
      { v with
        tracker := v.tracker.map Tracker.countIteration
        activity := .resting
        begun := v.begun ++ [v.checks.getLast?] }
  | slept (t : Tracker) (span : ℕ) (tracked : v.tracker = some t) (pos : 0 < span)
      (within : ∀ left ∈ t.remaining? w.now, span ≤ left) : Step rule phase w v
      { v with activity := .iterating (.asleep (w.now + span)), sleeps := v.sleeps ++ [⟨w.now, span⟩] }

/-- Every item is begun by a check of its own, which has let it through. -/
structure LetThrough (v : View) : Prop where
  begun : v.begun.Sublist (Check.passing v.checks)
  choosing : v.activity = .iterating .choosing → (v.begun ++ [v.checks.getLast?]).Sublist (Check.passing v.checks)

theorem LetThrough.step {v v' : View} (h : v.LetThrough) (hstep : v.Step rule phase w v') : v'.LetThrough := by
  cases hstep with
  | opened => exact ⟨h.begun, h.choosing⟩
  | moved a hchoosing => exact ⟨h.begun, fun ha => h.choosing ((hchoosing ha).trans ha)⟩
  | skipped | slept => exact ⟨h.begun, nofun⟩
  | granted hchoosing => exact ⟨h.choosing hchoosing, nofun⟩
  | checked t =>
    constructor
    · rw [Check.passing_concat]
      exact h.begun.trans (List.sublist_append_left _ _)
    · cases hdone : (t.check w.barrier.publishedPhase w.now).2 with
      | true => exact nofun
      | false =>
        intro _
        rw [Check.passing_concat, List.getLast?_concat]
        exact h.begun.append (List.Sublist.refl _)

end View

namespace Journal

variable {j : Journal τ} {rule : StopRule} {phase : ℕ} {w : World} {t : Tracker} {slot : Slot τ}

open Performer (WorksBy)

/-- The performer is still at work, and the view has changed as by a step. -/
def Advances (rule : StopRule) (phase : ℕ) (w : World) (j k : Journal τ) : Prop :=
  k.stint.performer.WorksBy rule phase ∧ j.view.Step rule phase w k.view

theorem stint_step (j : Journal τ) (cue : Cue) (w : World) : (j.step cue w).stint = j.stint.step cue w := by
  unfold step Stint.step
  split <;> rfl

theorem stint_run (j : Journal τ) (cues : List (Cue × World)) : (j.run cues).stint = j.stint.run cues := by
  induction cues generalizing j with
  | nil => rfl
  | cons cue cues ih => exact (ih _).trans (by rw [stint_step]; rfl)

/-- A cue on which the performer only goes from one activity to another. -/
theorem Advances.moved (h : j.stint.performer.WorksBy rule phase) {cue : Cue} {a : Activity} {report : Option Report}
    (hcheck : j.stint.performer.checkIn w cue = none) (hreport : report ≠ some (.iteration .item))
    (hadvancing : { j.stint.performer with activity := a }.isAdvancing = false)
    (hchoosing : a = .iterating .choosing → j.stint.performer.activity = a)
    (hasleep : ∀ wake, a = .iterating (.asleep wake) → j.stint.performer.activity = a) :
    j.Advances rule phase w (j.record cue w { j.stint.performer with activity := a } report) := by
  refine ⟨⟨h.turn, h.configured, hadvancing⟩, ?_⟩
  have hsleep : j.stint.performer.sleepIn { j.stint.performer with activity := a } w = none := by
    unfold Performer.sleepIn
    split
    · next hbefore hafter =>
      have hsame := hasleep _ hafter
      dsimp only at hafter
      simp [hbefore, hafter] at hsame
    · rfl
  have hview :
      (j.record cue w { j.stint.performer with activity := a } report).view = { j.view with activity := a } := by
    simp [view, record, Stint.record, hcheck, hsleep, hreport]
  rw [hview]
  exact .moved a hchoosing hasleep

theorem Advances.same (h : j.stint.performer.WorksBy rule phase) {cue : Cue}
    (hcheck : j.stint.performer.checkIn w cue = none) :
    j.Advances rule phase w (j.record cue w j.stint.performer none) :=
  .moved h hcheck (by simp) h.iterates (fun _ => rfl) fun _ _ => rfl

theorem Advances.exhaust (h : j.stint.performer.WorksBy rule phase) {cue : Cue}
    (hcheck : j.stint.performer.checkIn w cue = none) :
    j.Advances rule phase w (j.record cue w j.stint.performer.exhaust.1 j.stint.performer.exhaust.2) :=
  .moved h hcheck (by simp [Performer.exhaust]) rfl (by simp) (by simp)

theorem Advances.goTo (h : j.stint.performer.WorksBy rule phase) {cue : Cue}
    (hcheck : j.stint.performer.checkIn w cue = none) {point : Turn.Point} (hchoosing : point ≠ .choosing)
    (hasleep : ∀ wake, point = .asleep wake → j.stint.performer.activity = .iterating point) :
    j.Advances rule phase w (j.record cue w (j.stint.performer.goTo point).1 (j.stint.performer.goTo point).2) := by
  refine .moved h hcheck (by simp [Performer.goTo]) rfl (fun ha => ?_) fun wake ha => ?_
  · exact absurd (Activity.iterating.inj ha) hchoosing
  · exact hasleep wake (Activity.iterating.inj ha)

/-- A skip, a grant or a denial, by what the first iteration and the limiter are about. -/
theorem Advances.choose (h : j.stint.performer.WorksBy rule phase)
    (hturn : j.stint.performer.turn = some ⟨phase, some t⟩)
    (hact : j.stint.performer.activity = .iterating .choosing) (slot : Slot τ) (jitter : ℕ) :
    let r := j.stint.performer.choose w ⟨phase, some t⟩ t slot jitter
    j.Advances rule phase w (j.record (.goOn jitter) w r.2.1 r.2.2) := by
  obtain ⟨slot', hslot, hrule⟩ := h.configured
  have hcheck := Performer.checkIn_of_ne (p := j.stint.performer) (by simp [hact]) w (.goOn jitter)
  have hsleep := fun q => Performer.sleepIn_of_ne (p := j.stint.performer) (by simp [hact]) q w
  have hgrant : j.Advances rule phase w (j.record (.goOn jitter) w (j.stint.performer.grant ⟨phase, some t⟩ t).1
      (j.stint.performer.grant ⟨phase, some t⟩ t).2) := by
    refine ⟨⟨⟨_, rfl⟩, h.configured, rfl⟩, ?_⟩
    have hstep : j.view.Step rule phase w _ := .granted hact
    simpa [view, record, Stint.record, hcheck, hsleep, hturn, Performer.grant] using hstep
  have hskip : j.Advances rule phase w (j.record (.goOn jitter) w (j.stint.performer.skip ⟨phase, some t⟩ t).1
      (j.stint.performer.skip ⟨phase, some t⟩ t).2) := by
    refine ⟨⟨⟨_, rfl⟩, ⟨{ slot' with skipFirst := false }, ?_, hrule⟩, rfl⟩, ?_⟩
    · have hfound := Participant.slot?_updateSlot j.stint.performer.participant phase
        (fun s => { s with skipFirst := false }) phase
      rw [if_pos rfl, hslot] at hfound
      exact hfound
    · have hstep : j.view.Step rule phase w _ := .skipped j.stint.performer.participant.pause.nanos
      simpa [view, record, Stint.record, hcheck, hsleep, hturn, Performer.skip, Performer.goTo] using hstep
  unfold Performer.choose
  split
  · exact hskip
  · split
    · dsimp only
      split
      · exact hgrant
      · exact .goTo h hcheck (by simp) (by simp)
    · exact hgrant

theorem Advances.check (h : j.stint.performer.WorksBy rule phase)
    (hturn : j.stint.performer.turn = some ⟨phase, some t⟩)
    (hact : j.stint.performer.activity = .iterating .checking) (slot : Slot τ) (jitter : ℕ) :
    let r := j.stint.performer.iterate w ⟨phase, some t⟩ t slot jitter .checking
    j.Advances rule phase w (j.record (.goOn jitter) w r.2.1 r.2.2) := by
  obtain ⟨slot', hslot, hrule⟩ := h.configured
  have hcheck : j.stint.performer.checkIn w (.goOn jitter) =
      some ⟨w.now, w.barrier.publishedPhase, (t.check w.barrier.publishedPhase w.now).2⟩ := by
    simp [Performer.checkIn, hact, hturn, hslot]
  have hsleep := fun q => Performer.sleepIn_of_ne (p := j.stint.performer) (by simp [hact]) q w
  have htracked : j.view.tracker = some t := by simp [view, hturn]
  have hstep : j.view.Step rule phase w _ := .checked t htracked hact
  simp only [Performer.iterate]
  cases hdone : (t.check w.barrier.publishedPhase w.now).2 with
  | true =>
    refine ⟨⟨⟨_, rfl⟩, h.configured, rfl⟩, ?_⟩
    simpa [view, record, Stint.record, hcheck, hsleep, hdone, Performer.exhaust] using hstep
  | false =>
    refine ⟨⟨⟨_, rfl⟩, h.configured, rfl⟩, ?_⟩
    simpa [view, record, Stint.record, hcheck, hsleep, hdone, Performer.goTo] using hstep

theorem Advances.pause (h : j.stint.performer.WorksBy rule phase)
    (hturn : j.stint.performer.turn = some ⟨phase, some t⟩) {span : ℕ}
    (hact : j.stint.performer.activity = .iterating (.pausing span)) (slot : Slot τ) (jitter : ℕ) :
    let r := j.stint.performer.iterate w ⟨phase, some t⟩ t slot jitter (.pausing span)
    j.Advances rule phase w (j.record (.goOn jitter) w r.2.1 r.2.2) := by
  have hcheck := Performer.checkIn_of_ne (p := j.stint.performer) (by simp [hact]) w (.goOn jitter)
  have htracked : j.view.tracker = some t := by simp [view, hturn]
  have hwithin : ∀ left ∈ t.remaining? w.now, (t.remaining? w.now).elim span (min span) ≤ left := by
    intro left hleft
    rw [hleft]
    exact Nat.min_le_right span left
  simp only [Performer.iterate]
  generalize (t.remaining? w.now).elim span (min span) = span' at hwithin
  split
  · split
    · exact .exhaust h hcheck
    · exact .goTo h hcheck (by simp) (by simp)
  · next hpos =>
    split
    · exact .exhaust h hcheck
    · refine ⟨⟨h.turn, h.configured, rfl⟩, ?_⟩
      have hstep : j.view.Step rule phase w _ := .slept t span' htracked (Nat.pos_of_ne_zero hpos) hwithin
      simpa [view, record, Stint.record, hcheck, Performer.sleepIn, Performer.goTo, hact] using hstep

theorem Advances.goOn (h : j.stint.performer.WorksBy rule phase) (jitter : ℕ) :
    let r := j.stint.performer.step w jitter
    j.Advances rule phase w (j.record (.goOn jitter) w r.2.1 r.2.2) := by
  obtain ⟨tracker, hturn⟩ := h.turn
  obtain ⟨slot, hslot, -⟩ := h.configured
  cases hact : j.stint.performer.activity with
  | resting =>
    rw [show j.stint.performer.step w jitter = (w, j.stint.performer, none) by simp [Performer.step, hact]]
    exact .same h (Performer.checkIn_of_ne (by simp [hact]) w _)
  | advancing point wait =>
    have hiterates := h.iterates
    simp [Performer.isAdvancing, hact] at hiterates
  | iterating point =>
    cases tracker with
    | none =>
      rw [show j.stint.performer.step w jitter = (w, j.stint.performer.exhaust) by simp [Performer.step, hact, hturn]]
      exact .exhaust h (by simp [Performer.checkIn, hturn])
    | some t =>
      rw [Performer.step_iterating hact hturn hslot]
      cases point with
      | watching =>
        have hcheck := Performer.checkIn_of_ne (p := j.stint.performer) (by simp [hact]) w (.goOn jitter)
        simp only [Performer.iterate]
        split
        · exact .exhaust h hcheck
        · exact .goTo h hcheck (by simp) (by simp)
      | checking => exact .check h hturn hact slot jitter
      | choosing => exact .choose h hturn hact slot jitter
      | pausing span => exact .pause h hturn hact slot jitter
      | asleep wake =>
        have hcheck := Performer.checkIn_of_ne (p := j.stint.performer) (by simp [hact]) w (.goOn jitter)
        simp only [Performer.iterate]
        split
        · exact .exhaust h hcheck
        · split
          · exact .goTo h hcheck (by simp) fun _ _ => hact
          · exact .goTo h hcheck (by simp) (by simp)

theorem view_openTurn (h : j.stint.performer.WorksBy rule phase) (hrest : j.stint.performer.activity = .resting)
    (w : World) :
    (j.record .openTurn w (j.stint.performer.openTurn w.now) none).view =
      { j.view with tracker := some ((j.view.tracker.getD { rule, phase }).begin w.now) } := by
  obtain ⟨tracker, hturn⟩ := h.turn
  have hact : (j.stint.performer.openTurn w.now).activity = j.stint.performer.activity := rfl
  simp [view, record, Stint.record, Performer.checkIn, Performer.sleepIn, h.openTurn hturn, hact, hrest, hturn]

theorem Advances.openTurn (h : j.stint.performer.WorksBy rule phase) (hrest : j.stint.performer.activity = .resting) :
    j.Advances rule phase w (j.record .openTurn w (j.stint.performer.openTurn w.now) none) := by
  obtain ⟨tracker, hturn⟩ := h.turn
  refine ⟨⟨⟨_, h.openTurn hturn w.now⟩, h.configured, h.iterates⟩, ?_⟩
  rw [view_openTurn h hrest]
  exact .opened

/-- What a cue does to a performer at work, and to the notes on it. To ask for the next phase would end the stint. -/
theorem advances (h : j.stint.performer.WorksBy rule phase) (cue : Cue) (w : World) :
    j.Advances rule phase w (j.step cue w) := by
  unfold step
  split
  swap
  · exact ⟨h, .moved _ (fun _ => rfl) fun _ _ => rfl⟩
  next hallows =>
  cases cue with
  | askPhase => cases hallows
  | goOn jitter => exact .goOn h jitter
  | openTurn =>
    rw [Performer.follow]
    split
    swap
    · exact .same h rfl
    next hrest =>
    exact .openTurn h hrest
  | askIteration =>
    rw [Performer.follow]
    split
    swap
    · exact .same h rfl
    next hrest =>
    obtain ⟨tracker, hturn⟩ := h.turn
    obtain ⟨slot, hslot, -⟩ := h.configured
    have hask : j.stint.performer.askIteration =
        ({ j.stint.performer with activity := .iterating .watching }, none) := by
      simp [Performer.askIteration, hturn, hslot]
    rw [hask]
    exact .goTo h rfl (by simp) (by simp)

/-- What a view shows at first and what every step keeps, it shows after a run. The worlds that are still to come may be
spoken of. -/
theorem run_keeps {P : View → List World → Prop} (hstep : ∀ {v v' : View} {w : World} {rest : List World},
    v.Step rule phase w v' → P v (w :: rest) → P v' rest) (h : j.stint.performer.WorksBy rule phase)
    {cues : List (Cue × World)} (hview : P j.view (cues.map Prod.snd)) :
    (j.run cues).stint.performer.WorksBy rule phase ∧ P (j.run cues).view [] := by
  induction cues generalizing j with
  | nil => exact ⟨h, hview⟩
  | cons cue cues ih =>
    obtain ⟨hworks, hsteps⟩ := advances h cue.1 cue.2
    exact ih hworks (hstep hsteps hview)

theorem letThrough_run {p : Performer τ} (h : p.WorksBy rule phase) (hrest : p.activity = .resting)
    (cues : List (Cue × World)) : (run { stint := { performer := p } } cues).view.LetThrough := by
  let start : Journal τ := { stint := { performer := p } }
  have hstart : start.view.LetThrough := by
    refine ⟨List.Sublist.refl _, fun ha => ?_⟩
    simp [view, start, hrest] at ha
  exact (run_keeps (P := fun v _ => v.LetThrough) (fun hstep h => h.step hstep) h hstart).2

theorem length_begun_step (h : j.begun.length = j.stint.replies.count .item) (cue : Cue) (w : World) :
    (j.step cue w).begun.length = (j.step cue w).stint.replies.count .item := by
  unfold step
  split
  · simp only [record, Stint.record, List.length_append, List.count_append, h, Nat.add_left_cancel_iff]
    rcases (j.stint.performer.follow w cue).2.2 with _ | _ | _ | _ <;> rfl
  · exact h

/-- There is one entry for each item of the stint. -/
theorem length_begun_run (h : j.begun.length = j.stint.replies.count .item) (cues : List (Cue × World)) :
    (j.run cues).begun.length = (j.stint.run cues).replies.count .item := by
  rw [← stint_run]
  induction cues generalizing j with
  | nil => exact h
  | cons cue cues ih => exact ih (length_begun_step h cue.1 cue.2)

end Journal

end PhasedWorkload
