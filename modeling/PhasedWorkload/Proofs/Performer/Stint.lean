import PhasedWorkload.Proofs.Performer.Troupe

/-! # Stints

A stint is the work of one performer in one phase: it makes iterators of its turn and asks them for iterations, and it
may give up an iterator after any of its items. Between any two steps the others may do anything to the barrier, to the
limiters and to the clock. The replies that it gets and the tokens that it takes are kept.

The main statement is about a phase of so many iterations. However it is worked through, its iterators hand out one
item for each iteration but the one that is skipped, and then come to their end again and again; every item has cost a
token, and nothing else has.
-/
namespace PhasedWorkload

open Turn (Reply)

variable {τ : Type} {p : Performer τ} {w : World} {n phase items ends : ℕ} {slot : Slot τ} {toSkip : Bool}
  {tracker : Option Tracker} {t : Tracker}

theorem Tracker.check_iterations (hrule : t.rule = .iterations n) (currentPhase now : ℕ) :
    t.check currentPhase now = (t, decide (n ≤ t.count)) := by
  rw [check, hrule]

namespace Performer

def limiter? (p : Performer τ) (w : World) : Option (ℕ × Limiter) :=
  match p.activity, p.turn.bind fun t => t.tracker.bind fun _ => p.participant.slot? t.phase with
  | .iterating .choosing, some slot =>
    if slot.skipFirst then none else slot.limiter.bind fun id => w.limiters[id]?.map fun limiter => (id, limiter)
  | _, _ => none

/-- What a cue does to the limiters: at most one of them is asked for a token. -/
def limitersAfter (p : Performer τ) (w : World) : Cue → List Limiter
  | .goOn _ => (p.limiter? w).elim w.limiters fun asked => w.limiters.set asked.1 (asked.2.consume w.now).1
  | _ => w.limiters

def tokensIn (p : Performer τ) (w : World) : Cue → ℕ
  | .goOn _ => (p.limiter? w).elim 0 fun asked => (asked.2.consume w.now).2.toNat
  | _ => 0

/-- An iterator has to be made before it is asked, and to ask for the next phase ends the stint. -/
def allows (p : Performer τ) : Cue → Bool
  | .askPhase => false
  | .askIteration => p.turn.any fun t => t.tracker.isSome
  | .openTurn | .goOn _ => true

theorem step_iterating {point : Turn.Point} (hact : p.activity = .iterating point)
    (hturn : p.turn = some ⟨phase, some t⟩) (hslot : p.participant.slot? phase = some slot) (w : World) (jitter : ℕ) :
    p.step w jitter = p.iterate w ⟨phase, some t⟩ t slot jitter point := by
  simp [step, hact, hturn, hslot]

theorem limiter?_of_ne (h : p.activity ≠ .iterating .choosing) (w : World) : p.limiter? w = none := by
  unfold limiter?
  split
  · next hact _ => exact absurd hact h
  · rfl

theorem limiter?_choosing (hact : p.activity = .iterating .choosing) (hturn : p.turn = some ⟨phase, some t⟩)
    (hslot : p.participant.slot? phase = some slot) (w : World) :
    p.limiter? w =
      if slot.skipFirst then none else slot.limiter.bind fun id =>
        w.limiters[id]?.map fun limiter => (id, limiter) := by
  simp [limiter?, hact, hturn, hslot]

theorem limiters_choose (p : Performer τ) (w : World) (turn : Turn) (t : Tracker) (slot : Slot τ) (jitter : ℕ) :
    (p.choose w turn t slot jitter).1.limiters =
      (if slot.skipFirst then none else slot.limiter.bind fun id =>
          w.limiters[id]?.map fun limiter => (id, limiter)).elim
        w.limiters fun asked => w.limiters.set asked.1 (asked.2.consume w.now).1 := by
  unfold choose
  split
  · rfl
  · cases slot.limiter with
    | none => rfl
    | some id =>
      rw [Option.bind_some, Option.bind_some]
      cases w.limiters[id]? with
      | none => rfl
      | some limiter =>
        simp only [Option.map_some, Option.elim_some]
        split <;> rfl

theorem limiters_iterate {point : Turn.Point} (hpoint : point ≠ .choosing) (p : Performer τ) (w : World) (turn : Turn)
    (t : Tracker) (slot : Slot τ) (jitter : ℕ) : (p.iterate w turn t slot jitter point).1.limiters = w.limiters := by
  cases point with
  | choosing => exact absurd rfl hpoint
  | watching | checking => rfl
  | pausing span =>
    simp only [iterate]
    split <;> rfl
  | asleep wake =>
    simp only [iterate]
    split <;> rfl

/-- The limiters change in a step as by the call for a token in it, and not otherwise. -/
theorem limiters_follow (p : Performer τ) (w : World) (cue : Cue) :
    (p.follow w cue).1.limiters = p.limitersAfter w cue := by
  cases cue with
  | askPhase | openTurn | askIteration =>
    simp only [follow, limitersAfter]
    split <;> rfl
  | goOn jitter =>
    change (p.step w jitter).1.limiters = _
    simp only [limitersAfter]
    cases hact : p.activity with
    | resting =>
      rw [limiter?_of_ne (by simp [hact]), step]
      simp [hact]
    | advancing point wait =>
      rw [limiter?_of_ne (by simp [hact]), step_advancing hact, advance_eq]
      split <;> rfl
    | iterating point =>
      rcases hturn : p.turn with _ | ⟨phase, _ | t⟩
      · simp [step, limiter?, hact, hturn, exhaust]
      · simp [step, limiter?, hact, hturn, exhaust]
      · cases hslot : p.participant.slot? phase with
        | none => simp [step, limiter?, hact, hturn, hslot, exhaust]
        | some slot =>
          rw [step_iterating hact hturn hslot]
          by_cases hpoint : point = .choosing
          · subst hpoint
            rw [limiter?_choosing hact hturn hslot]
            exact limiters_choose p w _ t slot jitter
          · rw [limiter?_of_ne (by simpa [hact] using hpoint), limiters_iterate hpoint]
            rfl

end Performer

/-- A performer at work in a phase, the replies of its iterators and the tokens that it has taken. -/
structure Stint (τ : Type) where
  performer : Performer τ
  replies : List Reply := []
  tokens : ℕ := 0

namespace Stint

variable {s : Stint τ}

def replyIn : Option Report → List Reply
  | some (.iteration reply) => [reply]
  | _ => []

def record (s : Stint τ) (q : Performer τ) (report : Option Report) (tokens : ℕ) : Stint τ :=
  ⟨q, s.replies ++ replyIn report, s.tokens + tokens⟩

def step (s : Stint τ) (cue : Cue) (w : World) : Stint τ :=
  if s.performer.allows cue then
    s.record (s.performer.follow w cue).2.1 (s.performer.follow w cue).2.2 (s.performer.tokensIn w cue)
  else s

def run (s : Stint τ) (cues : List (Cue × World)) : Stint τ := cues.foldl (fun s cue => s.step cue.1 cue.2) s

def count (s : Stint τ) : ℕ := s.performer.turn.elim 0 Turn.count

def skips (s : Stint τ) (phase : ℕ) : Bool := (s.performer.participant.slot? phase).any Slot.skipFirst

theorem step_goOn {point : Turn.Point} (hact : s.performer.activity = .iterating point)
    (hturn : s.performer.turn = some ⟨phase, some t⟩) (hslot : s.performer.participant.slot? phase = some slot)
    (w : World) (jitter : ℕ) :
    s.step (.goOn jitter) w =
      let r := s.performer.iterate w ⟨phase, some t⟩ t slot jitter point
      s.record r.2.1 r.2.2 (s.performer.tokensIn w (.goOn jitter)) := by
  rw [← Performer.step_iterating hact hturn hslot]
  rfl

structure GoesOn (slot : Slot τ) (w : World) : Prop where
  alive : w.barrier.errored = false
  published : w.barrier.publishedAbort = false
  limiter : ∀ id ∈ slot.limiter, id < w.limiters.length

/-- A stint in a phase of `n` iterations: what it has handed out and what it has left to do. -/
structure Counts (n phase : ℕ) (slot : Slot τ) (toSkip : Bool) (tracker : Option Tracker) (items ends : ℕ)
    (s : Stint τ) : Prop where
  turn : s.performer.turn = some ⟨phase, tracker⟩
  configured : s.performer.participant.slot? phase = some { slot with skipFirst := toSkip }
  tracked : ∀ t ∈ tracker, t.rule = .iterations n
  point : s.performer.activity = .resting ∨ ∃ point t, s.performer.activity = .iterating point ∧ tracker = some t ∧
    (point = .choosing → t.count < n)
  replies : s.replies = List.replicate items .item ++ List.replicate ends .exhausted
  count : tracker.elim 0 Tracker.count = items + (slot.skipFirst && !toSkip).toNat
  bounded : tracker.elim 0 Tracker.count ≤ n
  skipped : toSkip = true → slot.skipFirst = true ∧ items = 0
  ended : 0 < ends → ∃ t, tracker = some t ∧ n ≤ t.count
  tokens : s.tokens = if slot.limiter.isSome then items else 0

/-- Some count, the parts that change in a step left open. -/
def Keeps (n phase : ℕ) (slot : Slot τ) (s : Stint τ) : Prop :=
  ∃ toSkip tracker items ends, s.Counts n phase slot toSkip tracker items ends

theorem counts_begin (hturn : p.turn = some ⟨phase, none⟩) (hrest : p.activity = .resting)
    (hslot : p.participant.slot? phase = some slot) :
    Counts n phase slot slot.skipFirst none 0 0 { performer := p } where
  turn := hturn
  configured := hslot
  tracked := nofun
  point := .inl hrest
  replies := rfl
  count := by simp
  bounded := Nat.zero_le n
  skipped h := ⟨h, rfl⟩
  ended := nofun
  tokens := by simp

namespace Counts

theorem isOver (h : s.Counts n phase slot toSkip (some t) items ends) (hends : 0 < ends) : n ≤ t.count := by
  obtain ⟨_, ⟨⟩, hover⟩ := h.ended hends
  exact hover

/-- Nothing is handed out, and the performer goes to a point of its iterator or comes to rest. -/
theorem moves (h : s.Counts n phase slot toSkip tracker items ends) {q : Performer τ}
    (hturn : q.turn = s.performer.turn) (hslots : q.participant = s.performer.participant)
    (hpoint : q.activity = .resting ∨
      ∃ point t, q.activity = .iterating point ∧ tracker = some t ∧ (point = .choosing → t.count < n)) :
    (s.record q none 0).Counts n phase slot toSkip tracker items ends where
  turn := hturn.trans h.turn
  configured := hslots ▸ h.configured
  tracked := h.tracked
  point := hpoint
  replies := (List.append_nil _).trans h.replies
  count := h.count
  bounded := h.bounded
  skipped := h.skipped
  ended := h.ended
  tokens := h.tokens

theorem goTo (h : s.Counts n phase slot toSkip (some t) items ends) (point : Turn.Point)
    (hpoint : point = .choosing → t.count < n) :
    (s.record (s.performer.goTo point).1 (s.performer.goTo point).2 0).Counts n phase slot toSkip (some t) items ends :=
  h.moves rfl rfl (.inr ⟨point, t, rfl, rfl, hpoint⟩)

theorem exhaust (h : s.Counts n phase slot toSkip (some t) items ends) (hover : n ≤ t.count) :
    (s.record s.performer.exhaust.1 s.performer.exhaust.2 0).Counts n phase slot toSkip (some t) items (ends + 1) where
  __ := h
  turn := h.turn
  configured := h.configured
  point := .inl rfl
  replies := by
    rw [List.replicate_succ', ← List.append_assoc, ← h.replies]
    rfl
  ended _ := ⟨t, rfl, hover⟩
  tokens := h.tokens

theorem grant (h : s.Counts n phase slot false (some t) items ends) (hmore : t.count < n) {taken : ℕ}
    (htaken : taken = slot.limiter.isSome.toNat) :
    (s.record (s.performer.grant ⟨phase, some t⟩ t).1 (s.performer.grant ⟨phase, some t⟩ t).2 taken).Counts n phase slot
      false (some t.countIteration) (items + 1) ends where
  turn := rfl
  configured := h.configured
  tracked := by
    rintro _ ⟨⟩
    exact h.tracked t rfl
  point := .inl rfl
  replies := by
    have hnone : ends = 0 := by
      by_contra hsome
      exact absurd (h.isOver (Nat.pos_of_ne_zero hsome)) (Nat.not_le_of_lt hmore)
    subst hnone
    rw [List.replicate_succ']
    simp [record, replyIn, Performer.grant, h.replies]
  count := by
    have hcount := h.count
    simp only [Option.elim_some, Tracker.countIteration] at hcount ⊢
    omega
  bounded := hmore
  skipped := nofun
  ended hends := ⟨_, rfl, (h.isOver hends).trans (Nat.le_succ _)⟩
  tokens := by
    have htokens := h.tokens
    rw [record, htaken]
    dsimp only
    rw [htokens]
    cases slot.limiter.isSome <;> rfl

/-- The iteration that is skipped counts, and it costs no token. -/
theorem skip (h : s.Counts n phase slot true (some t) items ends) (hmore : t.count < n) :
    (s.record (s.performer.skip ⟨phase, some t⟩ t).1 (s.performer.skip ⟨phase, some t⟩ t).2 0).Counts n phase slot
      false (some t.countIteration) items ends where
  turn := rfl
  configured := by
    have hfound :=
      Participant.slot?_updateSlot s.performer.participant phase (fun s => { s with skipFirst := false }) phase
    rw [if_pos rfl, h.configured] at hfound
    exact hfound
  tracked := by
    rintro _ ⟨⟩
    exact h.tracked t rfl
  point := .inr ⟨_, _, rfl, rfl, nofun⟩
  replies := (List.append_nil _).trans h.replies
  count := by
    have hcount := h.count
    simp only [Option.elim_some, Tracker.countIteration, (h.skipped rfl).1] at hcount ⊢
    simpa using hcount
  bounded := hmore
  skipped := nofun
  ended hends := ⟨_, rfl, (h.isOver hends).trans (Nat.le_succ _)⟩
  tokens := h.tokens

theorem choose (h : s.Counts n phase slot toSkip (some t) items ends) (hmore : t.count < n)
    (hact : s.performer.activity = .iterating .choosing) (hw : GoesOn slot w) (jitter : ℕ) :
    let r := s.performer.choose w ⟨phase, some t⟩ t { slot with skipFirst := toSkip } jitter
    (s.record r.2.1 r.2.2 (s.performer.tokensIn w (.goOn jitter))).Keeps n phase slot := by
  have hlimiter := Performer.limiter?_choosing hact h.turn h.configured w
  unfold Performer.choose
  cases toSkip with
  | true =>
    rw [if_pos rfl] at hlimiter ⊢
    rw [Performer.tokensIn, hlimiter]
    exact ⟨_, _, _, _, h.skip hmore⟩
  | false =>
    rw [if_neg Bool.false_ne_true] at hlimiter ⊢
    cases hid : slot.limiter with
    | none =>
      rw [hid, Option.bind_none] at hlimiter
      rw [Performer.tokensIn, hlimiter]
      exact ⟨_, _, _, _, h.grant hmore (by rw [hid]; rfl)⟩
    | some id =>
      obtain ⟨limiter, hfound⟩ : ∃ limiter, w.limiters[id]? = some limiter :=
        ⟨_, List.getElem?_eq_getElem (hw.limiter id hid)⟩
      rw [hid, Option.bind_some, hfound, Option.map_some] at hlimiter
      simp only [Option.bind_some, hfound]
      rw [Performer.tokensIn, hlimiter, Option.elim_some]
      cases hgranted : (limiter.consume w.now).2 with
      | true => exact ⟨_, _, _, _, h.grant hmore (by rw [hid]; rfl)⟩
      | false => exact ⟨_, _, _, _, h.goTo _ nofun⟩

theorem iterate (h : s.Counts n phase slot toSkip (some t) items ends) {point : Turn.Point}
    (hact : s.performer.activity = .iterating point) (hmore : point = .choosing → t.count < n) (hw : GoesOn slot w)
    (jitter : ℕ) :
    let r := s.performer.iterate w ⟨phase, some t⟩ t { slot with skipFirst := toSkip } jitter point
    (s.record r.2.1 r.2.2 (s.performer.tokensIn w (.goOn jitter))).Keeps n phase slot := by
  by_cases hpoint : point = .choosing
  · subst hpoint
    exact h.choose (hmore rfl) hact hw jitter
  · have htokens : s.performer.tokensIn w (.goOn jitter) = 0 := by
      rw [Performer.tokensIn, Performer.limiter?_of_ne (by simpa [hact] using hpoint)]
      rfl
    rw [htokens]
    cases point with
    | choosing => exact absurd rfl hpoint
    | watching =>
      simp only [Performer.iterate, hw.published, Bool.false_eq_true, if_false]
      exact ⟨_, _, _, _, h.goTo .checking (by rintro ⟨⟩)⟩
    | checking =>
      have hsame : { s.performer with turn := some ⟨phase, some t⟩ } = s.performer := by rw [← h.turn]
      simp only [Performer.iterate, Tracker.check_iterations (h.tracked t rfl), hsame]
      split
      · next hover => exact ⟨_, _, _, _, h.exhaust (of_decide_eq_true hover)⟩
      · next hgoes => exact ⟨_, _, _, _, h.goTo .choosing fun _ => Nat.lt_of_not_le (by simpa using hgoes)⟩
    | pausing span =>
      simp only [Performer.iterate, hw.published, hw.alive, Bool.false_eq_true, if_false]
      split
      · exact ⟨_, _, _, _, h.goTo .watching (by rintro ⟨⟩)⟩
      · exact ⟨_, _, _, _, h.goTo (.asleep _) (by rintro ⟨⟩)⟩
    | asleep wake =>
      simp only [Performer.iterate, hw.alive, Bool.false_eq_true, if_false]
      split
      · exact ⟨_, _, _, _, h.goTo (.asleep _) (by rintro ⟨⟩)⟩
      · exact ⟨_, _, _, _, h.goTo .watching (by rintro ⟨⟩)⟩

theorem openTurn (h : s.Counts n phase slot toSkip tracker items ends) (hrule : slot.rule = .iterations n)
    (hrest : s.performer.activity = .resting) (now : ℕ) :
    (s.record (s.performer.openTurn now) none 0).Keeps n phase slot := by
  have hfresh : Turn.rule s.performer.participant ⟨phase, tracker⟩ = .iterations n := by
    rw [Turn.rule, h.configured]
    exact hrule
  have hcount : (tracker.getD { rule := .iterations n, phase }).count = tracker.elim 0 Tracker.count := by
    cases tracker <;> rfl
  refine ⟨toSkip, some ((tracker.getD { rule := .iterations n, phase }).begin now), items, ends, ?_⟩
  constructor
  case turn => simp only [record, Performer.openTurn, h.turn, Option.map_some, Turn.iterator, hfresh]
  case configured => exact h.configured
  case tracked =>
    rintro _ ⟨⟩
    cases tracker with
    | none => rfl
    | some t => exact h.tracked t rfl
  case point => exact .inl hrest
  case replies => exact (List.append_nil _).trans h.replies
  case count => exact hcount.trans h.count
  case bounded => exact hcount.trans_le h.bounded
  case skipped => exact h.skipped
  case ended =>
    intro hends
    obtain ⟨t, rfl, hover⟩ := h.ended hends
    exact ⟨_, rfl, hover⟩
  case tokens => exact h.tokens

theorem askIteration (h : s.Counts n phase slot toSkip (some t) items ends) :
    (s.record s.performer.askIteration.1 s.performer.askIteration.2 0).Counts n phase slot toSkip (some t) items
      ends := by
  have hask : s.performer.askIteration = ({ s.performer with activity := .iterating .watching }, none) := by
    simp [Performer.askIteration, h.turn, h.configured]
  rw [hask]
  exact h.goTo .watching nofun

theorem step (h : s.Counts n phase slot toSkip tracker items ends) (hrule : slot.rule = .iterations n)
    (hw : GoesOn slot w) (cue : Cue) : (s.step cue w).Keeps n phase slot := by
  have hkeeps : s.Keeps n phase slot := ⟨_, _, _, _, h⟩
  have hsame : ∀ q, q = s.performer → (s.record q none 0).Keeps n phase slot := by
    rintro _ rfl
    exact ⟨_, _, _, _, h.moves rfl rfl h.point⟩
  rw [Stint.step]
  split
  swap
  · exact hkeeps
  next hallows =>
  cases cue with
  | askPhase => cases hallows
  | openTurn =>
    rw [Performer.follow]
    split
    · next hrest => exact h.openTurn hrule hrest w.now
    · exact hsame _ rfl
  | askIteration =>
    rw [Performer.follow]
    split
    · cases tracker with
      | none => simp [Performer.allows, h.turn] at hallows
      | some t => exact ⟨_, _, _, _, h.askIteration⟩
    · exact hsame _ rfl
  | goOn jitter =>
    rw [Performer.follow]
    rcases h.point with hrest | ⟨point, t, hact, rfl, hmore⟩
    · have hstep : s.performer.step w jitter = (w, s.performer, none) := by simp [Performer.step, hrest]
      have htokens : s.performer.tokensIn w (.goOn jitter) = 0 := by
        rw [Performer.tokensIn, Performer.limiter?_of_ne (by simp [hrest])]
        rfl
      rw [hstep, htokens]
      exact hsame _ rfl
    · rw [Performer.step_iterating hact h.turn h.configured]
      exact h.iterate hact hmore hw jitter

/-- What a stint has handed out, as it is seen from outside. -/
theorem tally (h : s.Counts n phase slot toSkip tracker items ends) :
    s.count = items + (slot.skipFirst && !s.skips phase).toNat ∧ items ≤ n - slot.skipFirst.toNat ∧
      (0 < ends → items = n - slot.skipFirst.toNat ∧ s.count = n) := by
  have hcount : s.count = tracker.elim 0 Tracker.count := by
    rw [Stint.count, h.turn]
    rfl
  have hskips : s.skips phase = toSkip := by
    rw [skips, h.configured]
    rfl
  have htotal := h.count
  have hbounded := h.bounded
  have hended : 0 < ends → n ≤ tracker.elim 0 Tracker.count := fun hends => by
    obtain ⟨t, rfl, hover⟩ := h.ended hends
    exact hover
  have hskipped := h.skipped
  rw [hcount, hskips]
  refine ⟨htotal, ?_⟩
  generalize tracker.elim 0 Tracker.count = count at htotal hbounded hended
  cases toSkip with
  | false =>
    rw [Bool.not_false, Bool.and_true] at htotal
    refine ⟨by omega, fun hends => ?_⟩
    have hover := hended hends
    omega
  | true =>
    obtain ⟨hfirst, rfl⟩ := hskipped rfl
    rw [Bool.not_true, Bool.and_false, Bool.toNat_false] at htotal
    rw [hfirst, Bool.toNat_true]
    refine ⟨Nat.zero_le _, fun hends => ?_⟩
    have hover := hended hends
    omega

/-- An iterator that has nothing more to hand out says so after two steps. -/
theorem ends_again (h : s.Counts n phase slot toSkip (some t) items ends) (hover : n ≤ t.count)
    (hrest : s.performer.activity = .resting) (first : World) {second third : World} (hsecond : GoesOn slot second)
    (jitter : ℕ) :
    (s.run [(.askIteration, first), (.goOn jitter, second), (.goOn jitter, third)]).replies =
      s.replies ++ [.exhausted] := by
  let asked : Stint τ := { s with performer := (s.performer.goTo .watching).1 }
  let watched : Stint τ := { s with performer := (s.performer.goTo .checking).1 }
  have hasks : s.step .askIteration first = asked := by
    simp [Stint.step, Performer.allows, Performer.follow, Performer.askIteration, Performer.tokensIn, Performer.goTo,
      record, replyIn, h.turn, h.configured, hrest, asked]
  have hwatches : asked.step (.goOn jitter) second = watched := by
    have hlimiter : asked.performer.limiter? second = none :=
      Performer.limiter?_of_ne (by simp [asked, Performer.goTo]) _
    rw [step_goOn (s := asked) rfl h.turn h.configured, Performer.tokensIn, hlimiter]
    simp only [Performer.iterate, hsecond.published]
    simp [record, replyIn, Performer.goTo, asked, watched]
  have hchecks : (watched.step (.goOn jitter) third).replies = s.replies ++ [.exhausted] := by
    rw [step_goOn (s := watched) rfl h.turn h.configured]
    simp only [Performer.iterate, Tracker.check_iterations (h.tracked t rfl), decide_eq_true hover]
    rfl
  change (((s.step .askIteration first).step (.goOn jitter) second).step (.goOn jitter) third).replies = _
  rw [hasks, hwatches, hchecks]

end Counts

theorem Keeps.run (h : s.Keeps n phase slot) (hrule : slot.rule = .iterations n) {cues : List (Cue × World)}
    (hcues : ∀ cue ∈ cues, GoesOn slot cue.2) : (s.run cues).Keeps n phase slot := by
  induction cues generalizing s with
  | nil => exact h
  | cons cue cues ih =>
    obtain ⟨_, _, _, _, hcounts⟩ := h
    exact ih (hcounts.step hrule (hcues cue List.mem_cons_self) cue.1) fun later hmem =>
      hcues later (List.mem_cons_of_mem _ hmem)

/-- In a phase of `n` iterations, however they are asked for and whatever the others do meanwhile, the iterators hand
out items, at most one for each iteration but the one that is skipped, and after the last of them nothing. The count
is that of the items and of the skipped iteration, if it is over. Each item has cost a token, and the limiters change by
these calls for tokens only. -/
theorem iterations_exact (hturn : p.turn = some ⟨phase, none⟩) (hrest : p.activity = .resting)
    (hslot : p.participant.slot? phase = some slot) (hrule : slot.rule = .iterations n) {cues : List (Cue × World)}
    (hcues : ∀ cue ∈ cues, GoesOn slot cue.2) :
    let s := run { performer := p } cues
    ∃ items ends, s.replies = List.replicate items .item ++ List.replicate ends .exhausted ∧
      items ≤ n - slot.skipFirst.toNat ∧
      s.count = items + (slot.skipFirst && !s.skips phase).toNat ∧
      s.tokens = (if slot.limiter.isSome then items else 0) ∧
      (∀ w cue, (s.performer.follow w cue).1.limiters = s.performer.limitersAfter w cue) ∧
      (0 < ends → items = n - slot.skipFirst.toNat ∧ s.count = n ∧
        (s.performer.activity = .resting → ∀ first second third jitter, GoesOn slot second →
          (s.run [(.askIteration, first), (.goOn jitter, second), (.goOn jitter, third)]).replies =
            s.replies ++ [.exhausted])) := by
  intro s
  obtain ⟨toSkip, tracker, items, ends, h⟩ :=
    Keeps.run ⟨_, _, _, _, counts_begin (n := n) hturn hrest hslot⟩ hrule hcues
  obtain ⟨hcount, hitems, hended⟩ := h.tally
  refine ⟨items, ends, h.replies, hitems, hcount, h.tokens, Performer.limiters_follow _, fun hends => ?_⟩
  obtain ⟨hall, htotal⟩ := hended hends
  refine ⟨hall, htotal, fun hrest first second third jitter hsecond => ?_⟩
  obtain ⟨t, rfl, hover⟩ := h.ended hends
  exact h.ends_again hover hrest first hsecond jitter

/-- Three iterations, of which the first is skipped. The second waits for its token, which somebody else has taken; the
iterator is given up after it, and a new one hands out the third. -/
theorem iterations_exact_denied :
    let slot : Slot Unit := ⟨(), .iterations 3, some 0, true⟩
    let p : Performer Unit :=
      { participant := { actor := "", slots := [(0, slot)], pause := ⟨0⟩ }, turn := some ⟨0, none⟩ }
    let w (word : ℤ) (now : ℕ) : World := { limiters := [⟨⟨1, ⟨10⟩⟩, word, 2⟩], now }
    let goOn (steps : ℕ) (w : World) : List (Cue × World) := List.replicate steps (.goOn 3, w)
    let cues := [(.openTurn, w 0 5), (.askIteration, w 0 5)] ++ goOn 8 (w 0 5) ++ goOn 4 (w 0 18) ++
      [(.openTurn, w 10 20), (.askIteration, w 10 20)] ++ goOn 3 (w 10 20) ++ [(.askIteration, w 20 21)] ++
        goOn 2 (w 20 21)
    let s := run { performer := p } cues
    (p.turn = some ⟨0, none⟩ ∧ p.activity = .resting ∧ p.participant.slot? 0 = some slot ∧ slot.rule = .iterations 3 ∧
      ∀ cue ∈ cues, GoesOn slot cue.2) ∧
    s.replies = [.item, .item, .exhausted] ∧ s.count = 3 ∧ s.tokens = 2 ∧
    ∃ items ends, s.replies = List.replicate items .item ++ List.replicate ends .exhausted ∧ items ≤ 3 - 1 := by
  intro slot p w goOn cues s
  have hcues : ∀ cue ∈ cues, GoesOn slot cue.2 := by
    have hworld : ∀ word now, GoesOn slot (w word now) := fun word now => ⟨rfl, rfl, by rintro _ ⟨⟩; exact Nat.one_pos⟩
    simp [cues, goOn, hworld]
  have hturn : p.turn = some ⟨0, none⟩ := rfl
  have hslot : p.participant.slot? 0 = some slot := rfl
  obtain ⟨items, ends, hreplies, hitems, _⟩ := iterations_exact hturn rfl hslot rfl hcues
  exact ⟨⟨hturn, rfl, hslot, rfl, hcues⟩, by decide, by decide, by decide, items, ends, hreplies, hitems⟩

end Stint

end PhasedWorkload
