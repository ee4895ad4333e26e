import PhasedWorkload.Proofs.Barrier.Aftermath
import PhasedWorkload.Proofs.Performer.Troupe

/-! # Performers after an abort

After an abort no performer is given a phase any more. Whoever asks for one is refused, whatever it owes, and
is told from then on that the run is over. A request for an iteration that has not been past the check of the
abort flag finds nothing more to do; one that has been may still be handed an item, but no other follows it.
-/
namespace PhasedWorkload

open Barrier
open Participant (Reply)

variable {τ : Type} {b : Barrier} {w : World} {p : Performer τ} {r : World × Performer τ × Option Report}
  {cue : Cue}

namespace Performer

/-- What may follow on a cue: nothing in the middle of a request for the next phase, something about an
iteration, or the next step of a request for the next phase. -/
inductive Follows (p : Performer τ) (w : World) : Cue → World × Performer τ × Option Report → Prop where
  | ignores (cue : Cue) (asks : p.isAdvancing = true) (other : ∀ jitter, cue ≠ .goOn jitter) :
    Follows p w cue (w, p, none)
  | iterates (cue : Cue) (r : World × Performer τ × Option Report) (rests : p.isAdvancing = false)
    (iterates : p.Iterates w r) : Follows p w cue r
  | asks (rests : p.activity = .resting) : Follows p w .askPhase (w, p.askPhase)
  | advances (jitter : ℕ) (point : Participant.Point) (wait : Option Wait)
    (asks : p.activity = .advancing point wait) : Follows p w (.goOn jitter) (p.advance w point wait)

theorem follows (p : Performer τ) (w : World) (cue : Cue) : p.Follows w cue (p.follow w cue) := by
  by_cases hpress : p.Presses cue
  · cases cue with
    | askPhase =>
      have hrest : p.activity = .resting := hpress
      rw [follow, if_pos hrest]
      exact .asks hrest
    | goOn jitter =>
      obtain ⟨point, wait, hact⟩ := exists_advancing hpress
      have hfollow : p.follow w (.goOn jitter) = p.advance w point wait := step_advancing hact w jitter
      rw [hfollow]
      exact .advances jitter point wait hact
    | openTurn | askIteration => exact hpress.elim
  · cases hact : p.isAdvancing with
    | true =>
      rw [follow_advancing hact hpress]
      refine .ignores cue hact fun jitter hcue => ?_
      subst hcue
      exact hpress hact
    | false => exact .iterates cue _ hact (iterates_follow hact hpress w)

theorem Follows.halts (hr : p.Follows w cue r) (h : Halts b w.barrier) : Halts b r.1.barrier := by
  cases hr with
  | ignores | asks => exact h
  | iterates _ _ _ hiter =>
    rw [hiter.1]
    exact h
  | advances jitter point wait =>
    rw [barrier_advance]
    rcases (visit_aborted h.errored point wait).1 with hsame | hsame <;> rw [hsame]
    · exact h
    · exact h.started

/-! ## Replies -/

theorem Iterates.replyIn (h : p.Iterates w r) : Troupe.replyIn r.2.2 = [] := by
  obtain ⟨_, _, hreport⟩ := h
  generalize r.2.2 = report at hreport
  cases hreport 0 false with
  | nothing | iteration => rfl

theorem replyIn_askPhase (p : Performer τ) :
    Troupe.replyIn p.askPhase.2 = if p.participant.finished then [Reply.over] else [] := by
  cases hf : p.participant.finished with
  | true =>
    rw [askPhase_finished hf]
    rfl
  | false =>
    rw [askPhase_unfinished hf]
    rfl

theorem takePhase_gives_phase {progress : Participant.Progress} {number : ℕ}
    (h : .phase number ∈ Troupe.replyIn (takePhase p progress).2) : progress = .replied (.phase number) := by
  rcases progress with _ | _ | _ | _ <;> simp_all [takePhase, Troupe.replyIn]

theorem proceed_gives_no_phase (participant : Participant τ) {point : Participant.Point} {answer : Answer}
    (number : ℕ) (h : answer = .aborted ∨ answer = .went false ∨ point = .deciding ∨ point = .confirming) :
    (participant.proceed point answer).2 ≠ .replied (.phase number) := by
  rcases h with rfl | rfl | rfl | rfl
  · cases point <;> nofun
  · cases point <;> nofun
  · rcases answer with _ | _ | _ <;> nofun
  · rcases answer with _ | _ | _ | _ <;> nofun

theorem Follows.gives_no_phase (hr : p.Follows w cue r) (hb : w.barrier.errored = true) (number : ℕ) :
    .phase number ∉ Troupe.replyIn r.2.2 := by
  cases hr with
  | ignores => simp [Troupe.replyIn]
  | iterates _ _ _ hiter => simp [hiter.replyIn]
  | asks =>
    dsimp only
    rw [replyIn_askPhase]
    split <;> simp
  | advances jitter point wait =>
    obtain ⟨_, answer, ho, ha⟩ := visit_aborted hb point wait
    rw [advance_eq]
    simp only [ho]
    intro hmem
    exact proceed_gives_no_phase p.participant number ha (takePhase_gives_phase hmem)

/-- The request for the next phase is refused in at most so many steps. -/
inductive Refusing (p : Performer τ) : ℕ → Prop where
  | settling (pending : Pending) (asks : p.activity = .advancing (.settling pending) none) : Refusing p 1
  | deciding (asks : p.activity = .advancing .deciding none) : Refusing p 2
  | confirming (asks : p.activity = .advancing .confirming none) : Refusing p 1

theorem Refusing.isAdvancing {n : ℕ} (h : p.Refusing n) : p.isAdvancing = true := by
  cases h with
  | settling _ asks | deciding asks | confirming asks => simp [Performer.isAdvancing, asks]

/-- A participant that knows that the run is over and does not ask for another phase. -/
def HasEnded (p : Performer τ) : Prop := p.participant.finished = true ∧ p.isAdvancing = false

theorem refusing_askPhase (hf : p.participant.finished = false) : ∃ n, n ≤ 2 ∧ p.askPhase.1.Refusing n := by
  rw [askPhase_unfinished hf]
  cases hp : p.participant.pending with
  | none => exact ⟨2, le_rfl, .deciding rfl⟩
  | some pending => exact ⟨1, Nat.le_succ 1, .settling pending rfl⟩

theorem visit_settling (hb : b.errored = true) (pending : Pending) :
    ((Participant.Point.settling pending).visit b none).outcome = .answered (.went false) := by
  cases pending with
  | finish => simp [Participant.Point.visit, Participant.Point.enter, enter_finish_aborted true hb]
  | advance phase =>
    have hwake : (Participant.Point.settling (.advance phase)).visit b none = b.wake (.advanced phase) := rfl
    rw [hwake, wake_of_not_holds (holds_of_errored hb _)]
    simp [leave, settle, hb]

/-- A step of a request that is refused, which is the refusal itself or brings it nearer. -/
theorem Refusing.advance {n : ℕ} (h : p.Refusing n) (hw : Halts b w.barrier) {point : Participant.Point}
    {wait : Option Wait} (hact : p.activity = .advancing point wait) :
    let r := p.advance w point wait
    (Troupe.replyIn r.2.2 = [] ∧ ∃ m, m < n ∧ r.2.1.Refusing m) ∨
      (Troupe.replyIn r.2.2 = [.aborted] ∧ r.2.1.HasEnded) := by
  intro r
  have hr : r = p.advance w point wait := rfl
  rw [advance_eq] at hr
  cases h with
  | settling pending asks =>
    cases asks.symm.trans hact
    rw [visit_settling hw.errored] at hr
    exact .inr (by rw [hr]; exact ⟨rfl, rfl, rfl⟩)
  | deciding asks =>
    cases asks.symm.trans hact
    have hover : w.barrier.hasMorePhases = false := by simp [hasMorePhases, hw.errored]
    refine .inl ?_
    simp only [Participant.Point.visit, Participant.Point.enter, hover] at hr
    rw [hr]
    exact ⟨rfl, 1, Nat.one_lt_two, .confirming rfl⟩
  | confirming asks =>
    cases asks.symm.trans hact
    simp only [Participant.Point.visit, Participant.Point.enter, hw.aborted] at hr
    exact .inr (by rw [hr]; exact ⟨rfl, rfl, rfl⟩)

theorem HasEnded.follows (h : p.HasEnded) (hr : p.Follows w cue r) :
    r.2.1.HasEnded ∧ ∃ k, Troupe.replyIn r.2.2 = List.replicate k Reply.over := by
  obtain ⟨hfinished, hrest⟩ := h
  cases hr with
  | ignores _ asks => simp [hrest] at asks
  | iterates _ _ _ hiter =>
    have hkeeps := hiter.2.1
    exact ⟨⟨hkeeps.finished.trans hfinished, hkeeps.rest⟩, 0, hiter.replyIn⟩
  | asks =>
    dsimp only
    rw [askPhase_finished hfinished]
    exact ⟨⟨hfinished, rfl⟩, 1, rfl⟩
  | advances _ point wait asks => simp [Performer.isAdvancing, asks] at hrest

/-! ## Items -/

/-- Whether it has been past the check of the abort flag in its request for an iteration. -/
def hasChecked (p : Performer τ) : Bool :=
  match p.activity with
  | .iterating .checking | .iterating .choosing => true
  | _ => false

def itemsIn : Option Report → ℕ
  | some (.iteration .item) => 1
  | _ => 0

/-- A step that hands out an item or leaves the check of the abort flag behind uses up a check. -/
def Spends (p : Performer τ) (r : World × Performer τ × Option Report) : Prop :=
  itemsIn r.2.2 + r.2.1.hasChecked.toNat ≤ p.hasChecked.toNat

theorem spends_quiet (hitem : itemsIn r.2.2 = 0) (hcheck : r.2.1.hasChecked = false) : p.Spends r := by
  rw [Spends, hitem, hcheck]
  exact Nat.zero_le _

theorem spends_same (p : Performer τ) (w : World) : p.Spends (w, p, none) := (Nat.zero_add _).le

theorem spends_takePhase (p q : Performer τ) (w : World) (progress : Participant.Progress) :
    p.Spends (w, takePhase q progress) := by
  rcases progress with _ | _ | _ | _ <;> exact spends_quiet rfl rfl

theorem spends_choose (hact : p.activity = .iterating .choosing) (w : World) (t : Turn) (tracker : Tracker)
    (slot : Slot τ) (jitter : ℕ) : p.Spends (p.choose w t tracker slot jitter) := by
  have hgrant : ∀ w', p.Spends (w', p.grant t tracker) := by
    intro w'
    simp [Spends, hasChecked, hact, grant, itemsIn]
  unfold choose
  split
  · exact spends_quiet rfl rfl
  · split
    · dsimp only
      split
      · exact hgrant _
      · exact spends_quiet rfl rfl
    · exact hgrant _

theorem spends_iterate (hw : Halts b w.barrier) {point : Turn.Point} (hact : p.activity = .iterating point)
    (t : Turn) (tracker : Tracker) (slot : Slot τ) (jitter : ℕ) :
    p.Spends (p.iterate w t tracker slot jitter point) := by
  cases point with
  | watching =>
    simp only [iterate, hw.aborted, if_true]
    exact spends_quiet rfl rfl
  | checking =>
    simp only [iterate]
    split
    · exact spends_quiet rfl rfl
    · simp [Spends, hasChecked, hact, goTo, itemsIn]
  | choosing => exact spends_choose hact w t tracker slot jitter
  | pausing span =>
    simp only [iterate, hw.aborted, hw.errored, if_true]
    split <;> exact spends_quiet rfl rfl
  | asleep wake =>
    simp only [iterate, hw.errored, if_true]
    exact spends_quiet rfl rfl

theorem spends_follow (hw : Halts b w.barrier) (p : Performer τ) (cue : Cue) : p.Spends (p.follow w cue) := by
  cases cue with
  | askPhase =>
    simp only [follow]
    split
    · cases hf : p.participant.finished with
      | true =>
        rw [askPhase_finished hf]
        exact spends_quiet rfl rfl
      | false =>
        rw [askPhase_unfinished hf]
        exact spends_quiet rfl rfl
    · exact spends_same p w
  | openTurn =>
    simp only [follow]
    split
    · next hrest => exact spends_quiet rfl (by simp [hasChecked, openTurn, hrest])
    · exact spends_same p w
  | askIteration =>
    simp only [follow]
    split
    · unfold askIteration
      split <;> exact spends_quiet rfl rfl
    · exact spends_same p w
  | goOn jitter =>
    change p.Spends (p.step w jitter)
    unfold step
    split
    · exact spends_same p w
    · next point wait hact =>
      rw [advance_eq]
      split
      · exact spends_quiet rfl rfl
      · exact spends_takePhase p _ _ _
    · next point hact =>
      split
      · exact spends_iterate hw hact _ _ _ jitter
      · exact spends_quiet rfl rfl

end Performer

namespace Troupe

variable {t u v : Troupe τ}

/-- What happens around performers: a step of theirs, or something that anybody else does to the barrier. -/
inductive Occurrence where
  | own (action : Action)
  | other (operation : Operation)
deriving DecidableEq, Repr

def occur (t : Troupe τ) : Occurrence → Troupe τ
  | .own action => t.step action
  | .other operation => { t with world.barrier := t.world.barrier.operate operation }

def history (t : Troupe τ) (occurrences : List Occurrence) : Troupe τ := occurrences.foldl occur t

inductive Occurs (t : Troupe τ) : Occurrence → Troupe τ → Prop where
  | ignores (who : ℕ) (cue : Cue) (absent : t.performers[who]? = none) : Occurs t (.own (.cue who cue)) t
  | follows (who : ℕ) (cue : Cue) (p : Performer τ) (present : t.performers[who]? = some p) :
    Occurs t (.own (.cue who cue)) (t.record who (p.follow t.world cue))
  | around (o : Occurrence) (w : World) (others : ∀ who cue, o ≠ .own (.cue who cue)) :
    Occurs t o { t with world := w }

theorem occurs (t : Troupe τ) (o : Occurrence) : t.Occurs o (t.occur o) := by
  cases o with
  | other operation => exact .around _ _ nofun
  | own action =>
    cases action with
    | tick nanos => exact .around _ _ nofun
    | abort => exact .around _ _ nofun
    | cue who cue =>
      cases hp : t.performers[who]? with
      | none =>
        have hsame : t.occur (.own (.cue who cue)) = t := by simp [occur, step, hp]
        rw [hsame]
        exact .ignores who cue hp
      | some p =>
        have hrecord : t.occur (.own (.cue who cue)) = t.record who (p.follow t.world cue) := by
          simp [occur, step, hp]
        rw [hrecord]
        exact .follows who cue p hp

theorem halts_occur (h : Halts b t.world.barrier) (o : Occurrence) : Halts b (t.occur o).world.barrier := by
  cases o with
  | other operation => exact h.operate operation
  | own action =>
    cases action with
    | tick nanos => exact h
    | abort =>
      change Halts b t.world.barrier.abort
      rwa [h.abort_eq]
    | cue who cue =>
      cases hp : t.performers[who]? with
      | none => simpa [occur, step, hp] using h
      | some p => simpa [occur, step, hp, record] using (p.follows t.world cue).halts h

/-! ## Items -/

def itemsOf (t : Troupe τ) (who : ℕ) : ℕ := t.items.countP fun item => item.1 = who

/-- Whether a performer has been past the check of the abort flag, as a number of items. -/
def checked (t : Troupe τ) (who : ℕ) : ℕ := (t.performers[who]?.any Performer.hasChecked).toNat

theorem itemsOf_record (t : Troupe τ) (who i : ℕ) (r : World × Performer τ × Option Report) :
    (t.record who r).itemsOf i ≤ t.itemsOf i + if i = who then Performer.itemsIn r.2.2 else 0 := by
  have hitems : (t.record who r).items =
      t.items ++ (Incident.of who r.2.1 r.2.2).reverse.filterMap Incident.item? := by
    simp [items, record]
  rw [itemsOf, hitems, List.countP_append]
  refine Nat.add_le_add_left ?_ _
  rcases r.2.2 with _ | _ | _ | _
  · simp [Incident.of]
  · exact Nat.zero_le _
  · cases hturn : r.2.1.turn with
    | none => simp [Incident.of, hturn]
    | some turn =>
      by_cases hi : i = who
      · simp [Incident.of, hturn, Incident.item?, Performer.itemsIn, hi]
      · simp [Incident.of, hturn, Incident.item?, hi, Ne.symm hi]
  · simp [Incident.of]

theorem spends_record {p : Performer τ} {who : ℕ} (hp : t.performers[who]? = some p)
    {r : World × Performer τ × Option Report} (hr : p.Spends r) (i : ℕ) :
    (t.record who r).itemsOf i + (t.record who r).checked i ≤ t.itemsOf i + t.checked i := by
  have hitems := itemsOf_record t who i r
  by_cases hi : i = who
  · subst hi
    have hspends : Performer.itemsIn r.2.2 + r.2.1.hasChecked.toNat ≤ p.hasChecked.toNat := hr
    have hnew : (t.record i r).checked i = r.2.1.hasChecked.toNat := by
      obtain ⟨hlt, _⟩ := List.getElem?_eq_some_iff.mp hp
      simp [checked, record, hlt]
    have hold : t.checked i = p.hasChecked.toNat := by simp [checked, hp]
    rw [if_pos rfl] at hitems
    omega
  · have hsame : (t.record who r).checked i = t.checked i := by
      simp [checked, record, List.getElem?_set_ne (Ne.symm hi)]
    rw [if_neg hi] at hitems
    omega

/-! ## Refusals -/

/-- What has become of a request for the next phase that was begun after an abort, and of those after it. -/
inductive Refusal (old : List Reply) (steps : ℕ) (p : Performer τ) (replies : List Reply) : Prop where
  | soon (n : ℕ) (refusing : p.Refusing n) (few : steps + n ≤ 2) (same : replies = old)
  | refused (k : ℕ) (ended : p.HasEnded) (told : replies = old ++ .aborted :: List.replicate k Reply.over)

/-- The next step of what a performer is doing. -/
def Occurrence.goesOn (who : ℕ) : Occurrence → Bool
  | .own (.cue i (.goOn _)) => i = who
  | _ => false

theorem goesOn_eq_false {who : ℕ} {o : Occurrence} (h : ∀ cue, o ≠ .own (.cue who cue)) : o.goesOn who = false := by
  cases o with
  | other operation => rfl
  | own action =>
    cases action with
    | tick nanos => rfl
    | abort => rfl
    | cue other cue =>
      cases cue with
      | goOn jitter =>
        have hother : other ≠ who := by
          intro hsame
          exact h (.goOn jitter) (by rw [hsame])
        simp [Occurrence.goesOn, hother]
      | askPhase | openTurn | askIteration => rfl

theorem Refusal.follows {old replies : List Reply} {steps : ℕ} (h : Refusal old steps p replies)
    (hw : Halts b w.barrier) (hr : p.Follows w cue r) (who : ℕ) :
    Refusal old (steps + if Occurrence.goesOn who (.own (.cue who cue)) then 1 else 0) r.2.1
      (replies ++ replyIn r.2.2) := by
  cases h with
  | soon n refusing few same =>
    cases hr with
    | ignores _ _ other =>
      have hquiet : Occurrence.goesOn who (.own (.cue who cue)) = false := by
        cases cue with
        | goOn jitter => exact absurd rfl (other jitter)
        | askPhase | openTurn | askIteration => rfl
      rw [hquiet]
      exact .soon n refusing few (by simp [replyIn, same])
    | iterates _ _ rests => simp [refusing.isAdvancing] at rests
    | asks rests =>
      have hrest := Performer.isAdvancing_eq_false rests
      simp [refusing.isAdvancing] at hrest
    | advances jitter point wait asks =>
      rcases refusing.advance hw asks with ⟨hreply, m, hm, hrefusing⟩ | ⟨hreply, hended⟩
      · refine .soon m hrefusing ?_ (by rw [hreply, same, List.append_nil])
        simp only [Occurrence.goesOn, decide_true, if_pos]
        omega
      · exact .refused 0 hended (by rw [hreply, same]; rfl)
  | refused k ended told =>
    obtain ⟨hended, more, hmore⟩ := ended.follows hr
    refine .refused (k + more) hended ?_
    rw [told, hmore, List.append_assoc, List.cons_append, ← List.replicate_add]

/-- What has become of the request of a performer. -/
def Refuses (t : Troupe τ) (who : ℕ) (old : List Reply) (steps : ℕ) : Prop :=
  ∃ p, t.performers[who]? = some p ∧ Refusal old steps p (t.replies who)

theorem Refuses.occurs {old : List Reply} {steps who : ℕ} {o : Occurrence} (h : t.Refuses who old steps)
    (hw : Halts b t.world.barrier) (ho : t.Occurs o u) :
    u.Refuses who old (steps + if o.goesOn who then 1 else 0) := by
  obtain ⟨p, hp, hrefusal⟩ := h
  cases ho with
  | ignores other cue absent =>
    have hne : other ≠ who := by
      rintro rfl
      simp [absent] at hp
    rw [goesOn_eq_false (by simp [hne])]
    exact ⟨p, hp, hrefusal⟩
  | around _ world others =>
    rw [goesOn_eq_false (others who)]
    exact ⟨p, hp, hrefusal⟩
  | follows other cue q present =>
    by_cases hne : other = who
    · subst hne
      obtain rfl : q = p := Option.some.inj (present.symm.trans hp)
      obtain ⟨hlt, _⟩ := List.getElem?_eq_some_iff.mp hp
      refine ⟨(q.follow t.world cue).2.1, List.getElem?_set_self hlt, ?_⟩
      rw [replies_record, if_pos rfl]
      exact hrefusal.follows hw (q.follows t.world cue) other
    · rw [goesOn_eq_false (by simp [hne])]
      refine ⟨p, (List.getElem?_set_ne hne).trans hp, ?_⟩
      rw [replies_record, if_neg (Ne.symm hne), List.append_nil]
      exact hrefusal

theorem Refuses.history {old : List Reply} {steps who : ℕ} (h : t.Refuses who old steps)
    (hw : Halts b t.world.barrier) (further : List Occurrence) :
    (t.history further).Refuses who old (steps + further.countP (Occurrence.goesOn who)) := by
  induction further generalizing t steps with
  | nil => exact h
  | cons o further ih =>
    have hnext := ih (h.occurs hw (t.occurs o)) (halts_occur hw o)
    rwa [Nat.add_assoc, Nat.add_comm (ite _ _ _), ← List.countP_cons] at hnext

/-- After an abort an unfinished performer at rest has asked for the next phase. -/
theorem refuses_askPhase {p : Performer τ} {who : ℕ} (hp : t.performers[who]? = some p)
    (hrest : p.activity = .resting) (hf : p.participant.finished = false) :
    (t.step (.cue who .askPhase)).Refuses who (t.replies who) 0 := by
  obtain ⟨n, hn, hrefusing⟩ := Performer.refusing_askPhase hf
  obtain ⟨hlt, _⟩ := List.getElem?_eq_some_iff.mp hp
  have hfollow : p.follow t.world .askPhase = (t.world, p.askPhase) := if_pos hrest
  have hstep : t.step (.cue who .askPhase) = t.record who (t.world, p.askPhase) := by simp [step, hp, hfollow]
  rw [hstep]
  refine ⟨p.askPhase.1, List.getElem?_set_self hlt, .soon n hrefusing (by omega) ?_⟩
  rw [replies_record, if_pos rfl, Performer.replyIn_askPhase, hf]
  exact List.append_nil _

/-! ## After an abort -/

structure Aftermath (t u : Troupe τ) : Prop where
  halts : Halts t.world.barrier u.world.barrier
  replies : ∀ who, ∃ new, u.replies who = t.replies who ++ new ∧ ∀ number, .phase number ∉ new
  items : ∀ who, u.itemsOf who + u.checked who ≤ t.itemsOf who + t.checked who

theorem aftermath_abort (t : Troupe τ) : Aftermath t (t.step .abort) :=
  ⟨halts_abort t.world.barrier, fun who => ⟨[], (List.append_nil _).symm, by simp⟩, fun _ => le_rfl⟩

theorem Aftermath.occur (h : Aftermath t u) (o : Occurrence) : Aftermath t (u.occur o) := by
  have hhalts := halts_occur h.halts o
  generalize hv : u.occur o = v at hhalts
  have ho := u.occurs o
  rw [hv] at ho
  cases ho with
  | ignores => exact h
  | around _ world => exact ⟨hhalts, h.replies, h.items⟩
  | follows who cue p present =>
    refine ⟨hhalts, fun i => ?_, fun i => ?_⟩
    · obtain ⟨new, hnew, hnone⟩ := h.replies i
      rw [replies_record, hnew, List.append_assoc]
      refine ⟨_, rfl, fun number hmem => ?_⟩
      rcases List.mem_append.mp hmem with hmem | hmem
      · exact hnone number hmem
      · by_cases hi : i = who
        · rw [if_pos hi] at hmem
          exact (p.follows u.world cue).gives_no_phase h.halts.errored number hmem
        · simp [hi] at hmem
    · exact (spends_record present (Performer.spends_follow h.halts p cue) i).trans (h.items i)

theorem Aftermath.history (h : Aftermath t u) (later : List Occurrence) : Aftermath t (u.history later) := by
  induction later generalizing u with
  | nil => exact h
  | cons o later ih => exact ih (h.occur o)

/-- What is known of performers after an abort, and of a request for the next phase that is begun then. -/
structure Stopped (t u : Troupe τ) : Prop where
  replies : ∀ who, ∃ new, u.replies who = t.replies who ++ new ∧ ∀ number, .phase number ∉ new
  items : ∀ who p, t.performers[who]? = some p →
    u.itemsOf who ≤ t.itemsOf who + if p.hasChecked then 1 else 0
  unblocked : ∀ p ∈ u.performers, p.isBlocked u.world = false
  refused : ∀ who p, u.performers[who]? = some p → p.activity = .resting → p.participant.finished = false →
    ∀ further,
      let v := (u.step (.cue who .askPhase)).history further
      (v.replies who = u.replies who ∧ further.countP (Occurrence.goesOn who) < 2) ∨
        ∃ k, v.replies who = u.replies who ++ .aborted :: List.replicate k Reply.over

theorem Aftermath.stopped (h : Aftermath t u) : t.Stopped u where
  replies := h.replies
  items := by
    intro who p hp
    have hchecked : t.checked who = if p.hasChecked then 1 else 0 := by
      cases hc : p.hasChecked <;> simp [checked, hp, hc]
    have hitems := h.items who
    omega
  unblocked := by
    intro p _
    have hholds := holds_of_errored h.halts.errored
    unfold Performer.isBlocked
    split <;> simp [hholds]
  refused := by
    intro who p hp hrest hf further v
    have hhalts := halts_occur h.halts (.own (.cue who .askPhase))
    obtain ⟨q, _, hrefusal⟩ := (refuses_askPhase hp hrest hf).history hhalts further
    cases hrefusal with
    | refused k _ told => exact .inr ⟨k, told⟩
    | soon n refusing few same =>
      have hpos : 0 < n := by cases refusing <;> exact Nat.succ_pos _
      exact .inl ⟨same, by omega⟩

/-- An abort is final and reaches everyone, whatever anybody does before or after it. At the barrier nothing is
counted any more and every call that comes back is refused. No performer is given a phase any more, and
whoever asks for one is refused within two steps and is told from then on that the run is over; only a
performer that had been past the check of the abort flag may be handed an item, and only one. -/
theorem abort_is_final :
    (∀ (callers : ℕ) (before later : List Gathering.Action),
      let g := (Gathering.opening callers).run before
      g.Stopped ((g.step .abort).run later)) ∧
    ∀ (t : Troupe τ) (later : List Occurrence), t.Stopped ((t.step .abort).history later) := by
  constructor
  · intro callers before later g
    have ho : g.Orderly := (Gathering.orderly_opening callers).run before
    exact (ho.aftermath_abort.run later).stopped
  · intro t later
    exact (t.aftermath_abort.history later).stopped

/-- The first participant has been past the check of the abort flag and the second has not. -/
example :
    let s : Stage := { plan := default, barrier := { required := 2 } }
    let go (who : ℕ) : Action := .cue who (.goOn 0)
    let t := (opening s [Stage.soloist (.iterations 2), Stage.soloist (.iterations 2)]).run [.cue 0 .askPhase,
      .cue 1 .askPhase, go 0, go 0, go 1, go 1, go 0, .cue 0 .openTurn, .cue 1 .openTurn, .cue 0 .askIteration, go 0,
      .cue 1 .askIteration]
    let u := (t.step .abort).run [go 0, go 0, go 1, .cue 0 .askIteration, go 0, go 0, go 0, .cue 1 .askPhase, go 1]
    u.items = [(0, 0)] ∧ u.replies 1 = [.phase 0, .aborted] := by decide

end Troupe

end PhasedWorkload
