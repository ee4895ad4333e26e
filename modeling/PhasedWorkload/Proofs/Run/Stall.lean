import PhasedWorkload.Proofs.Performer.Progress
import PhasedWorkload.Run.Playing

/-! # Runs never stall

In a run every actor decides at any time to take iterations, to ask for the next phase or to leave, in
whatever way; it only has to ask once before it leaves. A thread whose actor leaves before the run is over
aborts the run at the latest when it lets go of the participant, so a thread that has ended while the run
goes on has been through all phases, and nobody waits for it.
-/
namespace PhasedWorkload

open Barrier

variable {τ : Type} {b c : Barrier} {places : List ℕ} {i k : ℕ}

namespace Thread

/-- Whether it is inside a wait for others that is not over. -/
def isStalled (t : Thread τ) (b : Barrier) : Bool :=
  match t.point with
  | .working => t.performer.isStalled b
  | _ => false

/-- An actor leaves only after it has asked for a phase. -/
def allows (t : Thread τ) : Move → Bool
  | .leave _ => t.performer.participant.started
  | _ => true

/-- Whoever leaves has begun; whoever has ended while the run goes on knows that it is over. -/
def Leaves (b : Barrier) (t : Thread τ) : Prop :=
  match t.point with
  | .launching | .working => True
  | .ended _ => b.errored = false → t.performer.participant.finished = true
  | _ => t.performer.participant.started = true

structure Stands (b : Barrier) (k : ℕ) (t : Thread τ) : Prop where
  performer : ∃ m, t.performer.Stands b k m
  leaves : t.Leaves b

theorem resting_of_isDeciding {t : Thread τ} (h : t.isDeciding = true) : t.performer.activity = .resting := by
  revert h
  unfold isDeciding
  split
  · next hact => exact fun _ => hact
  · nofun

theorem Leaves.later {t : Thread τ} (h : t.Leaves b) (hbc : Precedes b c) : t.Leaves c := by
  unfold Leaves at h ⊢
  split at h
  · trivial
  · trivial
  · exact fun hc => h (hbc.alive hc)
  · exact h

theorem Stands.later {t : Thread τ} (h : t.Stands b k) (hbc : Precedes b c) : t.Stands c k := by
  obtain ⟨m, hp⟩ := h.performer
  exact ⟨⟨m, hp.later hbc⟩, h.leaves.later hbc⟩

end Thread

namespace Run

/-- What may happen next in a run. -/
inductive Action where
  | conduct
  /-- a thread takes a step, with the move of its actor if that is at rest -/
  | act (thread : ℕ) (move : Move) (jitter : ℕ)
  | tick (nanos : ℕ)
  | abort

/-- Follows an action, if it is in order. -/
def follow (r : Run τ) : Action → Run τ
  | .conduct => r.conduct
  | .act i move jitter =>
    match r.threads[i]? with
    | some t => if r.isSpawned i && t.allows move then (r.step i t move jitter).1 else r
    | none => r
  | .tick nanos => { r with world.now := r.world.now + nanos }
  | .abort => r.setBarrier r.world.barrier.abort

def after (r : Run τ) (actions : List Action) : Run τ := actions.foldl follow r

structure Ordered (r : Run τ) (places : List ℕ) : Prop where
  tally : Tally r.world.barrier places
  everybody : r.threads.length = places.length
  stands : ∀ (i k : ℕ) (t : Thread τ), places[i]? = some k → r.threads[i]? = some t → t.Stands r.world.barrier k

variable {r r' : Run τ} {t t' : Thread τ}

theorem Ordered.exists_place (h : r.Ordered places) (ht : r.threads[i]? = some t) :
    ∃ k, places[i]? = some k := by
  obtain ⟨hi, _⟩ := List.getElem?_eq_some_iff.mp ht
  exact ⟨_, List.getElem?_eq_getElem (h.everybody ▸ hi)⟩

theorem Ordered.exists_thread (h : r.Ordered places) (hk : places[i]? = some k) :
    ∃ t, r.threads[i]? = some t := by
  obtain ⟨hi, _⟩ := List.getElem?_eq_some_iff.mp hk
  exact ⟨_, List.getElem?_eq_getElem (h.everybody.symm ▸ hi)⟩

theorem Ordered.congr (h : r.Ordered places) (hw : r'.world.barrier = r.world.barrier)
    (hthreads : r'.threads = r.threads) : r'.Ordered places :=
  ⟨hw ▸ h.tally, hthreads ▸ h.everybody, by rw [hw, hthreads]; exact h.stands⟩

theorem Ordered.update (h : r.Ordered places) {l : ℕ} (hk : places[i]? = some k)
    (hv : Precedes r.world.barrier r'.world.barrier) (ht : Tally r'.world.barrier (places.set i l))
    (hthreads : r'.threads = r.threads.set i t') (hstands : t'.Stands r'.world.barrier l) :
    r'.Ordered (places.set i l) := by
  obtain ⟨hi, _⟩ := List.getElem?_eq_some_iff.mp hk
  refine ⟨ht, by simp [hthreads, h.everybody], ?_⟩
  rw [hthreads]
  exact forall_set h.stands h.everybody hi hstands fun j l x _ hx => hx.later hv

/-- A thread goes on without its performer; it may abort the run. -/
theorem Ordered.goTo (h : r.Ordered places) (hk : places[i]? = some k) (ht : r.threads[i]? = some t)
    {point : Thread.Point} (hw : r'.world.barrier = r.world.barrier ∨ r'.world.barrier = r.world.barrier.abort)
    (hthreads : r'.threads = r.threads.set i { t with point })
    (hleaves : Thread.Leaves r'.world.barrier { t with point }) : ∃ places', r'.Ordered places' := by
  have hv : Precedes r.world.barrier r'.world.barrier := by
    rcases hw with hw | hw <;> rw [hw]
    · exact .refl _
    · exact precedes_abort _
  have htally : Tally r'.world.barrier (places.set i k) := by
    rw [set_same hk]
    rcases hw with hw | hw <;> rw [hw]
    · exact h.tally
    · exact h.tally.abort
  obtain ⟨m, hp⟩ := ((h.stands i k t hk ht).later hv).performer
  exact ⟨_, h.update hk hv htally hthreads ⟨⟨m, hp⟩, hleaves⟩⟩

theorem Ordered.perform (h : r.Ordered places) (hk : places[i]? = some k)
    (hwork : t.point = .working) {m : ℕ} {w : World} {q : Performer τ} {report : Option Report}
    (hv : Precedes r.world.barrier w.barrier)
    (hkeeps : t.performer.KeepsOrder r.world places i m (w, q, report)) (hw : r'.world.barrier = w.barrier)
    (hthreads : r'.threads = r.threads.set i { t with performer := q }) : ∃ places', r'.Ordered places' := by
  obtain ⟨k', m', htally, hstands, _⟩ := hkeeps
  have hleaves : Thread.Leaves r'.world.barrier { t with performer := q } := by simp [Thread.Leaves, hwork]
  exact ⟨_, h.update hk (hw ▸ hv) (hw ▸ htally) hthreads ⟨⟨m', hw ▸ hstands⟩, hleaves⟩⟩

/-! ## Steps -/

theorem world_conduct (r : Run τ) : r.conduct.world = r.world := by
  unfold conduct conclude
  repeat' split
  all_goals rfl

theorem threads_conduct (r : Run τ) : r.conduct.threads = r.threads := by
  unfold conduct conclude
  repeat' split
  all_goals rfl

theorem Ordered.move (h : r.Ordered places) (hk : places[i]? = some k) (ht : r.threads[i]? = some t)
    (hwork : t.point = .working) (hrest : t.performer.activity = .resting) {move : Move}
    (hallows : t.allows move = true) : ∃ places', (r.move i t move).1.Ordered places' := by
  obtain ⟨m, hp⟩ := (h.stands i k t hk ht).performer
  have hact := Performer.isAdvancing_eq_false hrest
  have hv := Precedes.refl r.world.barrier
  cases move with
  | askPhase =>
    obtain ⟨hstands, hreport⟩ := hp.askPhase hact
    have hkeeps : t.performer.KeepsOrder r.world places i m (r.world, t.performer.askPhase) :=
      ⟨k, m, (set_same hk).symm ▸ h.tally, hstands, fun _ => hreport⟩
    exact h.perform hk hwork hv hkeeps rfl rfl
  | openTurn =>
    have hit := Performer.iterates_openTurn hact r.world
    exact h.perform hk hwork hv (hit.keepsOrder hp hact h.tally hk) rfl rfl
  | askIteration =>
    have hit := Performer.iterates_askIteration t.performer r.world
    exact h.perform hk hwork hv (hit.keepsOrder hp hact h.tally hk) rfl rfl
  | act effect =>
    refine ⟨places, h.congr ?_ ?_⟩ <;> cases effect <;> rfl
  | leave departure =>
    refine h.goTo hk ht (.inl rfl) rfl ?_
    cases departure <;> exact hallows

theorem Ordered.step (h : r.Ordered places) (ht : r.threads[i]? = some t) {move : Move}
    (hallows : t.allows move = true) (jitter : ℕ) : ∃ places', (r.step i t move jitter).1.Ordered places' := by
  obtain ⟨k, hk⟩ := h.exists_place ht
  have hleaves := (h.stands i k t hk ht).leaves
  unfold Run.step
  cases hpoint : t.point with
  | launching => exact h.goTo hk ht (.inl rfl) rfl trivial
  | working =>
    dsimp only
    split
    · next hdeciding => exact h.move hk ht hpoint (Thread.resting_of_isDeciding hdeciding) hallows
    · obtain ⟨m, hp⟩ := (h.stands i k t hk ht).performer
      have hv := t.performer.precedes_step r.world jitter
      exact h.perform hk hpoint hv (hp.step h.tally hk jitter) rfl (by rw [hpoint]; rfl)
  | recording reason => exact h.goTo hk ht (.inl rfl) rfl (by simpa [Thread.Leaves, hpoint] using hleaves)
  | failing => exact h.goTo hk ht (.inr rfl) rfl (by simpa [Thread.Leaves, hpoint] using hleaves)
  | reporting success => exact h.goTo hk ht (.inl rfl) rfl (by simpa [Thread.Leaves, hpoint] using hleaves)
  | unwinding => exact h.goTo hk ht (.inr rfl) rfl (by simpa [Thread.Leaves, hpoint] using hleaves)
  | releasing panicked =>
    have hstarted : t.performer.participant.started = true := by simpa [Thread.Leaves, hpoint] using hleaves
    by_cases habort : t.performer.participant.started && !t.performer.participant.finished &&
        !r.world.barrier.publishedAbort
    -- Who goes away too early aborts the run, and nothing is said of it any more.
    · have hrelease : t.performer.participant.release r.world.barrier = r.world.barrier.abort := if_pos habort
      simp only [hrelease]
      exact h.goTo hk ht (.inr rfl) rfl nofun
    · have hrelease : t.performer.participant.release r.world.barrier = r.world.barrier := if_neg habort
      simp only [hrelease]
      refine h.goTo hk ht (.inl rfl) rfl fun hb => ?_
      have hpublished : r.world.barrier.publishedAbort = false := h.tally.sound.aborted.trans hb
      simpa [hstarted, hpublished] using habort
  | ended panicked => exact ⟨places, h⟩

theorem Ordered.follow (h : r.Ordered places) (a : Action) : ∃ places', (r.follow a).Ordered places' := by
  cases a with
  | conduct => exact ⟨places, h.congr (by rw [Run.follow, world_conduct]) (threads_conduct r)⟩
  | act i move jitter =>
    simp only [Run.follow]
    split
    · next t ht =>
      split
      · next hallows =>
        exact h.step ht (Bool.and_eq_true_iff.mp hallows).2 jitter
      · exact ⟨places, h⟩
    · exact ⟨places, h⟩
  | tick nanos => exact ⟨places, h.congr rfl rfl⟩
  | abort =>
    refine ⟨places, h.tally.abort, h.everybody, fun i k t hk ht => ?_⟩
    exact (h.stands i k t hk ht).later (precedes_abort r.world.barrier)

theorem Ordered.after (h : r.Ordered places) (actions : List Action) :
    ∃ places', (r.after actions).Ordered places' := by
  induction actions generalizing r places with
  | nil => exact ⟨places, h⟩
  | cons a actions ih =>
    obtain ⟨places', h'⟩ := h.follow a
    exact ih h'

theorem isStalled_eq_false_of_errored (hb : b.errored = true) (t : Thread τ) : t.isStalled b = false := by
  unfold Thread.isStalled Performer.isStalled
  repeat' split
  · exact holds_of_errored hb _
  all_goals rfl

theorem Ordered.ahead (h : r.Ordered places) (hb : r.world.barrier.errored = false) (hk : places[i]? = some k)
    (ht : r.threads[i]? = some t) (hstalled : t.isStalled r.world.barrier = true) : r.world.barrier.Ahead k := by
  obtain ⟨m, hp⟩ := (h.stands i k t hk ht).performer
  refine hp.ahead h.tally hk hb ?_
  unfold Thread.isStalled at hstalled
  split at hstalled
  · exact hstalled
  · cases hstalled

theorem Ordered.through (h : r.Ordered places) (hb : r.world.barrier.errored = false) (hk : places[i]? = some k)
    (ht : r.threads[i]? = some t) (hended : t.hasEnded = true) : r.world.barrier.Through k := by
  obtain ⟨⟨m, hp⟩, hleaves⟩ := h.stands i k t hk ht
  refine hp.through h.tally hk hb ?_
  unfold Thread.hasEnded at hended
  split at hended
  · next hpoint =>
    simp only [Thread.Leaves, hpoint] at hleaves
    exact hleaves hb
  · cases hended

/-- As long as a thread has not ended, one that has not ended does not wait for others. -/
theorem Ordered.exists_unstalled (h : r.Ordered places) (hrun : ∃ t ∈ r.threads, t.hasEnded = false) :
    ∃ t ∈ r.threads, t.hasEnded = false ∧ t.isStalled r.world.barrier = false := by
  obtain ⟨t, hmem, hended⟩ := hrun
  cases hb : r.world.barrier.errored with
  | true => exact ⟨t, hmem, hended, isStalled_eq_false_of_errored hb t⟩
  | false =>
    by_contra hnone
    have hstalled : ∀ u ∈ r.threads, u.hasEnded = false → u.isStalled r.world.barrier = true := fun u hu hunended =>
      (Bool.not_eq_false _).mp fun hfree => hnone ⟨u, hu, hunended, hfree⟩
    have hall : ∀ k ∈ places, r.world.barrier.Ahead k ∨ r.world.barrier.Through k := by
      intro k hk
      obtain ⟨i, hi⟩ := List.getElem?_of_mem hk
      obtain ⟨u, hu⟩ := h.exists_thread hi
      cases hunended : u.hasEnded with
      | true => exact .inr (h.through hb hi hu hunended)
      | false => exact .inl (h.ahead hb hi hu (hstalled u (List.mem_of_getElem? hu) hunended))
    obtain ⟨i, ht⟩ := List.getElem?_of_mem hmem
    obtain ⟨k, hk⟩ := h.exists_place ht
    exact h.tally.not_ahead hall (List.mem_of_getElem? hk) (h.ahead hb hk ht (hstalled t hmem hended))

theorem ordered_make {p : Production Actor} (h : p.stage.Enlisted (p.actors.map fun a => a.2.participant)) :
    (Playing.make p).run.Ordered (List.replicate p.actors.length 0) := by
  refine ⟨?_, by simp [Playing.make], ?_⟩
  · change Tally p.stage.barrier _
    rw [h.barrier]
    simpa using Tally.opening p.actors.length p.stage.barrier.maxPhase
  · intro i k t hk ht
    simp only [Playing.make, List.getElem?_map, Option.map_eq_some_iff] at ht
    obtain ⟨⟨name, actor⟩, hi, rfl⟩ := ht
    obtain rfl := List.eq_of_mem_replicate (List.mem_of_getElem? hk)
    have hmem : actor.participant ∈ p.actors.map fun a => a.2.participant :=
      List.mem_map.mpr ⟨_, List.mem_of_getElem? hi, rfl⟩
    exact ⟨⟨0, Performer.stands_fresh (h.shows _ hmem)⟩, trivial⟩

/-- Every run of a plan that was accepted, whose actors each take part with one participant and ask for a
phase before they leave, goes on until all threads have ended: whatever the actors do and in whatever order
the threads take their steps, one that has not ended is not waiting for others. -/
theorem never_stalls {plan : Plan} {cast : Cast Actor} {now : ℕ} {p : Production Actor}
    (hcast : ∀ role ∈ p.roles, ∀ producer, cast.get role.type = .ok producer → producer.Engages)
    (h : Production.make plan cast now = .ok p) (actions : List Action) :
    let r := (Playing.make p).run.after actions
    (∃ t ∈ r.threads, t.hasEnded = false) →
    ∃ t ∈ r.threads, t.hasEnded = false ∧ t.isStalled r.world.barrier = false := by
  intro r hrun
  obtain ⟨places, ho⟩ := (ordered_make (Stage.enlisted_make hcast h)).after actions
  exact ho.exists_unstalled hrun

/-- The first actor has done its part of a phase and waits for its end. The second leaves in the middle of it
as if all were done, and is about to let go of its participant. -/
theorem never_stalls_departing :
    let plan : Plan := { schema := Plan.currentSchema, extra := [], entries :=
      [⟨some "first", "Recorder", ⟨1⟩, [{}], []⟩, ⟨some "second", "HelloWorld", ⟨1⟩, [{ repeats := some ⟨1⟩ }], []⟩] }
    let step (i : ℕ) : Action := .act i .askPhase 0
    let actions : List Action := [.conduct, .conduct, step 0, step 0, step 0, step 0, step 1, step 1, step 1, step 1,
      step 0, step 0, step 0, step 0, .act 1 (.leave .finished) 0, step 1]
    ∃ p, Production.make plan Company.full 0 = .ok p ∧
      (∀ role ∈ p.roles, ∀ producer, Company.full.get role.type = .ok producer → producer.Engages) ∧
      let r := (Playing.make p).run.after actions
      r.threads.map (fun t => (t.hasEnded, t.isStalled r.world.barrier)) = [(false, true), (false, false)] ∧
      ∃ t ∈ r.threads, t.hasEnded = false ∧ t.isStalled r.world.barrier = false := by
  intro plan step actions
  have hcast : ∀ roles : List Role, ∀ role ∈ roles, ∀ producer, Company.full.get role.type = .ok producer →
      producer.Engages := fun _ _ _ _ hget => Company.engages_full _ (Cast.mem_of_get hget)
  have hrun : ((Production.make plan Company.full 0).toOption.any fun p =>
      let r := (Playing.make p).run.after actions
      r.threads.map (fun t => (t.hasEnded, t.isStalled r.world.barrier)) ==
        [(false, true), (false, false)]) = true := by
    decide +kernel
  cases hp : Production.make plan Company.full 0 with
  | error f => simp [hp, Except.toOption] at hrun
  | ok p =>
    simp only [hp, Except.toOption, Option.any_some, beq_iff_eq] at hrun
    have hstalled : (false, true) ∈ ((Playing.make p).run.after actions).threads.map fun t =>
        (t.hasEnded, t.isStalled ((Playing.make p).run.after actions).world.barrier) := by
      rw [hrun]
      exact List.mem_cons_self
    obtain ⟨t, ht, heq⟩ := List.mem_map.mp hstalled
    exact ⟨p, rfl, hcast p.roles, hrun, never_stalls (hcast p.roles) hp actions ⟨t, ht, congrArg Prod.fst heq⟩⟩

end Run

end PhasedWorkload
