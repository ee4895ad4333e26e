import PhasedWorkload.Actor.Company
import PhasedWorkload.Proofs.Performer.Points

/-! # Enlisting participants

All participants of a run are made on one stage before any of them asks for a phase. However the plan is
read and the actors are made in between, the barrier ends up untouched, except that it requires exactly
these participants and knows the last phase.
-/
namespace PhasedWorkload

variable {τ : Type} {s t : Stage} {p : Participant τ} {ps : List (Participant τ)}

namespace Stage

/-- What happens between two states of a stage makes one participant, of any role and with any pause. -/
def Engages (s t : Stage) (p : Participant τ) : Prop :=
  ∃ (role : Role) (factory : Scene → Except Fault τ) (s' t' : Stage) (made : Participant τ) (pause : TimeSpan),
    s'.barrier = s.barrier ∧ Participant.make role factory s' = (t', .ok made) ∧ t.barrier = t'.barrier ∧
    p = { made with pause }

/-- The participants that have been made on a stage, in order. -/
inductive Enlisted : Stage → List (Participant τ) → Prop where
  | opened {s : Stage} (untouched : s.barrier = {}) : Enlisted s []
  | reached {s t : Stage} {ps : List (Participant τ)} (enlisted : Enlisted s ps) (phase : ℕ)
    (reach : t.barrier = s.barrier.reachPhase phase) : Enlisted t ps
  | engaged {s t : Stage} {ps : List (Participant τ)} {p : Participant τ} (enlisted : Enlisted s ps)
    (engages : s.Engages t p) : Enlisted t (ps ++ [p])

end Stage

open Stage

namespace Participant

theorem barrier_slotsOf (factory : Scene → Except Fault τ) (s : Stage) (scenes : List Scene) :
    (slotsOf factory s scenes).1.barrier = s.barrier := by
  induction scenes generalizing s with
  | nil => rfl
  | cons scene rest ih =>
    simp only [slotsOf]
    split
    · rfl
    · have huser : (scene.limiter.elim s s.addUser).barrier = s.barrier := by cases scene.limiter <;> rfl
      have hrest := ih (scene.limiter.elim s s.addUser)
      split <;> next hslots => rw [hslots] at hrest; exact hrest.trans huser

theorem addParticipant_ok (h : s.addParticipant = .ok t) :
    t.barrier = { s.barrier with required := s.barrier.required + 1 } := by
  simp only [addParticipant, Barrier.addRequired] at h
  split at h <;> cases h
  rfl

/-- A participant that is made is required by the barrier, and has not begun. -/
theorem make_ok {role : Role} {factory : Scene → Except Fault τ} (h : make role factory s = (t, .ok p)) :
    t.barrier = { s.barrier with required := s.barrier.required + 1 } ∧ p.Shows none false false := by
  have hslots := barrier_slotsOf factory s role.scenes
  unfold make at h
  split at h
  · cases h
  · next s' slots heq =>
    rw [heq] at hslots
    split at h
    · cases h
    · next t' hadd =>
      cases h
      exact ⟨by rw [addParticipant_ok hadd, hslots], rfl, rfl, rfl⟩

end Participant

theorem Barrier.reachPhase_zero (b : Barrier) : b.reachPhase 0 = b := by simp [Barrier.reachPhase]

namespace Stage

theorem Engages.shows (h : s.Engages t p) : p.Shows none false false := by
  obtain ⟨_, _, _, _, _, _, _, hmake, _, rfl⟩ := h
  exact (Participant.make_ok hmake).2

theorem Engages.barrier (h : s.Engages t p) :
    t.barrier = { s.barrier with required := s.barrier.required + 1 } := by
  obtain ⟨_, _, _, _, _, _, hs, hmake, ht, _⟩ := h
  rw [ht, (Participant.make_ok hmake).1, hs]

/-- The barrier is as it was, except that it requires the participants and knows the last phase. -/
theorem Enlisted.barrier (h : Enlisted s ps) :
    s.barrier = { required := ps.length, maxPhase := s.barrier.maxPhase } := by
  induction h with
  | opened untouched => rw [untouched]; rfl
  | reached _ phase reach ih => rw [reach, ih]; rfl
  | engaged _ engages ih => rw [engages.barrier, ih, List.length_append]; rfl

theorem Enlisted.shows (h : Enlisted s ps) : ∀ p ∈ ps, p.Shows none false false := by
  induction h with
  | opened => simp
  | reached _ _ _ ih => exact ih
  | engaged _ engages ih =>
    intro q hq
    rcases List.mem_append.mp hq with hq | hq
    · exact ih q hq
    · rw [List.mem_singleton.mp hq]
      exact engages.shows

theorem Enlisted.congr (h : Enlisted s ps) (hst : t.barrier = s.barrier) : Enlisted t ps :=
  .reached h 0 (by rw [hst, Barrier.reachPhase_zero])

/-- A participant with work in the first phase only. -/
def soloist (rule : StopRule) : Participant Unit := { actor := "", slots := [(0, { config := (), rule })] }

theorem enlisted_pair (first second : StopRule) (maxPhase : ℕ) :
    Enlisted { plan := default, barrier := { required := 2, maxPhase } } [soloist first, soloist second] := by
  let role (rule : StopRule) : Role := { (default : Role) with scenes := [{ (default : Scene) with rule }] }
  have hnobody : Enlisted { plan := default, barrier := { maxPhase } } ([] : List (Participant Unit)) :=
    .reached (s := { plan := default }) (.opened rfl) maxPhase (by simp [Barrier.reachPhase])
  have hone : Enlisted { plan := default, barrier := { required := 1, maxPhase } } [soloist first] :=
    .engaged hnobody ⟨role first, fun _ => .ok (), _, _, _, .ofSeconds 1, rfl, rfl, rfl, rfl⟩
  exact .engaged hone ⟨role second, fun _ => .ok (), _, _, _, .ofSeconds 1, rfl, rfl, rfl, rfl⟩

/-! ## Reading the plan -/

/-- Limiters may be made, but the barrier and the plan stay as they are. -/
def Keeps (s t : Stage) : Prop := t.barrier = s.barrier ∧ t.plan = s.plan

theorem Keeps.refl (s : Stage) : s.Keeps s := ⟨rfl, rfl⟩

theorem Keeps.trans {u : Stage} (h : s.Keeps t) (h' : t.Keeps u) : s.Keeps u :=
  ⟨h'.1.trans h.1, h'.2.trans h.2⟩

theorem keeps_addLimiter {spec : Rate} {id : ℕ} (h : s.addLimiter spec = .ok (t, id)) : s.Keeps t := by
  unfold addLimiter at h
  cases hl : Limiter.make clock spec s.now with
  | error f => simp [hl, Except.map] at h
  | ok l =>
    simp only [hl, Except.map, Except.ok.injEq, Prod.mk.injEq] at h
    rw [← h.1]
    exact ⟨rfl, rfl⟩

theorem keeps_namedLimiter {name : String} {spec : Rate} {id : ℕ} (h : s.namedLimiter name spec = .ok (t, id)) :
    s.Keeps t := by
  unfold namedLimiter at h
  split at h
  · dsimp only at h
    split at h <;> cases h
    exact .refl s
  · cases hl : s.addLimiter spec with
    | error f => simp [hl, Except.mapError] at h
    | ok made =>
      simp only [hl, Except.mapError, Except.ok.injEq, Prod.mk.injEq] at h
      obtain ⟨rfl, _⟩ := h
      exact keeps_addLimiter (t := made.1) hl

theorem keeps_limiterFor {block : Block} {rule : StopRule} {id : Option ℕ}
    (h : Scene.limiterFor s block rule = .ok (t, id)) : s.Keeps t := by
  unfold Scene.limiterFor at h
  split at h
  · cases h
    exact .refl s
  · split at h
    · cases h
      exact .refl s
    · next spec name _ _ =>
      cases hl : s.namedLimiter name spec with
      | error f => simp [hl, Except.map] at h
      | ok made =>
        simp only [hl, Except.map, Except.ok.injEq, Prod.mk.injEq] at h
        exact h.1 ▸ keeps_namedLimiter hl
    · next spec _ _ =>
      cases hl : s.addLimiter spec with
      | error f => simp [hl, Except.map] at h
      | ok made =>
        simp only [hl, Except.map, Except.ok.injEq, Prod.mk.injEq] at h
        exact h.1 ▸ keeps_addLimiter hl

theorem keeps_scene {entry : Entry} {before : List Scene} {index : ℕ} {block : Block} {scene : Scene}
    (h : Role.scene s entry before index block = .ok (t, scene)) : s.Keeps t := by
  unfold Role.scene at h
  dsimp only at h
  split at h
  · cases h
  · split at h
    · cases h
    · split at h
      · cases h
      · next hl =>
        cases h
        exact keeps_limiterFor hl

theorem keeps_scenesOf (entry : Entry) (s : Stage) (before : List Scene) (index : ℕ) (blocks : List Block) :
    s.Keeps (Role.scenesOf entry s before index blocks).1 := by
  induction blocks generalizing s before index with
  | nil => exact .refl s
  | cons block rest ih =>
    simp only [Role.scenesOf]
    split
    · exact .refl s
    · next hscene => exact (keeps_scene hscene).trans (ih _ _ _)

/-- Checking an entry makes the run reach its last phase and does nothing else to the barrier. -/
theorem Enlisted.makeRole (h : Enlisted s ps) (entry : Entry) : Enlisted (Role.make s entry).1 ps := by
  have hscenes := (keeps_scenesOf entry s [] 0 entry.blocks).1
  unfold Role.make
  split
  · next heq =>
    rw [heq] at hscenes
    exact h.congr hscenes
  · next s' scenes heq =>
    simp only [heq] at hscenes ⊢
    cases scenes.getLast?.map Scene.number with
    | none => exact h.congr hscenes
    | some phase => exact .reached h phase (by rw [← hscenes]; rfl)

theorem Enlisted.makeRoles (h : Enlisted s ps) (entries : List Entry) : Enlisted (Role.makeAll s entries).1 ps := by
  induction entries generalizing s with
  | nil => exact h
  | cons entry rest ih =>
    have hrole := h.makeRole entry
    unfold Role.makeAll
    split
    · next heq =>
      rw [heq] at hrole
      exact hrole
    · next heq =>
      rw [heq] at hrole
      have hrest := ih hrole
      split
      · next hall =>
        rw [hall] at hrest
        exact hrest
      · next hall =>
        rw [hall] at hrest
        exact hrest

end Stage

/-! ## Making the actors -/

/-- Every actor that is made owns one participant of the stage. -/
def Producer.Engages (p : Producer Actor) : Prop :=
  ∀ role id s t actor, p.construct role id s = (t, .ok actor) → s.Engages t actor.participant

theorem Stage.Enlisted.produce {ps : List (Participant Task)} {p : Producer Actor} (hp : p.Engages) {role : Role}
    {count : ℕ} {actors : List Actor} (h : Enlisted s ps) (hactors : p.produce role count s = (t, .ok actors)) :
    Enlisted t (ps ++ actors.map Actor.participant) := by
  induction count generalizing s ps actors with
  | zero =>
    cases hactors
    simpa using h
  | succ count ih =>
    simp only [Producer.produce] at hactors
    split at hactors
    · cases hactors
    · next s' actor hmake =>
      split at hactors
      · cases hactors
      · next t' rest hrest =>
        cases hactors
        have hactor := Enlisted.engaged (h.congr (t := s.nextActorId.1) rfl) (hp _ _ _ _ _ hmake)
        simpa using ih hactor hrest

theorem Stage.Enlisted.produceAll {ps : List (Participant Task)} {cast : Cast Actor}
    {roles : List Role} (hcast : ∀ role ∈ roles, ∀ p, cast.get role.type = .ok p → p.Engages)
    {actors : List (String × Actor)} (h : Enlisted s ps) (hactors : cast.produceAll roles s = (t, .ok actors)) :
    Enlisted t (ps ++ actors.map fun a => a.2.participant) := by
  induction roles generalizing s ps actors with
  | nil =>
    cases hactors
    simpa using h
  | cons role rest ih =>
    simp only [Cast.produceAll] at hactors
    split at hactors
    · cases hactors
    · next s' made hmade =>
      split at hactors
      · cases hactors
      · next t' more hmore =>
        cases hactors
        unfold Cast.produce at hmade
        split at hmade
        · cases hmade
        · next p hget =>
          have hp := hcast role List.mem_cons_self p hget
          have hrest := ih (fun role hrole => hcast role (List.mem_cons_of_mem _ hrole)) (h.produce hp hmade) hmore
          simpa [Function.comp_def] using hrest

theorem Stage.make_ok {plan : Plan} {now : ℕ} (h : Stage.make plan now = .ok s) : s.barrier = {} ∧ s.plan = plan := by
  unfold Stage.make at h
  split at h <;> cases h
  exact ⟨rfl, rfl⟩

/-- The stages of a production that is made. -/
theorem Production.make_ok {α : Type} {plan : Plan} {cast : Cast α} {now : ℕ} {p : Production α}
    (h : Production.make plan cast now = .ok p) : ∃ s t, Stage.make plan now = .ok s ∧
      Role.makeAll s plan.entries = (t, .ok p.roles) ∧ cast.produceAll p.roles t = (p.stage, .ok p.actors) := by
  unfold Production.make at h
  cases hopen : Stage.make plan now with
  | error f => simp [hopen, bind, Except.bind] at h
  | ok s =>
    cases hmade : Role.makeAll s plan.entries with
    | mk t roles =>
      simp only [hopen, hmade, bind, Except.bind] at h
      split at h
      · cases h
      · next roles =>
        split at h
        · cases h
        · cases hactors : cast.produceAll roles t with
          | mk t' actors =>
            simp only [hactors, pure, Except.pure] at h
            split at h <;> cases h
            exact ⟨s, t, rfl, hmade, hactors⟩

/-- A production has all its participants on its stage, and nobody has begun. -/
theorem Stage.enlisted_make {plan : Plan} {cast : Cast Actor} {now : ℕ} {p : Production Actor}
    (hcast : ∀ role ∈ p.roles, ∀ producer, cast.get role.type = .ok producer → producer.Engages)
    (h : Production.make plan cast now = .ok p) : p.stage.Enlisted (p.actors.map fun a => a.2.participant) := by
  obtain ⟨s, t, hopen, hmade, hactors⟩ := Production.make_ok h
  have hroles : Enlisted (Role.makeAll s plan.entries).1 ([] : List (Participant Task)) :=
    Enlisted.makeRoles (.opened (Stage.make_ok hopen).1) plan.entries
  rw [hmade] at hroles
  simpa using hroles.produceAll hcast hactors

theorem Company.engages_producer (type : String) (task : Scene → Except Fault Task) (pause : TimeSpan)
    (observes : Bool) : (Company.producer type task pause observes).Engages := by
  intro role id s t actor h
  simp only [Company.producer] at h
  cases hmake : Participant.make role task s with
  | mk s' made =>
    cases made with
    | error f => simp [hmake, Except.map] at h
    | ok p =>
      simp only [hmake, Except.map, Prod.mk.injEq, Except.ok.injEq] at h
      obtain ⟨rfl, rfl⟩ := h
      exact ⟨role, task, s, s', p, pause, rfl, hmake, rfl, rfl⟩

theorem Cast.mem_of_get {cast : Cast Actor} {type : String} {p : Producer Actor} (h : cast.get type = .ok p) :
    p ∈ cast.producers := by
  unfold Cast.get at h
  split at h <;> cases h
  next hfind => exact List.mem_of_find?_eq_some hfind

theorem Company.engages_full : ∀ p ∈ full.producers, p.Engages := by
  have hproducers : full.producers = [failing, greeter, recorder, reporter, summer] := rfl
  rw [hproducers]
  simp only [List.mem_cons, List.not_mem_nil, or_false]
  rintro p (rfl | rfl | rfl | rfl | rfl)
  all_goals exact engages_producer _ _ _ _

end PhasedWorkload
