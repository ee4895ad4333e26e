import PhasedWorkload.Proofs.Stage.Accounts

/-! # Participants that cannot be made

The slots of a participant are made in the order of its phases, and each is counted as a user of its limiter at once.
Users are only ever added. So where a later slot cannot be made, or the participant comes too late, the users that were
counted for the slots before stay. The barrier comes last, and a participant that cannot be made leaves it alone.
-/
namespace PhasedWorkload

variable {τ : Type} {s : Stage} {role : Role} {factory : Scene → Except Fault τ}

def Limiter.addUsers (l : Limiter) (count : ℕ) : Limiter := { l with users := l.users + count }

namespace Stage

/-- Counts the scenes as users of their limiters. -/
def countUsers (s : Stage) (scenes : List Scene) : Stage :=
  { s with limiters := s.limiters.mapIdx fun i l => l.addUsers (scenes.countP fun scene => scene.limiter = some i) }

theorem countUsers_nil (s : Stage) : s.countUsers [] = s := by
  have hlimiters : (s.limiters.mapIdx fun _ l => l.addUsers 0) = s.limiters := List.mapIdx_eq_iff.mpr fun i => by
    simp [Limiter.addUsers]
  exact congrArg (fun limiters => { s with limiters }) hlimiters

theorem countUsers_cons (s : Stage) (scene : Scene) (rest : List Scene) :
    (scene.limiter.elim s s.addUser).countUsers rest = s.countUsers (scene :: rest) := by
  cases hlimiter : scene.limiter with
  | none => simp [countUsers, hlimiter]
  | some id =>
    have hlimiters : ((s.addUser id).countUsers rest).limiters = (s.countUsers (scene :: rest)).limiters := by
      apply List.ext_getElem?
      intro i
      simp only [countUsers, addUser, List.getElem?_mapIdx, List.getElem?_modify, List.countP_cons, hlimiter]
      by_cases hid : id = i
      · cases s.limiters[i]? with
        | none => rfl
        | some l => simp [hid, Limiter.addUser, Limiter.addUsers, Nat.add_assoc, Nat.add_comm 1]
      · simp [hid]
    exact congrArg (fun limiters => { s with limiters }) hlimiters

theorem length_countUsers (s : Stage) (scenes : List Scene) :
    (s.countUsers scenes).limiters.length = s.limiters.length := List.length_mapIdx

theorem getElem?_countUsers {i : ℕ} {l : Limiter} (h : s.limiters[i]? = some l) (scenes : List Scene) :
    (s.countUsers scenes).limiters[i]? = some (l.addUsers (scenes.countP fun scene => scene.limiter = some i)) := by
  simp [countUsers, h]

theorem addParticipant_late (h : s.barrier.started = true) :
    s.addParticipant = .error (.configuration Barrier.location .lateParticipant) := by
  rw [addParticipant, Barrier.addRequired, if_pos h]
  rfl

theorem addParticipant_early (h : s.barrier.started = false) :
    s.addParticipant = .ok { s with barrier := { s.barrier with required := s.barrier.required + 1 } } := by
  rw [addParticipant, Barrier.addRequired, if_neg (by simp [h])]
  rfl

end Stage

namespace Participant

/-- The scenes before the first one that the factory fails on. -/
def ready (factory : Scene → Except Fault τ) (scenes : List Scene) : List Scene :=
  scenes.takeWhile fun scene => (factory scene).isOk

theorem ready_cons_ok {scene : Scene} {config : τ} (h : factory scene = .ok config) (rest : List Scene) :
    ready factory (scene :: rest) = scene :: ready factory rest := by
  simp [ready, h, Except.isOk, Except.toBool]

theorem ready_cons_error {scene : Scene} {f : Fault} (h : factory scene = .error f) (rest : List Scene) :
    ready factory (scene :: rest) = [] := by
  simp [ready, h, Except.isOk, Except.toBool]

theorem stage_slotsOf (factory : Scene → Except Fault τ) (s : Stage) (scenes : List Scene) :
    (slotsOf factory s scenes).1 = s.countUsers (ready factory scenes) := by
  induction scenes generalizing s with
  | nil => exact s.countUsers_nil.symm
  | cons scene rest ih =>
    simp only [slotsOf]
    cases hconfig : factory scene with
    | error f => rw [ready_cons_error hconfig, Stage.countUsers_nil]
    | ok config =>
      rw [ready_cons_ok hconfig, ← Stage.countUsers_cons, ← ih]
      dsimp only
      split <;> next hrest => rw [hrest]

/-- Either every scene has its slot, or the factory has failed on the scene after those that are ready. -/
theorem slotsOf_cases (factory : Scene → Except Fault τ) (s : Stage) (scenes : List Scene) :
    (ready factory scenes = scenes ∧ ∃ slots, (slotsOf factory s scenes).2 = .ok slots) ∨
      ∃ scene f, ready factory scenes ++ [scene] <+: scenes ∧ factory scene = .error f ∧
        (slotsOf factory s scenes).2 = .error (f.relocate scene.location) := by
  induction scenes generalizing s with
  | nil => exact .inl ⟨rfl, [], rfl⟩
  | cons scene rest ih =>
    simp only [slotsOf]
    cases hconfig : factory scene with
    | error f =>
      rw [ready_cons_error hconfig]
      exact .inr ⟨scene, f, ⟨rest, rfl⟩, hconfig, rfl⟩
    | ok config =>
      rw [ready_cons_ok hconfig]
      dsimp only
      rcases ih (scene.limiter.elim s s.addUser) with ⟨hall, slots, hslots⟩ | ⟨scene', f, hnext, hfactory, herror⟩
      · refine .inl ⟨by rw [hall], ?_⟩
        split
        · next hrest =>
          rw [hrest] at hslots
          cases hslots
        · exact ⟨_, rfl⟩
      · refine .inr ⟨scene', f, List.prefix_cons_inj scene |>.mpr hnext, hfactory, ?_⟩
        split
        · next hrest =>
          rw [hrest] at herror
          exact herror
        · next hrest =>
          rw [hrest] at herror
          cases herror

/-- What an attempt to make a participant can come to. -/
inductive Attempt (role : Role) (factory : Scene → Except Fault τ) (s : Stage) :
    Stage × Except Fault (Participant τ) → Prop where
  | made (p : Participant τ) (all : ready factory role.scenes = role.scenes) (early : s.barrier.started = false) :
    Attempt role factory s
      ({ s.countUsers role.scenes with barrier := { s.barrier with required := s.barrier.required + 1 } }, .ok p)
  | late (all : ready factory role.scenes = role.scenes) (late : s.barrier.started = true) :
    Attempt role factory s
      (s.countUsers role.scenes, .error (.configuration Barrier.location .lateParticipant))
  | failed (scene : Scene) (f : Fault) (next : ready factory role.scenes ++ [scene] <+: role.scenes)
    (fails : factory scene = .error f) :
    Attempt role factory s (s.countUsers (ready factory role.scenes), .error (f.relocate scene.location))

theorem attempt_make (role : Role) (factory : Scene → Except Fault τ) (s : Stage) :
    Attempt role factory s (make role factory s) := by
  have hstage := stage_slotsOf factory s role.scenes
  unfold make
  rcases slotsOf_cases factory s role.scenes with ⟨hall, slots, hslots⟩ | ⟨scene, f, hnext, hfails, herror⟩
  · rw [hall] at hstage
    rw [show slotsOf factory s role.scenes = (s.countUsers role.scenes, .ok slots) from Prod.ext hstage hslots]
    dsimp only
    cases hstarted : s.barrier.started with
    | true =>
      rw [Stage.addParticipant_late (s := s.countUsers role.scenes) hstarted]
      exact .late hall hstarted
    | false =>
      rw [Stage.addParticipant_early (s := s.countUsers role.scenes) hstarted]
      exact .made _ hall hstarted
  · rw [show slotsOf factory s role.scenes =
      (s.countUsers (ready factory role.scenes), .error (f.relocate scene.location)) from Prod.ext hstage herror]
    exact .failed scene f hnext hfails

/-- A participant is made if its factory fails on no scene and no phase has been asked for. Then the barrier requires
one token more, and each limiter has one user more for every scene that takes its tokens. Otherwise the barrier is as
it was, but each limiter has one user more for every such scene before the failure, or for every one of them if the
participant came too late. -/
theorem make_counts_users (role : Role) (factory : Scene → Except Fault τ) (s : Stage) :
    let made := make role factory s
    let ready := ready factory role.scenes
    (made.2.isOk = true ↔ ready = role.scenes ∧ s.barrier.started = false) ∧
    made.1.limiters.length = s.limiters.length ∧
    (∀ p, made.2 = .ok p → made.1.barrier = { s.barrier with required := s.barrier.required + 1 } ∧
      ∀ (i : ℕ) l, s.limiters[i]? = some l → made.1.limiters[i]? = some (l.addUsers (role.uses i))) ∧
    ∀ f, made.2 = .error f → made.1.barrier = s.barrier ∧
      (∀ (i : ℕ) l, s.limiters[i]? = some l →
        made.1.limiters[i]? = some (l.addUsers (ready.countP fun scene => scene.limiter = some i))) ∧
      ((∃ scene f', ready ++ [scene] <+: role.scenes ∧ factory scene = .error f' ∧ f = f'.relocate scene.location) ∨
        (ready = role.scenes ∧ s.barrier.started = true ∧ f = .configuration Barrier.location .lateParticipant)) := by
  have hcount := fun scenes (i : ℕ) l (h : s.limiters[i]? = some l) => Stage.getElem?_countUsers h scenes
  have hattempt := attempt_make role factory s
  generalize make role factory s = made at hattempt
  dsimp only
  cases hattempt with
  | made p all early =>
    refine ⟨iff_of_true rfl ⟨all, early⟩, s.length_countUsers _, fun _ _ => ⟨rfl, hcount _⟩, nofun⟩
  | late all late =>
    refine ⟨iff_of_false nofun fun h => ?_, s.length_countUsers _, nofun, ?_⟩
    · rw [late] at h
      exact Bool.noConfusion h.2
    · rintro _ ⟨⟩
      refine ⟨rfl, ?_, .inr ⟨all, late, rfl⟩⟩
      rw [all]
      exact hcount _
  | failed scene f next fails =>
    refine ⟨iff_of_false nofun fun h => ?_, s.length_countUsers _, nofun, ?_⟩
    · rw [h.1] at next
      simpa using next.length_le
    · rintro _ ⟨⟩
      exact ⟨rfl, hcount _, .inl ⟨scene, f, next, fails, rfl⟩⟩

/-- Two phases share a limiter, and only the first has a tag. A participant that needs tags is refused for the second
phase, and one that needs none is refused when another one has begun. Both leave users behind. -/
theorem refused_keeps_users :
    let block : Block := { repeats := some ⟨1⟩, rate := some ⟨5, .ofSeconds 1⟩, limiterName := some "common" }
    let entry : Entry := ⟨none, "Counter", ⟨1⟩, [{ block with extra := [("Tag", .text "one")] }, block], []⟩
    let plan : Plan := { schema := Plan.currentSchema, entries := [entry], extra := [] }
    let tag (scene : Scene) : Except Fault String := scene.require Reader.text "Tag"
    let untagged (_ : Scene) : Except Fault String := .ok ""
    ∃ s t role, Stage.make plan 0 = .ok s ∧ Role.make s entry = (t, .ok role) ∧
      (t.usersOf 0 = 0 ∧ (make role tag t).1.usersOf 0 = 1 ∧
        (make role tag t).2 = .error (.configuration "Counter.phase-1" (.missingKey "Tag"))) ∧
      let first := (make role untagged t).1
      let running := { first with barrier := (first.barrier.enter .start).barrier }
      running.usersOf 0 = 2 ∧ (make role untagged running).1.usersOf 0 = 4 ∧
        (make role untagged running).2 = .error (.configuration Barrier.location .lateParticipant) := by
  intro block entry plan tag untagged
  have hlocation : Scene.locationOf "Counter" 1 = "Counter.phase-1" := by decide
  refine ⟨_, _, _, rfl, rfl, ⟨by decide, by decide, ?_⟩, by decide, by decide, rfl⟩
  rw [← hlocation]
  rfl

end Participant

end PhasedWorkload
