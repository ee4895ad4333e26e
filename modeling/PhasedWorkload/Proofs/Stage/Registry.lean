import PhasedWorkload.Proofs.Stage.Grants

/-! # The limiters of a stage

A stage is asked for limiters by name, and to make the roles of entries, whose blocks ask for limiters in turn. After
any such requests, refused ones among them, the limiter of a name is that of the first request which was granted.
Nothing that was given out is ever taken back.
-/
namespace PhasedWorkload

inductive Stage.Request where
  | limiter (name : String) (spec : Rate)
  | role (entry : Entry)

/-- The stage after a request. -/
def Stage.serve (s : Stage) : Request → Stage
  | .limiter name spec => ((s.namedLimiter name spec).toOption.map Prod.fst).getD s
  | .role entry => (Role.make s entry).1

/-- A stage, what it has given out, and the roles that were made. -/
structure Archive where
  stage : Stage
  grants : List Grant := []
  roles : List Role := []

namespace Archive

open Stage

def step (a : Archive) : Request → Archive
  | .limiter name spec =>
    match a.stage.namedLimiter name spec with
    | .ok (stage, id) => { a with stage, grants := a.grants ++ [⟨some name, spec, id⟩] }
    | .error _ => a
  | .role entry =>
    { stage := (Role.make a.stage entry).1
      grants := a.grants ++ Role.granted entry a.stage [] 0 entry.blocks
      roles := a.roles ++ (Role.make a.stage entry).2.toOption.toList }

def serve (a : Archive) (requests : List Request) : Archive := requests.foldl step a

def scenes (a : Archive) : List Scene := a.roles.flatMap Role.scenes

variable {a : Archive} {request : Request} {requests : List Request} {plan : Plan} {now : ℕ} {s : Stage}

theorem stage_step (a : Archive) (request : Request) : (a.step request).stage = a.stage.serve request := by
  cases request with
  | role entry => rfl
  | limiter name spec =>
    simp only [step, Stage.serve]
    cases a.stage.namedLimiter name spec <;> rfl

theorem stage_serve (a : Archive) (requests : List Request) :
    (a.serve requests).stage = requests.foldl Stage.serve a.stage := by
  induction requests generalizing a with
  | nil => rfl
  | cons request requests ih =>
    rw [List.foldl_cons, ← stage_step]
    exact ih (a.step request)

theorem grants_step (a : Archive) (request : Request) : a.grants <+: (a.step request).grants := by
  cases request with
  | role entry => exact List.prefix_append _ _
  | limiter name spec =>
    simp only [step]
    split
    · exact List.prefix_append _ _
    · exact List.prefix_rfl

theorem grants_serve (a : Archive) (requests : List Request) : a.grants <+: (a.serve requests).grants := by
  induction requests generalizing a with
  | nil => exact List.prefix_rfl
  | cons request requests ih => exact (a.grants_step request).trans (ih (a.step request))

theorem extends_step (a : Archive) (request : Request) : a.stage.Extends (a.step request).stage := by
  cases request with
  | role entry => exact Role.extends_make a.stage entry
  | limiter name spec =>
    simp only [step]
    split
    · next hlimiter => exact (grants_namedLimiter hlimiter).extends
    · exact .refl _

/-- The grants say all about the limiters, and the phases of the roles have what was granted to them. -/
structure Sound (a : Archive) : Prop where
  registers : a.stage.Registers a.grants
  suited : ∀ scene ∈ a.scenes, scene.IsSuited
  given : (a.scenes.filterMap Scene.grant?).Subperm a.grants

theorem sound_opened (h : Stage.make plan now = .ok s) : Sound { stage := s } where
  registers := registers_opened h
  suited _ hscene := absurd hscene List.not_mem_nil
  given := List.nil_subperm

theorem Sound.step (h : a.Sound) (request : Request) : (a.step request).Sound := by
  cases request with
  | limiter name spec =>
    simp only [Archive.step]
    split
    · next stage id hlimiter =>
      have hgrants := grants_namedLimiter hlimiter
      exact ⟨h.registers.grant hgrants, h.suited, h.given.trans (List.sublist_append_left _ _).subperm⟩
    · exact h
  | role entry =>
    have hregisters := Role.registers_make h.registers entry
    cases hmake : Role.make a.stage entry with
    | mk t outcome =>
      simp only [hmake] at hregisters
      simp only [Archive.step, hmake]
      cases outcome with
      | error f =>
        refine ⟨hregisters, ?_, ?_⟩
        · simpa [scenes, Except.toOption] using h.suited
        · simpa [scenes, Except.toOption] using h.given.trans (List.sublist_append_left _ _).subperm
      | ok role =>
        obtain ⟨hsuited, hperm⟩ := Role.make_grants hmake
        have hscenes : ∀ grants, scenes ⟨t, grants, a.roles ++ [role]⟩ = a.scenes ++ role.scenes := by
          intro grants
          simp [scenes]
        refine ⟨hregisters, ?_, ?_⟩
        · rw [Except.toOption, Option.toList_some, hscenes]
          intro scene hscene
          exact (List.mem_append.mp hscene).elim (h.suited scene) (hsuited scene)
        · rw [Except.toOption, Option.toList_some, hscenes, List.filterMap_append]
          exact h.given.append hperm.subperm

theorem Sound.serve (h : a.Sound) (requests : List Request) : (a.serve requests).Sound := by
  induction requests generalizing a with
  | nil => exact h
  | cons request requests ih => exact ih (h.step request)

/-- What holds of a stage, whatever it has been asked for. -/
structure Consistent (a : Archive) : Prop where
  /-- the limiter of a name is given to everybody who asks for its rate -/
  repeated : ∀ g ∈ a.grants, ∀ name, g.name = some name → a.stage.namedLimiter name g.spec = .ok (a.stage, g.id)
  /-- and to nobody who asks for another one -/
  redefined : ∀ g ∈ a.grants, ∀ name spec, g.name = some name → g.spec ≠ spec →
    a.stage.namedLimiter name spec = .error (.configuration name (.limiterRedefined name g.spec spec)) ∧
      a.stage.serve (.limiter name spec) = a.stage
  /-- a name that was not given out is for a new limiter -/
  first : ∀ name spec, (∀ g ∈ a.grants, g.name ≠ some name) →
    (∃ t, a.stage.namedLimiter name spec = .ok (t, a.stage.limiters.length)) ∧
      ∀ g ∈ a.grants, g.id ≠ a.stage.limiters.length
  /-- no role can be made of an entry that asks for another rate of a name, or for two -/
  refused : ∀ entry, ∀ block ∈ entry.blocks, ∀ name spec, block.Asks name spec →
    ((∃ g ∈ a.grants, g.name = some name ∧ g.spec ≠ spec) ∨
      ∃ block' ∈ entry.blocks, ∃ spec', block'.Asks name spec' ∧ spec' ≠ spec) →
    ∃ f, (Role.make a.stage entry).2 = .error f ∧ f.isConfiguration = true
  /-- limiters are shared by name only, and there are no others than those that are given out -/
  accord : a.grants.Pairwise Grant.Accords
  granted : ∀ id < a.stage.limiters.length, ∃ g ∈ a.grants, g.id = id
  limited : ∀ scene ∈ a.scenes, scene.limiter.isSome = true ↔ scene.IsLimited
  /-- the limiter of a phase was given out for its name and its rate -/
  given : ∀ scene ∈ a.scenes, ∀ id, scene.limiter = some id →
    ∃ g ∈ a.grants, g.id = id ∧ g.name = scene.block.limiterName ∧ scene.block.rate = some g.spec
  shared : a.scenes.Pairwise fun scene scene' => scene.Shares scene' ↔ scene.AsksAlike scene'
  /-- a block with nothing to do leaves the limiters alone -/
  idle : ∀ s entry before index block t scene, block.isNop = true →
    Role.scene s entry before index block = .ok (t, scene) → t = s ∧ scene.limiter = none
  kept : ∀ request, a.stage.Extends (a.stage.serve request)
  /-- a role that is refused does not make the run longer -/
  failed : ∀ entry t f, Role.make a.stage entry = (t, .error f) → t.barrier = a.stage.barrier

theorem Sound.namedLimiter_eq (h : a.Sound) {g : Grant} (hg : g ∈ a.grants) {name : String} (hname : g.name = some name)
    (spec : Rate) : a.stage.namedLimiter name spec =
      if g.spec = spec then .ok (a.stage, g.id)
      else .error (.configuration name (.limiterRedefined name g.spec spec)) := by
  rw [namedLimiter_known ((h.registers.named name g.id).mpr ⟨g, hg, hname, rfl⟩), h.registers.made g hg,
    Option.getD_some]

theorem Sound.first (h : a.Sound) {name : String} (hname : ∀ g ∈ a.grants, g.name ≠ some name) :
    a.stage.registry.lookup name = none := by
  cases hlookup : a.stage.registry.lookup name with
  | none => rfl
  | some id =>
    obtain ⟨g, hg, hgname, _⟩ := (h.registers.named name id).mp hlookup
    exact absurd hgname (hname g hg)

theorem Sound.refused (h : a.Sound) {entry : Entry} {block : Block} {name : String} {spec : Rate}
    (hblock : block ∈ entry.blocks) (hasks : block.Asks name spec)
    (hother : (∃ g ∈ a.grants, g.name = some name ∧ g.spec ≠ spec) ∨
      ∃ block' ∈ entry.blocks, ∃ spec', block'.Asks name spec' ∧ spec' ≠ spec) :
    ∃ f, (Role.make a.stage entry).2 = .error f ∧ f.isConfiguration = true := by
  cases hmake : Role.make a.stage entry with
  | mk t outcome =>
    cases outcome with
    | error f => exact ⟨f, rfl, (Role.make_error hmake).1⟩
    | ok role =>
      exfalso
      have hregisters := Role.registers_make h.registers entry
      -- Both have been given the limiter of the name, which has one rate.
      obtain ⟨g, hg, hname, hspec⟩ := Role.granted_of_asks hmake hblock hasks
      have hright := List.mem_append_right a.grants hg
      rcases hother with ⟨g', hg', hname', hne⟩ | ⟨block', hblock', spec', hasks', hne⟩
      · have hleft := List.mem_append_left (Role.granted entry a.stage [] 0 entry.blocks) hg'
        exact hne ((hregisters.spec_eq hleft hright hname' hname).trans hspec)
      · obtain ⟨g', hg', hname', hspec'⟩ := Role.granted_of_asks hmake hblock' hasks'
        have hright' := List.mem_append_right a.grants hg'
        exact hne (hspec'.symm.trans ((hregisters.spec_eq hright' hright hname' hname).trans hspec))

theorem Sound.given_of_limiter (h : a.Sound) {scene : Scene} (hscene : scene ∈ a.scenes) {id : ℕ}
    (hid : scene.limiter = some id) :
    ∃ g ∈ a.grants, g.id = id ∧ g.name = scene.block.limiterName ∧ scene.block.rate = some g.spec := by
  rw [(h.suited scene hscene).limiter] at hid
  obtain ⟨g, hg, hgid⟩ := Option.map_eq_some_iff.mp hid
  exact ⟨g, h.given.subset (List.mem_filterMap.mpr ⟨scene, hscene, hg⟩), hgid, Scene.name_of_grant? hg⟩

theorem Sound.shared (h : a.Sound) :
    a.scenes.Pairwise fun scene scene' => scene.Shares scene' ↔ scene.AsksAlike scene' := by
  obtain ⟨grants, hperm, hsublist⟩ := h.given
  have hgrants : (a.scenes.filterMap Scene.grant?).Pairwise Grant.Accords :=
    (h.registers.accord.sublist hsublist).perm hperm fun hr => Std.Symm.symm _ _ hr
  apply (List.pairwise_filterMap.mp hgrants).imp_of_mem
  intro scene scene' hscene hscene' haccord
  exact (h.suited _ hscene).shares_iff (h.suited _ hscene') haccord

theorem Sound.consistent (h : a.Sound) : a.Consistent where
  repeated g hg name hname := by rw [h.namedLimiter_eq hg hname, if_pos rfl]
  redefined g hg name spec hname hspec := by
    rw [Stage.serve, h.namedLimiter_eq hg hname, if_neg hspec]
    exact ⟨rfl, rfl⟩
  first name spec hname :=
    ⟨⟨_, namedLimiter_fresh (h.first hname) spec⟩, fun g hg => Nat.ne_of_lt (h.registers.lt_length hg)⟩
  refused entry block hblock name spec hasks hother := h.refused hblock hasks hother
  accord := h.registers.accord
  granted := h.registers.granted
  limited scene hscene := by
    have hsuited := h.suited scene hscene
    rw [hsuited.limiter, Option.isSome_map]
    exact hsuited.limited
  given scene hscene id hid := h.given_of_limiter hscene hid
  shared := h.shared
  idle s entry before index block t scene hnop hscene := by
    obtain ⟨hsuited, hgrants⟩ := Role.scene_grants hscene
    have hblock := (Role.scene_ok hscene).1
    rcases hgrants with ⟨hnone, rfl⟩ | ⟨g, hsome, _⟩
    · exact ⟨rfl, by rw [hsuited.limiter, hnone]; rfl⟩
    · have hlimited := hsuited.limited.mp (by rw [hsome]; rfl)
      rw [Scene.IsLimited, hblock, hnop] at hlimited
      exact absurd hlimited.1 Bool.noConfusion
  kept request := stage_step a request ▸ a.extends_step request
  failed entry t f hmake := (Role.make_error hmake).2

/-- After any requests to a stage, some of which may have been refused, its limiters are as they were given out: all
grants so far stand, and the next request finds them. -/
theorem one_limiter_per_name (h : Stage.make plan now = .ok s) (requests : List Request) :
    let a := serve { stage := s } requests
    a.stage = requests.foldl Stage.serve s ∧
    (∀ past, past <+: requests → (serve { stage := s } past).grants <+: a.grants) ∧
    a.Consistent := by
  intro a
  refine ⟨stage_serve _ _, ?_, ((sound_opened h).serve requests).consistent⟩
  rintro past ⟨later, rfl⟩
  have happend : a = (serve { stage := s } past).serve later := List.foldl_append
  rw [happend]
  exact grants_serve _ later

/-- Entries whose blocks ask for one name, and for others, at the same rate or at another. -/
def rivals (slow fast : Rate) : List Request :=
  let entry (blocks : List Block) : Entry := ⟨none, "HelloWorld", ⟨1⟩, blocks, []⟩
  let block : Block := { repeats := some ⟨1⟩, rate := some slow }
  [.limiter "common" slow,
    .role (entry [{ block with limiterName := some "common" }, block]),
    .role (entry [{ block with limiterName := some "late" },
      { block with rate := some fast, limiterName := some "common" }]),
    .role (entry [block, { block with limiterName := some "common", nop := some true },
      { block with limiterName := some "common" }])]

/-- The third request is refused for its second block; the limiter of its first one stays. -/
theorem one_limiter_per_name_rivals :
    let plan : Plan := { schema := Plan.currentSchema, entries := [], extra := [] }
    let slow : Rate := ⟨5, .ofSeconds 1⟩
    let fast : Rate := ⟨10, .ofSeconds 1⟩
    ∃ s, Stage.make plan 0 = .ok s ∧
      let a := serve { stage := s } (rivals slow fast)
      a.scenes.map Scene.limiter = [some 0, some 1, some 3, none, some 0] ∧
      a.stage.namedLimiter "late" slow = .ok (a.stage, 2) ∧
      a.stage.namedLimiter "common" fast = .error (.configuration "common" (.limiterRedefined "common" slow fast)) := by
  intro plan slow fast
  have hopen : Stage.make plan 0 = .ok { plan, now := 0 } := rfl
  have hscenes : (serve { stage := { plan, now := 0 } } (rivals slow fast)).scenes.map Scene.limiter =
      [some 0, some 1, some 3, none, some 0] := by decide +kernel
  have hgrants : (serve { stage := { plan, now := 0 } } (rivals slow fast)).grants =
      [⟨some "common", slow, 0⟩, ⟨some "common", slow, 0⟩, ⟨none, slow, 1⟩, ⟨some "late", slow, 2⟩, ⟨none, slow, 3⟩,
        ⟨some "common", slow, 0⟩] := by decide +kernel
  obtain ⟨_, _, h⟩ := one_limiter_per_name hopen (rivals slow fast)
  have hlate := h.repeated ⟨some "late", slow, 2⟩ (by rw [hgrants]; simp) "late" rfl
  have hcommon := h.redefined ⟨some "common", slow, 0⟩ (by rw [hgrants]; simp) "common" fast rfl (by decide)
  exact ⟨_, hopen, hscenes, hlate, hcommon.1⟩

end Archive

end PhasedWorkload
