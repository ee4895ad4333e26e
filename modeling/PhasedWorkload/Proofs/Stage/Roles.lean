import PhasedWorkload.Proofs.Stage.Enlisting

/-! # Roles of a plan

The role of an entry has one scene for each of its blocks, with the stop rule of the block, in the order of the
phases. No phase occurs twice, and the run reaches all of them.
-/
namespace PhasedWorkload

variable {s t : Stage} {entry : Entry} {scenes : List Scene} {plan : Plan} {last : ℕ}

/-! ## Stop rules -/

/-- The rule by which a block stops. -/
inductive Block.Stops (b : Block) : StopRule → Prop where
  | nothing (idle : b.isNop = true) : b.Stops .nothing
  | iterations (count : Count) (busy : b.isNop = false) (repeats : b.repeats = some count)
    (duration : b.duration = none) (positive : count.value ≠ 0) : b.Stops (.iterations count.value)
  | elapsed (limit : TimeSpan) (busy : b.isNop = false) (repeats : b.repeats = none)
    (duration : b.duration = some limit) (positive : limit.nanos ≠ 0) : b.Stops (.elapsed limit)
  | untilPhaseEnd (busy : b.isNop = false) (repeats : b.repeats = none) (duration : b.duration = none)
    (rate : b.rate = none) : b.Stops .untilPhaseEnd

/-- Why a block that has something to do has no rule. -/
inductive Block.Misruled (b : Block) : ConfigurationFault → Prop where
  | repeatAndDuration (count : Count) (limit : TimeSpan) (busy : b.isNop = false) (repeats : b.repeats = some count)
    (duration : b.duration = some limit) : b.Misruled .repeatAndDuration
  | zeroRepeat (count : Count) (busy : b.isNop = false) (repeats : b.repeats = some count)
    (duration : b.duration = none) (zero : count.value = 0) : b.Misruled .zeroRepeat
  | zeroDuration (limit : TimeSpan) (busy : b.isNop = false) (repeats : b.repeats = none)
    (duration : b.duration = some limit) (zero : limit.nanos = 0) : b.Misruled .zeroDuration
  | rateAlone (spec : Rate) (busy : b.isNop = false) (repeats : b.repeats = none) (duration : b.duration = none)
    (rate : b.rate = some spec) : b.Misruled .rateAlone

namespace Block

variable {b : Block} {rule : StopRule} {reason : ConfigurationFault}

theorem stops_or_misruled (b : Block) : (∃ rule, b.Stops rule) ∨ ∃ reason, b.Misruled reason := by
  cases hnop : b.isNop with
  | true => exact .inl ⟨_, .nothing hnop⟩
  | false =>
    cases hrepeats : b.repeats with
    | some count =>
      cases hduration : b.duration with
      | some limit => exact .inr ⟨_, .repeatAndDuration count limit hnop hrepeats hduration⟩
      | none =>
        by_cases hzero : count.value = 0
        · exact .inr ⟨_, .zeroRepeat count hnop hrepeats hduration hzero⟩
        · exact .inl ⟨_, .iterations count hnop hrepeats hduration hzero⟩
    | none =>
      cases hduration : b.duration with
      | some limit =>
        by_cases hzero : limit.nanos = 0
        · exact .inr ⟨_, .zeroDuration limit hnop hrepeats hduration hzero⟩
        · exact .inl ⟨_, .elapsed limit hnop hrepeats hduration hzero⟩
      | none =>
        cases hrate : b.rate with
        | some spec => exact .inr ⟨_, .rateAlone spec hnop hrepeats hduration hrate⟩
        | none => exact .inl ⟨_, .untilPhaseEnd hnop hrepeats hduration hrate⟩

theorem Stops.ofBlock (h : b.Stops rule) : StopRule.ofBlock b = .ok rule := by
  cases h with
  | nothing idle => simp [StopRule.ofBlock, StopRule.make, idle]
  | iterations count busy repeats duration positive =>
    simp [StopRule.ofBlock, StopRule.make, busy, repeats, duration, positive]
  | elapsed limit busy repeats duration positive =>
    simp [StopRule.ofBlock, StopRule.make, busy, repeats, duration, positive]
  | untilPhaseEnd busy repeats duration rate =>
    simp [StopRule.ofBlock, StopRule.make, busy, repeats, duration, rate]

theorem Misruled.ofBlock (h : b.Misruled reason) :
    StopRule.ofBlock b = .error (.configuration StopRule.location reason) := by
  cases h with
  | repeatAndDuration count limit busy repeats duration =>
    simp [StopRule.ofBlock, StopRule.make, busy, repeats, duration]
  | zeroRepeat count busy repeats duration zero =>
    simp [StopRule.ofBlock, StopRule.make, busy, repeats, duration, zero]
  | zeroDuration limit busy repeats duration zero =>
    simp [StopRule.ofBlock, StopRule.make, busy, repeats, duration, zero]
  | rateAlone spec busy repeats duration rate =>
    simp [StopRule.ofBlock, StopRule.make, busy, repeats, duration, rate]

theorem stops_of_ofBlock (h : StopRule.ofBlock b = .ok rule) : b.Stops rule := by
  rcases b.stops_or_misruled with ⟨rule', hstops⟩ | ⟨reason, hmisruled⟩
  · obtain rfl : rule' = rule := Except.ok.inj (hstops.ofBlock.symm.trans h)
    exact hstops
  · exact absurd (hmisruled.ofBlock.symm.trans h) nofun

theorem Stops.isNothing (h : b.Stops rule) : rule.isNothing = b.isNop := by
  cases h with
  | nothing idle => rw [idle]; rfl
  | iterations _ busy => rw [busy]; rfl
  | elapsed _ busy => rw [busy]; rfl
  | untilPhaseEnd busy => rw [busy]; rfl

end Block

/-! ## Scenes -/

/-- What a scene is read from. -/
structure Scene.Reads (plan : Plan) (entry : Entry) (scene : Scene) : Prop where
  rule : StopRule.ofBlock scene.block = .ok scene.rule
  entryExtra : scene.entryExtra = entry.extra
  planExtra : scene.planExtra = plan.extra

namespace Role

def InOrder (scenes : List Scene) : Prop := scenes.Pairwise fun s s' => s.number < s'.number

theorem perm_insert (scene : Scene) (scenes : List Scene) : (insert scene scenes).Perm (scene :: scenes) := by
  induction scenes with
  | nil => exact .refl _
  | cons first rest ih =>
    simp only [insert]
    split
    · exact .refl _
    · exact (ih.cons first).trans (.swap scene first rest)

theorem InOrder.insert {scene : Scene} (h : InOrder scenes) (hfresh : ∀ s ∈ scenes, s.number ≠ scene.number) :
    InOrder (insert scene scenes) := by
  induction scenes with
  | nil => exact List.pairwise_singleton _ _
  | cons first rest ih =>
    obtain ⟨hfirst, hrest⟩ := List.pairwise_cons.mp h
    have hne := hfresh first List.mem_cons_self
    simp only [Role.insert]
    split
    · next hlt =>
      refine List.pairwise_cons.mpr ⟨fun s hs => ?_, h⟩
      rcases List.mem_cons.mp hs with rfl | hs
      · exact hlt
      · exact hlt.trans (hfirst s hs)
    · next hle =>
      have hlt : first.number < scene.number := by omega
      have hrest' := ih hrest fun s hs => hfresh s (List.mem_cons_of_mem _ hs)
      refine List.pairwise_cons.mpr ⟨fun s hs => ?_, hrest'⟩
      rcases List.mem_cons.mp ((perm_insert scene rest).mem_iff.mp hs) with rfl | hs
      · exact hlt
      · exact hfirst s hs

theorem InOrder.le_getLast {latest : Scene} (h : InOrder scenes) (hlast : scenes.getLast? = some latest) :
    ∀ s ∈ scenes, s.number ≤ latest.number := by
  obtain ⟨before, rfl⟩ := List.getLast?_eq_some_iff.mp hlast
  obtain ⟨_, _, hbefore⟩ := List.pairwise_append.mp h
  intro s hs
  rcases List.mem_append.mp hs with hs | hs
  · exact (hbefore s hs latest (List.mem_singleton.mpr rfl)).le
  · exact (congrArg Scene.number (List.mem_singleton.mp hs)).le

/-- A block becomes a scene of a phase that did not come before. -/
theorem scene_ok {before : List Scene} {index : ℕ} {block : Block} {scene : Scene}
    (h : Role.scene s entry before index block = .ok (t, scene)) :
    scene.block = block ∧ scene.Reads s.plan entry ∧ ∀ s' ∈ before, s'.number ≠ scene.number := by
  unfold Role.scene at h
  dsimp only at h
  split at h
  · cases h
  · next hfresh =>
    split at h
    · cases h
    · next rule hrule =>
      split at h
      · cases h
      · next t' limiter hlimiter =>
        cases h
        have hplan := (Stage.keeps_limiterFor hlimiter).2
        refine ⟨rfl, ⟨hrule, rfl, by rw [hplan]⟩, fun s' hs' heq => hfresh ?_⟩
        exact List.any_eq_true.mpr ⟨s', hs', decide_eq_true heq⟩

theorem scenesOf_ok {before : List Scene} {index : ℕ} {blocks : List Block}
    (h : scenesOf entry s before index blocks = (t, .ok scenes)) (horder : InOrder before)
    (hreads : ∀ scene ∈ before, scene.Reads s.plan entry) :
    InOrder scenes ∧ (scenes.map Scene.block).Perm (before.map Scene.block ++ blocks) ∧
      ∀ scene ∈ scenes, scene.Reads s.plan entry := by
  induction blocks generalizing s before index with
  | nil =>
    cases h
    exact ⟨horder, by simp, hreads⟩
  | cons block rest ih =>
    simp only [scenesOf] at h
    split at h
    · cases h
    · next s' scene hscene =>
      obtain ⟨hblock, hread, hfresh⟩ := scene_ok hscene
      have hplan : s'.plan = s.plan := (Stage.keeps_scene hscene).2
      have hinsert := perm_insert scene before
      obtain ⟨horder', hperm, hreads'⟩ := ih h (horder.insert hfresh) fun scene' hscene' => by
        rw [hplan]
        rcases List.mem_cons.mp (hinsert.mem_iff.mp hscene') with rfl | hscene'
        · exact hread
        · exact hreads scene' hscene'
      refine ⟨horder', hperm.trans ?_, hplan ▸ hreads'⟩
      refine ((hinsert.map Scene.block).append_right rest).trans ?_
      rw [List.map_cons, hblock]
      exact List.perm_middle.symm

/-- What a role is read from, in a run that reaches so many phases. -/
structure Reads (plan : Plan) (last : ℕ) (entry : Entry) (role : Role) : Prop where
  source : role.entry = entry
  order : InOrder role.scenes
  blocks : (role.scenes.map Scene.block).Perm entry.blocks
  scenes : ∀ scene ∈ role.scenes, scene.Reads plan entry
  bound : ∀ scene ∈ role.scenes, scene.number ≤ last

theorem make_ok {role : Role} (h : make s entry = (t, .ok role)) :
    role.Reads s.plan t.barrier.maxPhase entry ∧ t.plan = s.plan ∧ s.barrier.maxPhase ≤ t.barrier.maxPhase := by
  unfold make at h
  split at h
  · cases h
  · next s' scenes hscenes =>
    cases h
    have hkeeps := Stage.keeps_scenesOf entry s [] 0 entry.blocks
    rw [hscenes] at hkeeps
    obtain ⟨hbarrier, hplan⟩ := hkeeps
    dsimp only at hbarrier hplan
    obtain ⟨horder, hperm, hreads⟩ := scenesOf_ok hscenes .nil fun _ hs => absurd hs List.not_mem_nil
    cases hlast : scenes.getLast? with
    | none =>
      have hnil := List.getLast?_eq_none_iff.mp hlast
      exact ⟨⟨rfl, horder, hperm, hreads, by simp [hnil]⟩, hplan, by simp [hbarrier]⟩
    | some latest =>
      have hle := horder.le_getLast hlast
      refine ⟨⟨rfl, horder, hperm, hreads, fun scene hscene => ?_⟩, hplan, ?_⟩
      · exact (hle scene hscene).trans (le_max_right _ _)
      · exact (congrArg Barrier.maxPhase hbarrier).ge.trans (le_max_left _ _)

theorem makeAll_ok {entries : List Entry} {roles : List Role} (h : makeAll s entries = (t, .ok roles)) :
    List.Forall₂ (Reads s.plan t.barrier.maxPhase) entries roles ∧ s.barrier.maxPhase ≤ t.barrier.maxPhase := by
  induction entries generalizing s roles with
  | nil =>
    cases h
    exact ⟨.nil, le_rfl⟩
  | cons entry rest ih =>
    simp only [makeAll] at h
    split at h
    · cases h
    · next s' role hmake =>
      split at h
      · cases h
      · next t' roles' hrest =>
        cases h
        obtain ⟨hrole, hplan, hle⟩ := make_ok hmake
        obtain ⟨hroles, hle'⟩ := ih hrest
        rw [hplan] at hroles
        have hbound : ∀ scene ∈ role.scenes, scene.number ≤ t.barrier.maxPhase :=
          fun scene hscene => (hrole.bound scene hscene).trans hle'
        exact ⟨.cons ⟨hrole.source, hrole.order, hrole.blocks, hrole.scenes, hbound⟩ hroles, hle.trans hle'⟩

end Role

end PhasedWorkload
