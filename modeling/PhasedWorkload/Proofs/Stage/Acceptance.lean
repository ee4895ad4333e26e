import PhasedWorkload.Proofs.Stage.Registry

/-! # Which entries are accepted

A role can be made of an entry if and only if the entry is well-formed on the stage: no phase occurs twice, every block
with something to do has a stop rule, and every block that asks for a limiter by name asks for the rate that the name
has already, from the stage or from the blocks before. If it is not, the role is refused at its first block that
offends, for the first of these reasons.
-/
namespace PhasedWorkload

/-! ## Registered rates -/

namespace Stage

variable {s t : Stage} {g : Grant} {grants : List Grant} {name : String} {spec defined : Rate}

def specOf? (s : Stage) (name : String) : Option Rate :=
  (s.registry.lookup name).bind fun id => s.limiters[id]?.map Limiter.spec

/-- Every registered name stands for a limiter that was made. -/
def IsBacked (s : Stage) : Prop := ∀ name id, s.registry.lookup name = some id → id < s.limiters.length

theorem Registers.isBacked (h : s.Registers grants) : s.IsBacked := by
  intro name id hlookup
  obtain ⟨g, hg, _, rfl⟩ := (h.named name id).mp hlookup
  exact h.lt_length hg

theorem isBacked_serve {plan : Plan} {now : ℕ} (h : Stage.make plan now = .ok s) (requests : List Request) :
    (requests.foldl Stage.serve s).IsBacked := by
  rw [← Archive.stage_serve { stage := s }]
  exact ((Archive.sound_opened h).serve requests).registers.isBacked

theorem IsBacked.exists_limiter (h : s.IsBacked) {id : ℕ} (hlookup : s.registry.lookup name = some id) :
    ∃ l, s.limiters[id]? = some l :=
  ⟨_, List.getElem?_eq_getElem (h name id hlookup)⟩

theorem specOf?_of_lookup {id : ℕ} (h : s.registry.lookup name = some id) :
    s.specOf? name = s.limiters[id]?.map Limiter.spec := by
  rw [specOf?, h, Option.bind_some]

theorem specOf?_eq_none (h : s.registry.lookup name = none) : s.specOf? name = none := by
  rw [specOf?, h, Option.bind_none]

theorem Grants.isBacked (h : s.Grants t g) (hs : s.IsBacked) : t.IsBacked := by
  cases h with
  | known => exact hs
  | fresh g l made unused next unknown =>
    intro name id hlookup
    rw [List.length_append, List.length_singleton]
    have hold : s.registry.lookup name = some id → id < s.limiters.length + 1 := fun hknown =>
      Nat.lt_succ_of_lt (hs name id hknown)
    cases hname : g.name with
    | none =>
      rw [hname] at hlookup
      exact hold hlookup
    | some other =>
      rw [hname, Option.elim_some, Keyed.lookup_cons] at hlookup
      split at hlookup
      · obtain rfl := Option.some.inj hlookup
        exact next ▸ Nat.lt_succ_self _
      · exact hold hlookup

theorem Grants.spec_eq (h : s.Grants t g) (hname : g.name = some name) (hdefined : s.specOf? name = some defined) :
    defined = g.spec := by
  cases h with
  | fresh g l made unused next unknown =>
    rw [specOf?_eq_none (unknown name hname)] at hdefined
    cases hdefined
  | known g other named found agreed =>
    obtain rfl : other = name := Option.some.inj (named.symm.trans hname)
    rw [specOf?_of_lookup found] at hdefined
    rwa [hdefined, Option.getD_some] at agreed

theorem Grants.specOf? (h : s.Grants t g) (hs : s.IsBacked) (name : String) :
    t.specOf? name = if g.name = some name then some g.spec else s.specOf? name := by
  cases h with
  | fresh g l made unused next unknown =>
    have hkept : ∀ id, s.registry.lookup name = some id →
        (s.limiters ++ [l])[id]?.map Limiter.spec = s.limiters[id]?.map Limiter.spec := fun id hlookup => by
      rw [List.getElem?_append_left (hs name id hlookup)]
    have hother : (s.registry.lookup name).bind (fun id => (s.limiters ++ [l])[id]?.map Limiter.spec) =
        s.specOf? name := Option.bind_congr hkept
    cases hname : g.name with
    | none => exact hother
    | some other =>
      rw [Stage.specOf?, Option.elim_some, Keyed.lookup_cons]
      by_cases hsame : other = name
      · rw [if_pos hsame.symm, if_pos (congrArg some hsame), Option.bind_some, next, List.getElem?_concat_length,
          Option.map_some, made]
      · rw [if_neg (Ne.symm hsame), if_neg fun h => hsame (Option.some.inj h)]
        exact hother
  | known g other named found agreed =>
    split
    · next hname =>
      obtain rfl : other = name := Option.some.inj (named.symm.trans hname)
      obtain ⟨l, hl⟩ := hs.exists_limiter found
      rw [hl, Option.map_some, Option.getD_some] at agreed
      rw [specOf?_of_lookup found, hl, Option.map_some, agreed]
    · rfl

theorem namedLimiter_error {f : Fault} (hs : s.IsBacked) (h : s.namedLimiter name spec = .error f) :
    ∃ defined, s.specOf? name = some defined ∧ defined ≠ spec ∧
      f = .configuration name (.limiterRedefined name defined spec) := by
  cases hlookup : s.registry.lookup name with
  | none =>
    rw [namedLimiter_fresh hlookup] at h
    cases h
  | some id =>
    obtain ⟨l, hl⟩ := hs.exists_limiter hlookup
    rw [namedLimiter_known hlookup, hl, Option.map_some, Option.getD_some] at h
    split at h
    · cases h
    · next hother =>
      cases h
      exact ⟨l.spec, by rw [specOf?_of_lookup hlookup, hl, Option.map_some], hother, rfl⟩

/-- A block that asks for a limiter by name registers its rate, and no other block registers anything. -/
theorem limiterFor_accepts {block : Block} {rule : StopRule} {limiter : Option ℕ} (hs : s.IsBacked)
    (hrule : block.Stops rule) (h : Scene.limiterFor s block rule = .ok (t, limiter)) :
    t.IsBacked ∧
      (∀ name spec defined, block.Asks name spec → s.specOf? name = some defined → defined = spec) ∧
      ∀ name spec, t.specOf? name = some spec ↔ s.specOf? name = some spec ∨ block.Asks name spec := by
  rcases limiterFor_ok h with ⟨hidle, rfl, _⟩ | ⟨spec, id, hbusy, hrate, _, hgrants⟩
  · have hsilent : ∀ name spec, ¬block.Asks name spec := by
      rintro name spec ⟨hbusy, _, hrate⟩
      rcases hidle with hidle | hidle
      · rw [hrule.isNothing, hbusy] at hidle
        cases hidle
      · rw [hidle] at hrate
        cases hrate
    exact ⟨hs, fun name spec defined hasks => absurd hasks (hsilent name spec),
      fun name spec => ⟨.inl, fun hor => hor.resolve_right (hsilent name spec)⟩⟩
  · have hagree : ∀ name spec' defined, block.Asks name spec' → s.specOf? name = some defined → defined = spec' := by
      rintro name spec' defined ⟨_, hname, hrate'⟩ hdefined
      obtain rfl : spec = spec' := Option.some.inj (hrate.symm.trans hrate')
      exact hgrants.spec_eq hname hdefined
    refine ⟨hgrants.isBacked hs, hagree, fun name spec' => ?_⟩
    rw [hgrants.specOf? hs]
    dsimp only
    by_cases hname : block.limiterName = some name
    · have hasks : block.Asks name spec := ⟨hrule.isNothing ▸ hbusy, hname, hrate⟩
      rw [if_pos hname]
      constructor
      · intro heq
        exact .inr (Option.some.inj heq ▸ hasks)
      · rintro (hdefined | hasks')
        · exact congrArg some (hagree name spec spec' hasks hdefined).symm
        · exact hrate.symm.trans hasks'.rate
    · rw [if_neg hname]
      exact ⟨.inl, fun hor => hor.resolve_right fun hasks => hname hasks.name⟩

theorem limiterFor_refuses {block : Block} {rule : StopRule} {f : Fault} (hs : s.IsBacked)
    (hrule : block.Stops rule) (h : Scene.limiterFor s block rule = .error f) :
    ∃ name spec defined, block.Asks name spec ∧ s.specOf? name = some defined ∧ defined ≠ spec ∧
      f = .configuration name (.limiterRedefined name defined spec) := by
  unfold Scene.limiterFor at h
  split at h
  · cases h
  · next hbusy =>
    rw [Bool.not_eq_true, hrule.isNothing] at hbusy
    split at h
    · cases h
    · next spec name hrate hname =>
      cases hlimiter : s.namedLimiter name spec with
      | ok made =>
        rw [hlimiter] at h
        cases h
      | error f' =>
        rw [hlimiter] at h
        cases h
        obtain ⟨defined, hdefined, hother, rfl⟩ := namedLimiter_error hs hlimiter
        exact ⟨name, spec, defined, ⟨hbusy, hname, hrate⟩, hdefined, hother, rfl⟩
    · rw [addLimiter_eq] at h
      cases h

end Stage

/-! ## Well-formed entries -/

namespace Role

open Stage

/-- The blocks under the numbers of their phases, where the first has a given place. -/
def numbered (index : ℕ) (blocks : List Block) : List (ℕ × Block) :=
  (blocks.zipIdx index).map fun b => (b.1.phase.getD b.2, b.1)

/-- The rate that a name has on the stage, or that a block asks for under it. -/
def Registered (s : Stage) (earlier : List (ℕ × Block)) (name : String) (spec : Rate) : Prop :=
  s.specOf? name = some spec ∨ ∃ b ∈ earlier, b.2.Asks name spec

structure WellFormed (s : Stage) (blocks : List (ℕ × Block)) : Prop where
  distinct : (blocks.map Prod.fst).Nodup
  ruled : ∀ b ∈ blocks, ∀ reason, ¬b.2.Misruled reason
  agreed : ∀ b ∈ blocks, ∀ name spec defined, b.2.Asks name spec → s.specOf? name = some defined → defined = spec
  accord : blocks.Pairwise fun b b' => ∀ name spec spec', b.2.Asks name spec → b'.2.Asks name spec' → spec = spec'

/-- Why a block is refused after those before it: the first reason that applies, in this order. -/
inductive Offends (s : Stage) (earlier : List (ℕ × Block)) (number : ℕ) (block : Block) :
    ConfigurationFault → Prop where
  | duplicate (again : number ∈ earlier.map Prod.fst) : Offends s earlier number block (.duplicatePhase number)
  | rule {reason : ConfigurationFault} (new : number ∉ earlier.map Prod.fst) (misruled : block.Misruled reason) :
    Offends s earlier number block reason
  | limiter {name : String} {spec defined : Rate} (new : number ∉ earlier.map Prod.fst)
    (ruled : ∀ reason, ¬block.Misruled reason) (asks : block.Asks name spec)
    (registered : Registered s earlier name defined) (other : defined ≠ spec) :
    Offends s earlier number block (.limiterRedefined name defined spec)

variable {s t : Stage} {entry : Entry} {earlier blocks : List (ℕ × Block)} {before scenes : List Scene} {number : ℕ}
  {block : Block}

theorem numbered_cons (index : ℕ) (block : Block) (blocks : List Block) :
    numbered index (block :: blocks) = (block.phase.getD index, block) :: numbered (index + 1) blocks := rfl

theorem wellFormed_nil (s : Stage) : WellFormed s [] :=
  ⟨List.nodup_nil, by simp, by simp, .nil⟩

theorem WellFormed.concat (h : WellFormed s earlier) (hnew : number ∉ earlier.map Prod.fst)
    (hruled : ∀ reason, ¬block.Misruled reason)
    (hagreed : ∀ name spec defined, block.Asks name spec → Registered s earlier name defined → defined = spec) :
    WellFormed s (earlier ++ [(number, block)]) where
  distinct := by
    rw [List.map_append]
    exact ((List.perm_append_singleton number _).nodup_iff).mpr (List.nodup_cons.mpr ⟨hnew, h.distinct⟩)
  ruled b hb := by
    rcases List.mem_append.mp hb with hb | hb
    · exact h.ruled b hb
    · exact List.mem_singleton.mp hb ▸ hruled
  agreed b hb name spec defined hasks hdefined := by
    rcases List.mem_append.mp hb with hb | hb
    · exact h.agreed b hb name spec defined hasks hdefined
    · obtain rfl := List.mem_singleton.mp hb
      exact hagreed name spec defined hasks (.inl hdefined)
  accord := by
    refine List.pairwise_append.mpr ⟨h.accord, List.pairwise_singleton _ _, ?_⟩
    intro b hb b' hb' name spec spec' hasks hasks'
    obtain rfl := List.mem_singleton.mp hb'
    exact hagreed name spec' spec hasks' (.inr ⟨b, hb, hasks⟩)

theorem WellFormed.not_offends {later : List (ℕ × Block)} {reason : ConfigurationFault}
    (h : WellFormed s (earlier ++ (number, block) :: later)) : ¬Offends s earlier number block reason := by
  have hmem : (number, block) ∈ earlier ++ (number, block) :: later := List.mem_append_right _ List.mem_cons_self
  intro hoffends
  cases hoffends with
  | duplicate again =>
    have hdistinct := h.distinct
    rw [List.map_append, List.map_cons, List.nodup_append] at hdistinct
    exact hdistinct.2.2 number again number List.mem_cons_self rfl
  | rule new misruled => exact h.ruled _ hmem _ misruled
  | limiter new ruled asks registered other =>
    rcases registered with hdefined | ⟨b, hb, hasks⟩
    · exact other (h.agreed _ hmem _ _ _ asks hdefined)
    · exact other ((List.pairwise_append.mp h.accord).2.2 b hb _ List.mem_cons_self _ _ _ hasks asks)

/-! ## The blocks of an entry, one after another -/

/-- A stage and the scenes so far, after blocks of which none offends. -/
structure Follows (s : Stage) (earlier : List (ℕ × Block)) (t : Stage) (scenes : List Scene) : Prop where
  wellFormed : WellFormed s earlier
  backed : t.IsBacked
  registered : ∀ name spec, t.specOf? name = some spec ↔ Registered s earlier name spec
  scenes : (scenes.map fun scene => (scene.number, scene.block)).Perm earlier

theorem Follows.start (h : s.IsBacked) : Follows s [] s [] where
  wellFormed := wellFormed_nil s
  backed := h
  registered name spec := by simp [Registered]
  scenes := .nil

theorem Follows.any_number (h : Follows s earlier t before) (number : ℕ) :
    (before.any fun scene => scene.number = number) = true ↔ number ∈ earlier.map Prod.fst := by
  rw [← (h.scenes.map Prod.fst).mem_iff, List.map_map]
  simp [Function.comp_def]

/-- The next block becomes a scene, or it offends and is refused for that. -/
theorem Follows.scene (h : Follows s earlier t before) (entry : Entry) (index : ℕ) (block : Block) :
    (∃ t' made, Role.scene t entry before index block = .ok (t', made) ∧
      Follows s (earlier ++ [(block.phase.getD index, block)]) t' (insert made before)) ∨
    ∃ reason, Offends s earlier (block.phase.getD index) block reason ∧
      Role.scene t entry before index block =
        .error (.configuration (Scene.locationOf entry.name (block.phase.getD index)) reason) := by
  unfold Role.scene
  dsimp only
  by_cases hagain : block.phase.getD index ∈ earlier.map Prod.fst
  · rw [if_pos ((h.any_number _).mpr hagain)]
    exact .inr ⟨_, .duplicate hagain, rfl⟩
  · rw [if_neg fun hany => hagain ((h.any_number _).mp hany)]
    rcases block.stops_or_misruled with ⟨rule, hrule⟩ | ⟨reason, hmisruled⟩
    · have hruled : ∀ reason, ¬block.Misruled reason := fun reason hmisruled =>
        nomatch hrule.ofBlock.symm.trans hmisruled.ofBlock
      rw [hrule.ofBlock]
      dsimp only
      cases hlimiter : Scene.limiterFor t block rule with
      | error f =>
        obtain ⟨name, spec, defined, hasks, hdefined, hother, rfl⟩ := limiterFor_refuses h.backed hrule hlimiter
        exact .inr ⟨_, .limiter hagain hruled hasks ((h.registered _ _).mp hdefined) hother, rfl⟩
      | ok next =>
        obtain ⟨t', limiter⟩ := next
        obtain ⟨hbacked, hagreed, hregistered⟩ := limiterFor_accepts h.backed hrule hlimiter
        refine .inl ⟨_, _, rfl, ?_, hbacked, ?_, ?_⟩
        · exact h.wellFormed.concat hagain hruled fun name spec defined hasks hdefined =>
            hagreed name spec defined hasks ((h.registered _ _).mpr hdefined)
        · intro name spec
          rw [hregistered, h.registered, Registered, Registered, or_assoc]
          simp [or_and_right, exists_or]
        · refine ((perm_insert _ _).map _).trans ?_
          exact (h.scenes.cons _).trans (List.perm_append_singleton _ _).symm
    · rw [hmisruled.ofBlock]
      exact .inr ⟨_, .rule hagain hmisruled, rfl⟩

/-- Refused at the first block that offends. -/
inductive RefusedAt (s : Stage) (actor : String) (blocks : List (ℕ × Block)) : Fault → Prop where
  | intro {earlier later : List (ℕ × Block)} {number : ℕ} {block : Block} {reason : ConfigurationFault}
    (parts : blocks = earlier ++ (number, block) :: later) (wellFormed : WellFormed s earlier)
    (offends : Offends s earlier number block reason) :
    RefusedAt s actor blocks (.configuration (actor ++ ".phase-" ++ toString number) reason)

theorem RefusedAt.not_wellFormed {actor : String} {f : Fault} (h : RefusedAt s actor blocks f) :
    ¬WellFormed s blocks := by
  obtain ⟨rfl, _, hoffends⟩ := h
  exact fun hwellFormed => hwellFormed.not_offends hoffends

theorem Follows.scenesOf (h : Follows s earlier t before) (entry : Entry) (index : ℕ) (blocks : List Block) :
    (∃ t' scenes, Role.scenesOf entry t before index blocks = (t', .ok scenes) ∧
      Follows s (earlier ++ numbered index blocks) t' scenes) ∨
    ∃ t' f, Role.scenesOf entry t before index blocks = (t', .error f) ∧
      RefusedAt s entry.name (earlier ++ numbered index blocks) f ∧ t'.IsBacked := by
  induction blocks generalizing t before earlier index with
  | nil => exact .inl ⟨t, before, rfl, by simpa [numbered] using h⟩
  | cons block rest ih =>
    simp only [Role.scenesOf, numbered_cons]
    rcases h.scene entry index block with ⟨t', made, hscene, hnext⟩ | ⟨reason, hoffends, hscene⟩
    · rw [hscene]
      have hrest := ih hnext (index + 1)
      rwa [List.append_assoc, List.singleton_append] at hrest
    · rw [hscene]
      exact .inr ⟨t, _, rfl, .intro rfl h.wellFormed hoffends, h.backed⟩

/-! ## Roles -/

/-- The run is made to reach the last scene, which has the largest of the numbers. -/
theorem barrier_make {role : Role} {numbers : List ℕ} (h : make s entry = (t, .ok role))
    (hnumbers : (role.scenes.map Scene.number).Perm numbers) :
    t.barrier = s.barrier.reachPhase (numbers.max?.getD 0) := by
  have hkeeps := keeps_scenesOf entry s [] 0 entry.blocks
  obtain ⟨⟨_, horder, _, _, _⟩, _, _⟩ := make_ok h
  unfold make at h
  split at h
  · cases h
  · next s' scenes hscenes =>
    cases h
    rw [hscenes] at hkeeps
    have hbarrier : s'.barrier = s.barrier := hkeeps.1
    dsimp only at horder hnumbers ⊢
    cases hlast : scenes.getLast? with
    | none =>
      obtain rfl := List.getLast?_eq_none_iff.mp hlast
      obtain rfl := List.nil_perm.mp hnumbers
      simpa [Barrier.reachPhase_zero] using hbarrier
    | some latest =>
      have hmax : numbers.max? = some latest.number := by
        refine List.max?_eq_some_iff.mpr ⟨?_, fun n hn => ?_⟩
        · exact hnumbers.mem_iff.mp (List.mem_map_of_mem (List.mem_of_getLast? hlast))
        · obtain ⟨scene, hscene, rfl⟩ := List.mem_map.mp (hnumbers.mem_iff.mpr hn)
          exact horder.le_getLast hlast scene hscene
      rw [hmax]
      exact congrArg (Barrier.reachPhase · latest.number) hbarrier

theorem make_cases (h : s.IsBacked) (entry : Entry) :
    (∃ t role, make s entry = (t, .ok role) ∧ WellFormed s (numbered 0 entry.blocks) ∧
      (role.scenes.map fun scene => (scene.number, scene.block)).Perm (numbered 0 entry.blocks) ∧ t.IsBacked) ∨
    ∃ t f, make s entry = (t, .error f) ∧ RefusedAt s entry.name (numbered 0 entry.blocks) f ∧ t.IsBacked := by
  unfold make
  rcases (Follows.start h).scenesOf entry 0 entry.blocks with ⟨t, scenes, hscenes, hfollows⟩ | ⟨t, f, hscenes, hrefused⟩
  · rw [hscenes]
    refine .inl ⟨_, _, rfl, hfollows.wellFormed, hfollows.scenes, ?_⟩
    cases scenes.getLast? with
    | none => exact hfollows.backed
    | some latest => exact hfollows.backed
  · rw [hscenes]
    exact .inr ⟨t, f, rfl, hrefused⟩

/-- A role is made of an entry if and only if the entry is well-formed, with one scene for each block under its number
and its rule, and the run is made to reach the largest number. Else the role is refused at the first block that
offends. -/
theorem accepts_wellFormed (h : s.IsBacked) (entry : Entry) :
    let blocks := numbered 0 entry.blocks
    ((∃ role, (make s entry).2 = .ok role) ↔ WellFormed s blocks) ∧
    (∀ t role, make s entry = (t, .ok role) →
      (role.scenes.map fun scene => (scene.number, scene.block)).Perm blocks ∧ InOrder role.scenes ∧
      (∀ scene ∈ role.scenes, scene.block.Stops scene.rule) ∧
      t.barrier = s.barrier.reachPhase ((blocks.map Prod.fst).max?.getD 0)) ∧
    (∀ t f, make s entry = (t, .error f) → RefusedAt s entry.name blocks f) ∧
    (make s entry).1.IsBacked := by
  intro blocks
  rcases make_cases h entry with ⟨t, role, hmake, hwellFormed, hperm, hbacked⟩ | ⟨t, f, hmake, hrefused, hbacked⟩
  · have hreads := (make_ok hmake).1
    have hnumbers : (role.scenes.map Scene.number).Perm (blocks.map Prod.fst) := by
      have hmap := hperm.map Prod.fst
      rwa [List.map_map] at hmap
    rw [hmake]
    refine ⟨iff_of_true ⟨role, rfl⟩ hwellFormed, ?_, fun _ _ h => (nomatch congrArg Prod.snd h), hbacked⟩
    rintro _ _ ⟨⟩
    exact ⟨hperm, hreads.order, fun scene hscene => Block.stops_of_ofBlock (hreads.scenes scene hscene).rule,
      barrier_make hmake hnumbers⟩
  · rw [hmake]
    refine ⟨iff_of_false nofun hrefused.not_wellFormed, fun _ _ h => (nomatch congrArg Prod.snd h), ?_, hbacked⟩
    rintro _ _ ⟨⟩
    exact hrefused

/-- The block with nothing to do may break the rules for the others; the last block breaks all of them. -/
theorem accepts_wellFormed_common :
    let slow : Rate := ⟨5, .ofSeconds 1⟩
    let fast : Rate := ⟨10, .ofSeconds 1⟩
    let polite : Block := { repeats := some ⟨1⟩, rate := some slow, limiterName := some "common" }
    let idle : Block :=
      { phase := some 7, repeats := some ⟨0⟩, rate := some fast, limiterName := some "common", nop := some true }
    let rude : Block := { phase := some 0, repeats := some ⟨0⟩, rate := some fast, limiterName := some "common" }
    ∃ s, Stage.make { schema := Plan.currentSchema, entries := [], extra := [] } 0 = .ok s ∧
      let t := s.serve (.limiter "common" slow)
      t.IsBacked ∧ WellFormed t (numbered 0 [polite, idle]) ∧
      RefusedAt t "Greeter" (numbered 0 [polite, idle, rude])
        (.configuration "Greeter.phase-0" (.duplicatePhase 0)) := by
  intro slow fast polite idle rude
  let s : Stage := { plan := { schema := Plan.currentSchema, entries := [], extra := [] }, now := 0 }
  let entry (blocks : List Block) : Entry := ⟨some "Greeter", "HelloWorld", ⟨1⟩, blocks, []⟩
  have hopen : Stage.make { schema := Plan.currentSchema, entries := [], extra := [] } 0 = .ok s := rfl
  have hbacked : (s.serve (.limiter "common" slow)).IsBacked := Stage.isBacked_serve hopen [.limiter "common" slow]
  have hlocation : Scene.locationOf "Greeter" 0 = "Greeter.phase-0" := by decide
  refine ⟨s, hopen, hbacked, ?_, ?_⟩
  · exact (accepts_wellFormed hbacked (entry [polite, idle])).1.mp ⟨_, rfl⟩
  · rw [← hlocation]
    exact (accepts_wellFormed hbacked (entry [polite, idle, rude])).2.2.1 _ _ (Prod.ext rfl rfl)

end Role

end PhasedWorkload
