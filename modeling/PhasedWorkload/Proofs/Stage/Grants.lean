import Mathlib.Data.List.Perm.Subperm
import PhasedWorkload.Proofs.Stage.Roles

/-! # Limiters that are given out

Every limiter that a stage gives out is noted with the name and the rate that were asked for. Grants of one name are
for one limiter at one rate, and all others are for different limiters. The blocks of a role ask one after another,
and what the first of them got stays when a later one is refused.
-/
namespace PhasedWorkload

/-- A limiter that was given out, and what was asked for. -/
structure Grant where
  name : Option String
  spec : Rate
  id : ℕ
deriving DecidableEq, Repr

namespace Grant

def IsNamesake (g g' : Grant) : Prop := ∃ name, g.name = some name ∧ g'.name = some name

theorem IsNamesake.symm {g g' : Grant} (h : g.IsNamesake g') : g'.IsNamesake g := by
  obtain ⟨name, hname, hname'⟩ := h
  exact ⟨name, hname', hname⟩

/-- The grants of one name, and no others, are of one limiter. -/
def Accords (g g' : Grant) : Prop := g.id = g'.id ↔ g.IsNamesake g'

instance : Std.Symm Accords := ⟨fun _ _ h => eq_comm.trans (h.trans ⟨.symm, .symm⟩)⟩

end Grant

/-- A block that asks for the limiter of a name. -/
structure Block.Asks (b : Block) (name : String) (spec : Rate) : Prop where
  busy : b.isNop = false
  name : b.limiterName = some name
  rate : b.rate = some spec

namespace Scene

def grant? (scene : Scene) : Option Grant :=
  scene.limiter.bind fun id => scene.block.rate.map fun spec => ⟨scene.block.limiterName, spec, id⟩

def IsLimited (scene : Scene) : Prop := scene.block.isNop = false ∧ scene.block.rate.isSome = true

/-- Two scenes that ask for the limiter of one name. -/
def AsksAlike (scene scene' : Scene) : Prop :=
  scene.IsLimited ∧ scene'.IsLimited ∧
    ∃ name, scene.block.limiterName = some name ∧ scene'.block.limiterName = some name

def Shares (scene scene' : Scene) : Prop := ∃ id, scene.limiter = some id ∧ scene'.limiter = some id

end Scene

namespace Stage

variable {s t : Stage} {g : Grant} {grants : List Grant} {name : String} {spec : Rate} {id : ℕ}

/-! ## One grant -/

/-- What giving out a limiter does: it is a new one, or that of a name at the rate of that limiter. -/
inductive Grants (s : Stage) : Stage → Grant → Prop where
  | fresh (g : Grant) (l : Limiter) (made : l.spec = g.spec) (unused : l.users = 0) (next : g.id = s.limiters.length)
    (unknown : ∀ name, g.name = some name → s.registry.lookup name = none) :
    Grants s { s with
      limiters := s.limiters ++ [l]
      registry := g.name.elim s.registry fun name => (name, g.id) :: s.registry } g
  | known (g : Grant) (name : String) (named : g.name = some name) (found : s.registry.lookup name = some g.id)
    (defined : (s.limiters[g.id]?.map Limiter.spec).getD g.spec = g.spec) : Grants s s g

/-- The clock is steady and ticks in nanoseconds, so a limiter can always be made. -/
theorem addLimiter_eq (s : Stage) (spec : Rate) : s.addLimiter spec =
    .ok ({ s with limiters := s.limiters ++ [Limiter.start spec s.now] }, s.limiters.length) := rfl

theorem grants_addLimiter (h : s.addLimiter spec = .ok (t, id)) : s.Grants t ⟨none, spec, id⟩ := by
  rw [addLimiter_eq] at h
  cases h
  exact .fresh ⟨none, spec, _⟩ _ rfl rfl rfl nofun

theorem namedLimiter_fresh (h : s.registry.lookup name = none) (spec : Rate) : s.namedLimiter name spec =
    .ok ({ s with
      limiters := s.limiters ++ [Limiter.start spec s.now]
      registry := (name, s.limiters.length) :: s.registry }, s.limiters.length) := by
  rw [namedLimiter, h]
  rfl

theorem namedLimiter_known (h : s.registry.lookup name = some id) (spec : Rate) : s.namedLimiter name spec =
    if (s.limiters[id]?.map Limiter.spec).getD spec = spec then .ok (s, id)
    else .error (.configuration name
      (.limiterRedefined name ((s.limiters[id]?.map Limiter.spec).getD spec) spec)) := by
  rw [namedLimiter, h]

theorem grants_namedLimiter (h : s.namedLimiter name spec = .ok (t, id)) : s.Grants t ⟨some name, spec, id⟩ := by
  cases hlookup : s.registry.lookup name with
  | none =>
    rw [namedLimiter_fresh hlookup] at h
    cases h
    refine .fresh ⟨some name, spec, _⟩ _ rfl rfl rfl ?_
    rintro _ ⟨⟩
    exact hlookup
  | some found =>
    rw [namedLimiter_known hlookup] at h
    split at h
    · next hdefined =>
      cases h
      exact .known ⟨some name, spec, id⟩ name rfl hlookup hdefined
    · cases h

/-- A block gets a limiter if it has a rate and something to do. -/
theorem limiterFor_ok {block : Block} {rule : StopRule} {limiter : Option ℕ}
    (h : Scene.limiterFor s block rule = .ok (t, limiter)) :
    (rule.isNothing = true ∨ block.rate = none) ∧ t = s ∧ limiter = none ∨
    ∃ spec id, rule.isNothing = false ∧ block.rate = some spec ∧ limiter = some id ∧
      s.Grants t ⟨block.limiterName, spec, id⟩ := by
  unfold Scene.limiterFor at h
  split at h
  · next hnothing =>
    cases h
    exact .inl ⟨.inl hnothing, rfl, rfl⟩
  · next hsomething =>
    rw [Bool.not_eq_true] at hsomething
    split at h
    · next hrate =>
      cases h
      exact .inl ⟨.inr hrate, rfl, rfl⟩
    · next spec name hrate hname =>
      cases hl : s.namedLimiter name spec with
      | error f => simp [hl, Except.map] at h
      | ok made =>
        simp only [hl, Except.map, Except.ok.injEq, Prod.mk.injEq] at h
        obtain ⟨rfl, rfl⟩ := h
        rw [hname]
        exact .inr ⟨spec, made.2, hsomething, hrate, rfl, grants_namedLimiter hl⟩
    · next spec hrate hname =>
      cases hl : s.addLimiter spec with
      | error f => simp [hl, Except.map] at h
      | ok made =>
        simp only [hl, Except.map, Except.ok.injEq, Prod.mk.injEq] at h
        obtain ⟨rfl, rfl⟩ := h
        rw [hname]
        exact .inr ⟨spec, made.2, hsomething, hrate, rfl, grants_addLimiter hl⟩

theorem limiterFor_error {block : Block} {rule : StopRule} {f : Fault}
    (h : Scene.limiterFor s block rule = .error f) : ∃ location reason, f = .configuration location reason := by
  unfold Scene.limiterFor at h
  split at h
  · cases h
  · split at h
    · cases h
    · next spec name _ _ =>
      cases hlookup : s.registry.lookup name with
      | none =>
        rw [namedLimiter_fresh hlookup] at h
        cases h
      | some id =>
        rw [namedLimiter_known hlookup] at h
        split at h <;> cases h
        exact ⟨_, _, rfl⟩
    · rw [addLimiter_eq] at h
      cases h

/-- Limiters and names are only added. -/
structure Extends (s t : Stage) : Prop where
  limiters : s.limiters <+: t.limiters
  registry : ∀ name id, s.registry.lookup name = some id → t.registry.lookup name = some id

theorem Extends.refl (s : Stage) : s.Extends s := ⟨List.prefix_rfl, fun _ _ => id⟩

theorem Extends.trans {u : Stage} (h : s.Extends t) (h' : t.Extends u) : s.Extends u :=
  ⟨h.limiters.trans h'.limiters, fun name id hlookup => h'.registry name id (h.registry name id hlookup)⟩

theorem Grants.extends (h : s.Grants t g) : s.Extends t := by
  cases h with
  | known => exact .refl s
  | fresh g l made unused next unknown =>
    refine ⟨List.prefix_append _ _, ?_⟩
    intro name id hlookup
    cases hname : g.name with
    | none => exact hlookup
    | some other =>
      rw [Option.elim_some, Keyed.lookup_cons]
      split
      · next heq =>
        dsimp only at heq
        rw [heq, unknown other hname] at hlookup
        cases hlookup
      · exact hlookup

/-! ## All grants -/

/-- What the grants of a stage say about its limiters. -/
structure Registers (s : Stage) (grants : List Grant) : Prop where
  named : ∀ name id, s.registry.lookup name = some id ↔ ∃ g ∈ grants, g.name = some name ∧ g.id = id
  made : ∀ g ∈ grants, s.limiters[g.id]?.map Limiter.spec = some g.spec
  accord : grants.Pairwise Grant.Accords
  granted : ∀ id < s.limiters.length, ∃ g ∈ grants, g.id = id

theorem registers_opened {plan : Plan} {now : ℕ} (h : Stage.make plan now = .ok s) : s.Registers [] := by
  unfold Stage.make at h
  split at h <;> cases h
  constructor
  · intro name id
    constructor
    · exact nofun
    · rintro ⟨g, hg, _⟩
      exact absurd hg List.not_mem_nil
  · exact fun g hg => absurd hg List.not_mem_nil
  · exact .nil
  · exact fun id hlt => absurd hlt (Nat.not_lt_zero id)

theorem Registers.lt_length (h : s.Registers grants) (hg : g ∈ grants) : g.id < s.limiters.length := by
  have hmade := h.made g hg
  by_contra hge
  rw [List.getElem?_eq_none (Nat.le_of_not_lt hge)] at hmade
  cases hmade

theorem Registers.not_known (h : s.Registers grants) (hlookup : s.registry.lookup name = none) (hg : g ∈ grants) :
    g.name ≠ some name := by
  intro hname
  have hfound := (h.named name g.id).mpr ⟨g, hg, hname, rfl⟩
  rw [hlookup] at hfound
  cases hfound

/-- Namesakes have one limiter, also if they are the same. -/
theorem Registers.namesake (h : s.Registers grants) {g' : Grant} (hg : g ∈ grants) (hg' : g' ∈ grants)
    (hname : g.name = some name) : g'.id = g.id ↔ g'.name = some name := by
  constructor
  · intro hid
    by_cases hsame : g' = g
    · rw [hsame, hname]
    · obtain ⟨other, hother, hother'⟩ := (h.accord.forall hg' hg hsame).mp hid
      rw [hother, ← hother', hname]
  · intro hname'
    have hlookup := (h.named name g'.id).mpr ⟨g', hg', hname', rfl⟩
    have hlookup' := (h.named name g.id).mpr ⟨g, hg, hname, rfl⟩
    exact Option.some.inj (hlookup.symm.trans hlookup')

theorem Registers.spec_eq (h : s.Registers grants) {g' : Grant} (hg : g ∈ grants) (hg' : g' ∈ grants)
    (hname : g.name = some name) (hname' : g'.name = some name) : g.spec = g'.spec := by
  have hmade := h.made g' hg'
  rw [(h.namesake hg hg' hname).mpr hname', h.made g hg] at hmade
  exact Option.some.inj hmade

theorem Registers.grant (h : s.Registers grants) (hg : s.Grants t g) : t.Registers (grants ++ [g]) := by
  cases hg with
  | fresh g l made unused next unknown =>
    have hunknown : ∀ g' ∈ grants, ¬g'.IsNamesake g := by
      rintro g' hg' ⟨name, hname', hname⟩
      exact h.not_known (unknown name hname) hg' hname'
    constructor
    · intro name id
      simp only [List.mem_append, List.mem_singleton, or_and_right, exists_or, exists_eq_left, ← h.named]
      cases hname : g.name with
      | none => simp
      | some other =>
        rw [Option.elim_some, Keyed.lookup_cons, Option.some.injEq]
        by_cases heq : name = other
        · subst heq
          simp [unknown name hname]
        · simp [heq, Ne.symm heq]
    · intro g' hg'
      rcases List.mem_append.mp hg' with hg' | hg'
      · rw [List.getElem?_append_left (h.lt_length hg')]
        exact h.made g' hg'
      · rw [List.mem_singleton.mp hg', next, List.getElem?_concat_length, Option.map_some, made]
    · refine List.pairwise_append.mpr ⟨h.accord, List.pairwise_singleton _ _, ?_⟩
      intro g' hg' g'' hg''
      rw [List.mem_singleton.mp hg'', Grant.Accords, next]
      exact iff_of_false (Nat.ne_of_lt (h.lt_length hg')) (hunknown g' hg')
    · intro id hid
      rw [List.length_append, List.length_singleton] at hid
      rcases Nat.lt_or_eq_of_le (Nat.le_of_lt_succ hid) with hlt | heq
      · obtain ⟨g', hg', hid'⟩ := h.granted id hlt
        exact ⟨g', List.mem_append_left _ hg', hid'⟩
      · exact ⟨g, List.mem_append_right _ List.mem_cons_self, next.trans heq.symm⟩
  | known g name named found defined =>
    obtain ⟨first, hfirst, hname, hid⟩ := (h.named name g.id).mp found
    have hmade := h.made first hfirst
    rw [hid] at hmade
    have hspec : first.spec = g.spec := by rwa [hmade, Option.getD_some] at defined
    constructor
    · intro name' id
      simp only [List.mem_append, List.mem_singleton, or_and_right, exists_or, exists_eq_left, ← h.named]
      constructor
      · exact .inl
      · rintro (hlookup | ⟨hname', rfl⟩)
        · exact hlookup
        · obtain rfl : name = name' := Option.some.inj (named.symm.trans hname')
          exact found
    · intro g' hg'
      rcases List.mem_append.mp hg' with hg' | hg'
      · exact h.made g' hg'
      · rw [List.mem_singleton.mp hg', hmade, hspec]
    · refine List.pairwise_append.mpr ⟨h.accord, List.pairwise_singleton _ _, ?_⟩
      intro g' hg' g'' hg''
      rw [List.mem_singleton.mp hg'', Grant.Accords, ← hid, h.namesake hfirst hg' hname]
      constructor
      · intro hname'
        exact ⟨name, hname', named⟩
      · rintro ⟨other, hother, hother'⟩
        rw [hother, ← hother', named]
    · intro id hlt
      obtain ⟨g', hg', hid'⟩ := h.granted id hlt
      exact ⟨g', List.mem_append_left _ hg', hid'⟩

end Stage

/-! ## The grants of a role -/

/-- A rule is refused at its own place, or it is nothing where the block is flagged so. -/
theorem StopRule.ofBlock_cases (block : Block) :
    (∃ reason, ofBlock block = .error (.configuration location reason)) ∨
      ∃ rule, ofBlock block = .ok rule ∧ rule.isNothing = block.isNop := by
  rcases block.stops_or_misruled with ⟨rule, hstops⟩ | ⟨reason, hmisruled⟩
  · exact .inr ⟨rule, hstops.ofBlock, hstops.isNothing⟩
  · exact .inl ⟨reason, hmisruled.ofBlock⟩

/-- A scene has a limiter if its block has a rate and something to do. -/
structure Scene.IsSuited (scene : Scene) : Prop where
  limited : scene.grant?.isSome = true ↔ scene.IsLimited
  limiter : scene.limiter = scene.grant?.map Grant.id

namespace Scene

variable {scene scene' : Scene} {g g' : Grant}

theorem name_of_grant? (h : scene.grant? = some g) :
    g.name = scene.block.limiterName ∧ scene.block.rate = some g.spec := by
  unfold grant? at h
  obtain ⟨id, _, hrate⟩ := Option.bind_eq_some_iff.mp h
  obtain ⟨spec, hspec, rfl⟩ := Option.map_eq_some_iff.mp hrate
  exact ⟨rfl, hspec⟩

theorem IsSuited.shares_iff (h : scene.IsSuited) (h' : scene'.IsSuited)
    (haccord : ∀ g, scene.grant? = some g → ∀ g', scene'.grant? = some g' → g.Accords g') :
    scene.Shares scene' ↔ scene.AsksAlike scene' := by
  unfold Shares AsksAlike
  rw [h.limiter, h'.limiter, ← h.limited, ← h'.limited]
  constructor
  · rintro ⟨id, hid, hid'⟩
    obtain ⟨g, hg, rfl⟩ := Option.map_eq_some_iff.mp hid
    obtain ⟨g', hg', hsame⟩ := Option.map_eq_some_iff.mp hid'
    obtain ⟨name, hname, hname'⟩ := (haccord g hg g' hg').mp hsame.symm
    rw [hg, hg', ← (name_of_grant? hg).1, ← (name_of_grant? hg').1]
    exact ⟨rfl, rfl, name, hname, hname'⟩
  · rintro ⟨hsome, hsome', name, hname, hname'⟩
    obtain ⟨g, hg⟩ := Option.isSome_iff_exists.mp hsome
    obtain ⟨g', hg'⟩ := Option.isSome_iff_exists.mp hsome'
    rw [← (name_of_grant? hg).1] at hname
    rw [← (name_of_grant? hg').1] at hname'
    have hsame : g.id = g'.id := (haccord g hg g' hg').mpr ⟨name, hname, hname'⟩
    rw [hg, hg']
    exact ⟨g.id, rfl, congrArg some hsame.symm⟩

end Scene

namespace Role

open Stage

variable {s t : Stage} {entry : Entry} {before scenes : List Scene} {made : Scene} {block : Block} {index : ℕ}
  {blocks : List Block} {grants : List Grant}

/-- What the blocks of an entry are given, up to the first that is refused. -/
def granted (entry : Entry) : Stage → List Scene → ℕ → List Block → List Grant
  | _, _, _, [] => []
  | stage, before, index, block :: rest =>
    match scene stage entry before index block with
    | .error _ => []
    | .ok (stage, s) => s.grant?.toList ++ granted entry stage (insert s before) (index + 1) rest

theorem scene_grants (h : scene s entry before index block = .ok (t, made)) :
    made.IsSuited ∧ (made.grant? = none ∧ t = s ∨ ∃ g, made.grant? = some g ∧ s.Grants t g) := by
  unfold scene at h
  dsimp only at h
  split at h
  · cases h
  · rcases StopRule.ofBlock_cases block with ⟨reason, hrule⟩ | ⟨rule, hrule, hnop⟩
    · simp [hrule] at h
    · simp only [hrule] at h
      split at h
      · cases h
      · next t' limiter hlimiter =>
        cases h
        rcases limiterFor_ok hlimiter with ⟨hidle, rfl, rfl⟩ | ⟨spec, id, hbusy, hrate, rfl, hgrants⟩
        · refine ⟨⟨iff_of_false Bool.false_ne_true ?_, rfl⟩, .inl ⟨rfl, rfl⟩⟩
          rintro ⟨hsomething, hrated⟩
          rcases hidle with hidle | hidle
          · simp [hnop.symm.trans hidle] at hsomething
          · simp [hidle] at hrated
        · have hgrant : ∀ made : Scene, made.limiter = some id → made.block = block →
              made.grant? = some ⟨block.limiterName, spec, id⟩ := by
            rintro made hid rfl
            rw [Scene.grant?, hid, Option.bind_some, hrate, Option.map_some]
          refine ⟨⟨iff_of_true ?_ ⟨hnop.symm.trans hbusy, ?_⟩, ?_⟩, .inr ⟨_, hgrant _ rfl rfl, hgrants⟩⟩
          · rw [hgrant _ rfl rfl]
            rfl
          · rw [hrate]
            rfl
          · rw [hgrant _ rfl rfl]
            rfl

theorem extends_scene (h : scene s entry before index block = .ok (t, made)) : s.Extends t := by
  rcases (scene_grants h).2 with ⟨_, rfl⟩ | ⟨g, _, hgrants⟩
  · exact .refl _
  · exact hgrants.extends

theorem extends_scenesOf (entry : Entry) (s : Stage) (before : List Scene) (index : ℕ) (blocks : List Block) :
    s.Extends (scenesOf entry s before index blocks).1 := by
  induction blocks generalizing s before index with
  | nil => exact .refl s
  | cons block rest ih =>
    simp only [scenesOf]
    split
    · exact .refl s
    · next hscene => exact (extends_scene hscene).trans (ih _ _ _)

/-- Whether the role is refused in the end or not, what its blocks were given is given. -/
theorem registers_scenesOf (h : s.Registers grants) (entry : Entry) (before : List Scene) (index : ℕ)
    (blocks : List Block) : (scenesOf entry s before index blocks).1.Registers
      (grants ++ granted entry s before index blocks) := by
  induction blocks generalizing s before index grants with
  | nil => simpa [scenesOf, granted] using h
  | cons block rest ih =>
    simp only [scenesOf, granted]
    cases hscene : scene s entry before index block with
    | error f => simpa using h
    | ok next =>
      obtain ⟨t, made⟩ := next
      have hmade : t.Registers (grants ++ made.grant?.toList) := by
        rcases (scene_grants hscene).2 with ⟨hnone, rfl⟩ | ⟨g, hsome, hgrants⟩
        · simpa [hnone] using h
        · simpa [hsome] using h.grant hgrants
      rw [← List.append_assoc]
      exact ih hmade _ _

/-- The scenes of a role have what its blocks were given. -/
theorem scenesOf_granted (h : scenesOf entry s before index blocks = (t, .ok scenes))
    (hbefore : ∀ scene ∈ before, scene.IsSuited) : (∀ scene ∈ scenes, scene.IsSuited) ∧
      (scenes.filterMap Scene.grant?).Perm (before.filterMap Scene.grant? ++ granted entry s before index blocks) := by
  induction blocks generalizing s before index with
  | nil =>
    cases h
    exact ⟨hbefore, by simp [granted]⟩
  | cons block rest ih =>
    simp only [scenesOf] at h
    cases hscene : scene s entry before index block with
    | error f => simp [hscene] at h
    | ok next =>
      obtain ⟨s', made⟩ := next
      have hinsert := perm_insert made before
      simp only [hscene] at h
      have hinserted : ∀ scene ∈ insert made before, scene.IsSuited := by
        intro scene hmem
        rcases List.mem_cons.mp (hinsert.mem_iff.mp hmem) with rfl | hmem
        · exact (scene_grants hscene).1
        · exact hbefore scene hmem
      obtain ⟨hsuited, hperm⟩ := ih h hinserted
      refine ⟨hsuited, hperm.trans ?_⟩
      simp only [granted, hscene]
      rw [← List.append_assoc]
      refine List.Perm.append_right _ ((hinsert.filterMap _).trans ?_)
      have hcons : (made :: before).filterMap Scene.grant? = made.grant?.toList ++ before.filterMap Scene.grant? := by
        cases hgrant : made.grant? <;> simp [hgrant]
      rw [hcons]
      exact List.perm_append_comm

theorem isConfiguration_scene {f : Fault} (h : scene s entry before index block = .error f) :
    f.isConfiguration = true := by
  unfold scene at h
  dsimp only at h
  split at h
  · cases h
    rfl
  · rcases StopRule.ofBlock_cases block with ⟨reason, hrule⟩ | ⟨rule, hrule, _⟩
    · simp only [hrule, Except.error.injEq] at h
      exact h ▸ rfl
    · simp only [hrule] at h
      split at h
      · next f' hlimiter =>
        cases h
        obtain ⟨location, reason, rfl⟩ := limiterFor_error hlimiter
        rfl
      · cases h

theorem isConfiguration_scenesOf {f : Fault} (h : scenesOf entry s before index blocks = (t, .error f)) :
    f.isConfiguration = true := by
  induction blocks generalizing s before index with
  | nil => cases h
  | cons block rest ih =>
    simp only [scenesOf] at h
    split at h
    · next hscene =>
      cases h
      exact isConfiguration_scene hscene
    · exact ih h

theorem make_limiters (s : Stage) (entry : Entry) :
    (make s entry).1.limiters = (scenesOf entry s [] 0 entry.blocks).1.limiters ∧
      (make s entry).1.registry = (scenesOf entry s [] 0 entry.blocks).1.registry := by
  unfold make
  split
  · next hscenes =>
    rw [hscenes]
    exact ⟨rfl, rfl⟩
  · next scenes hscenes =>
    rw [hscenes]
    cases scenes.getLast? <;> exact ⟨rfl, rfl⟩

theorem extends_make (s : Stage) (entry : Entry) : s.Extends (make s entry).1 := by
  obtain ⟨hlimiters, hregistry⟩ := make_limiters s entry
  have hscenes := extends_scenesOf entry s [] 0 entry.blocks
  exact ⟨hlimiters ▸ hscenes.limiters, hregistry ▸ hscenes.registry⟩

theorem registers_make (h : s.Registers grants) (entry : Entry) :
    (make s entry).1.Registers (grants ++ granted entry s [] 0 entry.blocks) := by
  obtain ⟨hlimiters, hregistry⟩ := make_limiters s entry
  have hscenes := registers_scenesOf h entry [] 0 entry.blocks
  exact ⟨hregistry ▸ hscenes.named, hlimiters ▸ hscenes.made, hscenes.accord, hlimiters ▸ hscenes.granted⟩

/-- A role that is refused is a fault of the plan, and does not make the run longer. -/
theorem make_error {f : Fault} (h : make s entry = (t, .error f)) :
    f.isConfiguration = true ∧ t.barrier = s.barrier := by
  have hkeeps := keeps_scenesOf entry s [] 0 entry.blocks
  unfold make at h
  split at h
  · next hscenes =>
    cases h
    rw [hscenes] at hkeeps
    exact ⟨isConfiguration_scenesOf hscenes, hkeeps.1⟩
  · cases h

theorem make_grants {role : Role} (h : make s entry = (t, .ok role)) : (∀ scene ∈ role.scenes, scene.IsSuited) ∧
    (role.scenes.filterMap Scene.grant?).Perm (granted entry s [] 0 entry.blocks) := by
  unfold make at h
  split at h
  · cases h
  · next hscenes =>
    cases h
    exact scenesOf_granted hscenes fun _ hmem => absurd hmem List.not_mem_nil

/-- A block that asks for a name is granted it, if the role is made. -/
theorem granted_of_asks {role : Role} {name : String} {spec : Rate} (h : make s entry = (t, .ok role))
    (hblock : block ∈ entry.blocks) (hasks : block.Asks name spec) :
    ∃ g ∈ granted entry s [] 0 entry.blocks, g.name = some name ∧ g.spec = spec := by
  obtain ⟨hsuited, hperm⟩ := make_grants h
  obtain ⟨scene, hscene, rfl⟩ := List.mem_map.mp ((make_ok h).1.blocks.mem_iff.mpr hblock)
  have hlimited : scene.IsLimited := ⟨hasks.busy, by rw [hasks.rate, Option.isSome_some]⟩
  obtain ⟨g, hg⟩ := Option.isSome_iff_exists.mp ((hsuited scene hscene).limited.mpr hlimited)
  obtain ⟨hname, hrate⟩ := Scene.name_of_grant? hg
  refine ⟨g, hperm.mem_iff.mp (List.mem_filterMap.mpr ⟨scene, hscene, hg⟩), hname.trans hasks.name, ?_⟩
  exact Option.some.inj (hrate.symm.trans hasks.rate)

end Role

end PhasedWorkload
