import PhasedWorkload.Proofs.Stage.Accounts

/-! # Phases that nobody ends

The scenes of all roles with threads are taken in one after another, each under the number of its phase, and are
judged when all of them are in. What is kept of a phase by then are the names of those who go on until its end, in the
order of their entries, and whether anybody bounds it. So a plan is refused for the first phase that is left open, and
at this point for nothing else. No actor has been made yet, and nothing has been counted.
-/
namespace PhasedWorkload

namespace Role

/-- A role that has threads follows a rule in a phase. -/
def Plays (role : Role) (number : ℕ) (rule : StopRule) : Prop :=
  0 < role.threads ∧ ∃ scene ∈ role.scenes, scene.number = number ∧ scene.rule = rule

instance (role : Role) (number : ℕ) (rule : StopRule) : Decidable (role.Plays number rule) :=
  inferInstanceAs (Decidable (_ ∧ _))

/-- A role that has threads ends its work in a phase by itself. -/
def Bounds (role : Role) (number : ℕ) : Prop :=
  (∃ count, role.Plays number (.iterations count)) ∨ ∃ limit, role.Plays number (.elapsed limit)

end Role

namespace Stage

/-- Somebody goes on until the end of the phase, and nobody bounds it. -/
structure LeftOpen (roles : List Role) (number : ℕ) : Prop where
  entered : ∃ role ∈ roles, role.Plays number .untilPhaseEnd
  unbounded : ∀ role ∈ roles, ¬role.Bounds number

/-- The names of the roles that go on until the end of a phase. -/
def untilEnd (roles : List Role) (number : ℕ) : List String :=
  (roles.filter fun role => role.Plays number .untilPhaseEnd).map Role.name

variable {uses : List PhaseUse} {roles : List Role} {u : PhaseUse} {number : ℕ}

/-! ## Taking in scenes -/

namespace PhaseUse

@[simp] theorem number_add (actor : String) (rule : StopRule) (u : PhaseUse) :
    (u.add actor rule).number = u.number := by
  cases rule <;> rfl

theorem unbounded_add (actor : String) (rule : StopRule) (u : PhaseUse) :
    (u.add actor rule).unbounded = u.unbounded ++ if rule = .untilPhaseEnd then [actor] else [] := by
  cases rule <;> simp [add]

theorem isBounded_add (actor : String) (rule : StopRule) (u : PhaseUse) :
    (u.add actor rule).isBounded = (u.isBounded || rule.bounds) := by
  cases rule <;> simp [add, StopRule.bounds]

/-- What a phase is used for after more of its scenes. -/
def addAll (u : PhaseUse) (parts : List (String × Scene)) : PhaseUse :=
  parts.foldl (fun u part => u.add part.1 part.2.rule) u

theorem unbounded_addAll (u : PhaseUse) (parts : List (String × Scene)) :
    (u.addAll parts).unbounded =
      u.unbounded ++ (parts.filter fun part => part.2.rule = .untilPhaseEnd).map Prod.fst := by
  induction parts generalizing u with
  | nil => simp [addAll]
  | cons part rest ih =>
    change ((u.add part.1 part.2.rule).addAll rest).unbounded = _
    rw [ih, unbounded_add, List.append_assoc]
    by_cases hrule : part.2.rule = .untilPhaseEnd <;> simp [hrule]

theorem isBounded_addAll (u : PhaseUse) (parts : List (String × Scene)) :
    (u.addAll parts).isBounded = (u.isBounded || parts.any fun part => part.2.rule.bounds) := by
  induction parts generalizing u with
  | nil => simp [addAll]
  | cons part rest ih =>
    change ((u.add part.1 part.2.rule).addAll rest).isBounded = _
    rw [ih, isBounded_add, List.any_cons, Bool.or_assoc]

end PhaseUse

/-- The use of a phase; one that no scene has is used for nothing. -/
def useOf (uses : List PhaseUse) (number : ℕ) : PhaseUse := (uses.find? fun u => u.number = number).getD { number }

/-- The phases stand in order. -/
def Ascends (uses : List PhaseUse) : Prop := uses.Pairwise fun u u' => u.number < u'.number

theorem useOf_cons (u : PhaseUse) (uses : List PhaseUse) (number : ℕ) :
    useOf (u :: uses) number = if u.number = number then u else useOf uses number := by
  rw [useOf, List.find?_cons]
  by_cases hnumber : u.number = number <;> simp [hnumber, useOf]

theorem useOf_eq_default (h : ∀ u ∈ uses, u.number ≠ number) : useOf uses number = { number } := by
  have hnone : (uses.find? fun u => u.number = number) = none :=
    List.find?_eq_none.mpr fun u hu => by simpa using h u hu
  rw [useOf, hnone, Option.getD_none]

theorem mem_addUse {actor : String} {rule : StopRule} (h : u ∈ addUse actor number rule uses) :
    u.number = number ∨ u ∈ uses := by
  induction uses with
  | nil => exact .inl (by rw [List.mem_singleton.mp h, PhaseUse.number_add])
  | cons first rest ih =>
    simp only [addUse] at h
    split at h
    · next heq =>
      rcases List.mem_cons.mp h with rfl | h
      · exact .inl (by rw [PhaseUse.number_add, heq])
      · exact .inr (List.mem_cons_of_mem _ h)
    · split at h
      · rcases List.mem_cons.mp h with rfl | h
        · exact .inl (PhaseUse.number_add _ _ _)
        · exact .inr h
      · rcases List.mem_cons.mp h with rfl | h
        · exact .inr List.mem_cons_self
        · exact (ih h).imp id (List.mem_cons_of_mem _)

theorem Ascends.addUse (h : Ascends uses) (actor : String) (number : ℕ) (rule : StopRule) :
    Ascends (addUse actor number rule uses) := by
  induction uses with
  | nil => exact List.pairwise_singleton _ _
  | cons first rest ih =>
    obtain ⟨hfirst, hrest⟩ := List.pairwise_cons.mp h
    simp only [Stage.addUse]
    split
    · refine List.pairwise_cons.mpr ⟨fun u hu => ?_, hrest⟩
      rw [PhaseUse.number_add]
      exact hfirst u hu
    · split
      · next hlt =>
        refine List.pairwise_cons.mpr ⟨fun u hu => ?_, h⟩
        rw [PhaseUse.number_add]
        rcases List.mem_cons.mp hu with rfl | hu
        · exact hlt
        · exact hlt.trans (hfirst u hu)
      · next hne hge =>
        refine List.pairwise_cons.mpr ⟨fun u hu => ?_, ih hrest⟩
        rcases mem_addUse hu with hnumber | hu
        · omega
        · exact hfirst u hu

/-- A scene counts in its own phase and in no other. -/
theorem useOf_addUse (h : Ascends uses) (actor : String) (number : ℕ) (rule : StopRule) (other : ℕ) :
    useOf (addUse actor number rule uses) other =
      if number = other then (useOf uses other).add actor rule else useOf uses other := by
  induction uses with
  | nil =>
    rw [addUse, useOf_cons, PhaseUse.number_add]
    by_cases hother : number = other <;> simp [hother, useOf]
  | cons first rest ih =>
    obtain ⟨hfirst, hrest⟩ := List.pairwise_cons.mp h
    simp only [addUse]
    split
    · next heq =>
      rw [useOf_cons, useOf_cons, PhaseUse.number_add, ← heq]
      by_cases hother : number = other <;> simp [hother]
    · split
      · next hlt =>
        rw [useOf_cons, PhaseUse.number_add]
        by_cases hother : number = other
        · have hnone : useOf (first :: rest) other = { number := other } := useOf_eq_default fun u hu => by
            rcases List.mem_cons.mp hu with rfl | hu
            · omega
            · have := hfirst u hu
              omega
          simp [hother, hnone]
        · simp [hother]
      · next hne _ =>
        rw [useOf_cons, useOf_cons, ih hrest]
        by_cases hother : number = other
        · have hne' : first.number ≠ other := fun heq => hne (hother.trans heq.symm)
          simp [hne', hother]
        · simp [hother]

/-- Scenes with the names of their roles, taken in one after another. -/
def takeIn (uses : List PhaseUse) (parts : List (String × Scene)) : List PhaseUse :=
  parts.foldl (fun uses part => addUse part.1 part.2.number part.2.rule uses) uses

theorem Ascends.takeIn (h : Ascends uses) (parts : List (String × Scene)) : Ascends (takeIn uses parts) := by
  induction parts generalizing uses with
  | nil => exact h
  | cons part rest ih => exact ih (h.addUse _ _ _)

theorem useOf_takeIn (h : Ascends uses) (parts : List (String × Scene)) (number : ℕ) :
    useOf (takeIn uses parts) number =
      (useOf uses number).addAll (parts.filter fun part => part.2.number = number) := by
  induction parts generalizing uses with
  | nil => rfl
  | cons part rest ih =>
    change useOf (takeIn (addUse part.1 part.2.number part.2.rule uses) rest) number = _
    rw [ih (h.addUse _ _ _), useOf_addUse h]
    by_cases hnumber : part.2.number = number <;> simp [hnumber, PhaseUse.addAll]

/-! ## The use of all phases -/

/-- The scenes of the roles with threads, with the names of the roles. -/
def parts (roles : List Role) : List (String × Scene) :=
  (roles.filter fun r => 0 < r.threads).flatMap fun r => r.scenes.map fun scene => (r.name, scene)

theorem phaseUses_eq (roles : List Role) : phaseUses roles = takeIn [] (parts roles) := by
  rw [phaseUses, takeIn, parts, List.foldl_flatMap]
  simp only [List.foldl_map]

theorem ascends_phaseUses (roles : List Role) : Ascends (phaseUses roles) := by
  rw [phaseUses_eq]
  exact Ascends.takeIn .nil _

theorem useOf_phaseUses (roles : List Role) (number : ℕ) :
    useOf (phaseUses roles) number =
      PhaseUse.addAll { number } ((parts roles).filter fun part => part.2.number = number) := by
  rw [phaseUses_eq, useOf_takeIn .nil]
  rfl

theorem mem_parts {part : String × Scene} :
    part ∈ parts roles ↔ ∃ role ∈ roles, 0 < role.threads ∧ part.2 ∈ role.scenes ∧ part.1 = role.name := by
  simp only [parts, List.mem_flatMap, List.mem_filter, List.mem_map, decide_eq_true_eq]
  constructor
  · rintro ⟨role, ⟨hrole, hthreads⟩, scene, hscene, rfl⟩
    exact ⟨role, hrole, hthreads, hscene, rfl⟩
  · rintro ⟨role, hrole, hthreads, hscene, hname⟩
    exact ⟨role, ⟨hrole, hthreads⟩, part.2, hscene, Prod.ext hname.symm rfl⟩

theorem isBounded_phaseUses (roles : List Role) (number : ℕ) :
    (useOf (phaseUses roles) number).isBounded = true ↔ ∃ role ∈ roles, role.Bounds number := by
  rw [useOf_phaseUses, PhaseUse.isBounded_addAll, Bool.false_or, List.any_eq_true]
  constructor
  · rintro ⟨part, hpart, hbounds⟩
    obtain ⟨hmem, hnumber⟩ := List.mem_filter.mp hpart
    obtain ⟨role, hrole, hthreads, hscene, _⟩ := mem_parts.mp hmem
    have hplays : role.Plays number part.2.rule := ⟨hthreads, part.2, hscene, of_decide_eq_true hnumber, rfl⟩
    refine ⟨role, hrole, ?_⟩
    cases hrule : part.2.rule with
    | iterations count => exact .inl ⟨count, hrule ▸ hplays⟩
    | elapsed limit => exact .inr ⟨limit, hrule ▸ hplays⟩
    | untilPhaseEnd | nothing => simp [hrule, StopRule.bounds] at hbounds
  · rintro ⟨role, hrole, ⟨count, hthreads, scene, hscene, hnumber, hrule⟩ |
      ⟨limit, hthreads, scene, hscene, hnumber, hrule⟩⟩
    all_goals
      refine ⟨(role.name, scene), List.mem_filter.mpr ⟨?_, decide_eq_true hnumber⟩, by rw [hrule]; rfl⟩
      exact mem_parts.mpr ⟨role, hrole, hthreads, hscene, rfl⟩

/-- No phase occurs twice in a role, so a role is named once for each phase. -/
theorem filter_scenes {scenes : List Scene} (h : Role.InOrder scenes) (number : ℕ) (rule : StopRule) (name : String) :
    (((scenes.map fun scene => (name, scene)).filter fun part => part.2.number = number).filter
      fun part => part.2.rule = rule).map Prod.fst =
      if ∃ scene ∈ scenes, scene.number = number ∧ scene.rule = rule then [name] else [] := by
  induction scenes with
  | nil => simp
  | cons scene rest ih =>
    obtain ⟨hscene, hrest⟩ := List.pairwise_cons.mp h
    rw [List.map_cons]
    by_cases hnumber : scene.number = number
    · have hnone : ∀ scene' ∈ rest, scene'.number ≠ number := fun scene' hscene' heq => by
        have := hscene scene' hscene'
        omega
      have hempty : ((rest.map fun scene => (name, scene)).filter fun part => part.2.number = number) = [] := by
        simpa [List.filter_eq_nil_iff] using hnone
      have hother : ¬∃ scene' ∈ rest, scene'.number = number ∧ scene'.rule = rule := by
        rintro ⟨scene', hscene', heq, _⟩
        exact hnone scene' hscene' heq
      by_cases hrule : scene.rule = rule <;> simp [hnumber, hempty, hrule, hother]
    · rw [List.filter_cons_of_neg (by simpa using hnumber), ih hrest]
      simp [hnumber]

theorem unbounded_phaseUses (horder : ∀ role ∈ roles, Role.InOrder role.scenes) (number : ℕ) :
    (useOf (phaseUses roles) number).unbounded = untilEnd roles number := by
  rw [useOf_phaseUses, PhaseUse.unbounded_addAll, List.nil_append, parts]
  induction roles with
  | nil => rfl
  | cons role rest ih =>
    obtain ⟨hrole, hrest⟩ := List.forall_mem_cons.mp horder
    have ih := ih hrest
    by_cases hthreads : 0 < role.threads
    · have hone := filter_scenes hrole number .untilPhaseEnd role.name
      rw [List.filter_cons_of_pos (by simpa using hthreads), List.flatMap_cons, List.filter_append, List.filter_append,
        List.map_append, ih, hone]
      by_cases hplays : ∃ scene ∈ role.scenes, scene.number = number ∧ scene.rule = .untilPhaseEnd
      · rw [if_pos hplays, untilEnd, untilEnd, List.filter_cons_of_pos (by simpa using ⟨hthreads, hplays⟩)]
        rfl
      · have hnot : ¬role.Plays number .untilPhaseEnd := fun h => hplays h.2
        rw [if_neg hplays, untilEnd, untilEnd, List.filter_cons_of_neg (by simpa using hnot)]
        rfl
    · have hnot : ¬role.Plays number .untilPhaseEnd := fun h => hthreads h.1
      rw [List.filter_cons_of_neg (by simpa using hthreads), ih, untilEnd, untilEnd,
        List.filter_cons_of_neg (by simpa using hnot)]

theorem untilEnd_ne_nil (roles : List Role) (number : ℕ) :
    untilEnd roles number ≠ [] ↔ ∃ role ∈ roles, role.Plays number .untilPhaseEnd := by
  simp [untilEnd, List.filter_eq_nil_iff]

theorem isOpen_phaseUses (horder : ∀ role ∈ roles, Role.InOrder role.scenes) (number : ℕ) :
    (useOf (phaseUses roles) number).isOpen = true ↔ LeftOpen roles number := by
  have hbounded := isBounded_phaseUses roles number
  have hentered := untilEnd_ne_nil roles number
  rw [PhaseUse.isOpen, unbounded_phaseUses horder, Bool.and_eq_true, Bool.not_eq_true', List.isEmpty_eq_false_iff,
    hentered, Bool.not_eq_true', ← Bool.not_eq_true, hbounded]
  exact ⟨fun h => ⟨h.1, fun role hrole hbounds => h.2 ⟨role, hrole, hbounds⟩⟩,
    fun h => ⟨h.entered, fun ⟨role, hrole, hbounds⟩ => h.unbounded role hrole hbounds⟩⟩

/-! ## The first phase that is left open -/

theorem useOf_of_mem (h : Ascends uses) (hu : u ∈ uses) : useOf uses u.number = u := by
  induction uses with
  | nil => exact absurd hu List.not_mem_nil
  | cons first rest ih =>
    obtain ⟨hfirst, hrest⟩ := List.pairwise_cons.mp h
    rw [useOf_cons]
    rcases List.mem_cons.mp hu with rfl | hu
    · exact if_pos rfl
    · rw [if_neg (hfirst u hu).ne, ih hrest hu]

theorem mem_of_isOpen (h : (useOf uses number).isOpen = true) :
    useOf uses number ∈ uses ∧ (useOf uses number).number = number := by
  cases hfind : uses.find? fun u => u.number = number with
  | none => simp [useOf, hfind, PhaseUse.isOpen] at h
  | some u =>
    rw [useOf, hfind, Option.getD_some]
    exact ⟨List.mem_of_find?_eq_some hfind, by simpa using List.find?_some hfind⟩

theorem find?_isOpen_eq_none (h : Ascends uses) :
    uses.find? PhaseUse.isOpen = none ↔ ∀ number, (useOf uses number).isOpen = false := by
  rw [List.find?_eq_none]
  constructor
  · intro hclosed number
    by_contra hopen
    rw [Bool.not_eq_false] at hopen
    exact hclosed _ (mem_of_isOpen hopen).1 hopen
  · intro hclosed u hu
    have hu' := hclosed u.number
    rw [useOf_of_mem h hu] at hu'
    simp [hu']

theorem find?_isOpen_eq_some (h : Ascends uses) (hfind : uses.find? PhaseUse.isOpen = some u) :
    useOf uses u.number = u ∧ u.isOpen = true ∧ ∀ number < u.number, (useOf uses number).isOpen = false := by
  obtain ⟨hopen, before, after, rfl, hbefore⟩ := List.find?_eq_some_iff_append.mp hfind
  refine ⟨useOf_of_mem h (List.mem_append_right _ List.mem_cons_self), hopen, fun number hlt => ?_⟩
  by_contra hother
  rw [Bool.not_eq_false] at hother
  obtain ⟨hmem, hnumber⟩ := mem_of_isOpen hother
  rcases List.mem_append.mp hmem with hmem | hmem
  · have hclosed := hbefore _ hmem
    rw [hother] at hclosed
    cases hclosed
  · -- All that stand after the first open phase have larger numbers.
    obtain ⟨_, hafter, _⟩ := List.pairwise_append.mp h
    obtain ⟨hlater, _⟩ := List.pairwise_cons.mp hafter
    rcases List.mem_cons.mp hmem with heq | hmem
    · rw [heq] at hnumber
      omega
    · have := hlater _ hmem
      omega

/-- A phase that is left open, while none before it is. -/
structure FirstOpen (roles : List Role) (number : ℕ) : Prop where
  isOpen : LeftOpen roles number
  first : ∀ earlier < number, ¬LeftOpen roles earlier

theorem checkBounds_of_bounded (horder : ∀ role ∈ roles, Role.InOrder role.scenes)
    (h : ∀ number, ¬LeftOpen roles number) :
    checkBounds roles = .ok () := by
  have hnone : (phaseUses roles).find? PhaseUse.isOpen = none := by
    refine (find?_isOpen_eq_none (ascends_phaseUses roles)).mpr fun number => ?_
    rw [← Bool.not_eq_true, isOpen_phaseUses horder]
    exact h number
  rw [checkBounds, hnone]

theorem checkBounds_of_open (horder : ∀ role ∈ roles, Role.InOrder role.scenes) (h : LeftOpen roles number) :
    ∃ first, FirstOpen roles first ∧ checkBounds roles =
      .error (.configuration ("phase-" ++ toString first) (.unboundedPhase first (untilEnd roles first))) := by
  have hascends := ascends_phaseUses roles
  cases hfind : (phaseUses roles).find? PhaseUse.isOpen with
  | none =>
    have hclosed := (find?_isOpen_eq_none hascends).mp hfind number
    rw [(isOpen_phaseUses horder number).mpr h] at hclosed
    cases hclosed
  | some u =>
    obtain ⟨huse, hopen, hfirst⟩ := find?_isOpen_eq_some hascends hfind
    refine ⟨u.number, ⟨?_, fun earlier hlt hleft => ?_⟩, ?_⟩
    · rw [← isOpen_phaseUses horder, huse]
      exact hopen
    · rw [← isOpen_phaseUses horder, hfirst earlier hlt] at hleft
      cases hleft
    · rw [checkBounds, hfind, ← unbounded_phaseUses horder, huse]

theorem FirstOpen.unique {other : ℕ} (h : FirstOpen roles number) (h' : FirstOpen roles other) : number = other := by
  rcases Nat.lt_trichotomy number other with hlt | heq | hlt
  · exact absurd h.isOpen (h'.first number hlt)
  · exact heq
  · exact absurd h'.isOpen (h.first other hlt)

end Stage

namespace Production

open Stage

variable {plan : Plan} {now : ℕ} {s t : Stage} {roles : List Role}

/-- The roles of a plan are checked first, and then the actors are made on the stage that the roles have left. -/
theorem make_eq {α : Type} (cast : Cast α) (hopened : Stage.make plan now = .ok s)
    (hmade : Role.makeAll s plan.entries = (t, .ok roles)) :
    Production.make plan cast now = (checkBounds roles).bind fun _ =>
      (cast.produceAll roles t).2.map fun actors => ⟨(cast.produceAll roles t).1, roles, actors⟩ := by
  simp only [Production.make, hopened, hmade, bind, Except.bind]
  cases checkBounds roles with
  | error f => rfl
  | ok =>
    cases hcast : cast.produceAll roles t with
    | mk stage actors => cases actors <;> rfl

/-- A plan whose roles are made passes if in every phase in which some role with threads goes on until the end there is
a role with threads that ends by itself. If not, it is refused for the first phase that is left open, with the names of
all roles that go on until its end. Whatever the cast would have made of it, nobody has been given a number by then, the
barrier requires no tokens, and no limiter has users. -/
theorem open_phase_refused (hopened : Stage.make plan now = .ok s)
    (hmade : Role.makeAll s plan.entries = (t, .ok roles)) :
    roles.map Role.entry = plan.entries ∧
    (checkBounds roles = .ok () ↔
      ∀ number, (∃ role ∈ roles, role.Plays number .untilPhaseEnd) → ∃ role ∈ roles, role.Bounds number) ∧
    (∀ f, checkBounds roles = .error f ↔ ∃ number, FirstOpen roles number ∧
      f = .configuration ("phase-" ++ toString number) (.unboundedPhase number (untilEnd roles number))) ∧
    (∀ (α : Type) (cast : Cast α),
      (∀ f, checkBounds roles = .error f → Production.make plan cast now = .error f) ∧
      (checkBounds roles = .ok () → Production.make plan cast now =
        (cast.produceAll roles t).2.map fun actors => ⟨(cast.produceAll roles t).1, roles, actors⟩)) ∧
    t.barrier = { maxPhase := plan.lastPhase } ∧ t.nextActor = 0 ∧ ∀ i, t.usersOf i = 0 := by
  obtain ⟨hbarrier, _⟩ := Stage.make_ok hopened
  obtain ⟨hreads, _⟩ := Role.makeAll_ok hmade
  obtain ⟨hadds, _⟩ := Role.adds_makeAll (registers_opened hopened) hmade
  have horder : ∀ role ∈ roles, Role.InOrder role.scenes := fun role hrole => by
    obtain ⟨_, _, hread⟩ := exists_of_forall₂ hreads hrole
    exact hread.order
  have hiff : (∀ number, ¬LeftOpen roles number) ↔
      ∀ number, (∃ role ∈ roles, role.Plays number .untilPhaseEnd) → ∃ role ∈ roles, role.Bounds number := by
    refine forall_congr' fun number => ⟨fun h hentered => ?_, fun h hleft => ?_⟩
    · by_contra hnone
      exact h ⟨hentered, fun role hrole hbounds => hnone ⟨role, hrole, hbounds⟩⟩
    · obtain ⟨role, hrole, hbounds⟩ := h hleft.entered
      exact hleft.unbounded role hrole hbounds
  refine ⟨?_, ?_, fun f => ⟨fun herror => ?_, ?_⟩, fun α cast => ⟨fun f herror => ?_, fun hpass => ?_⟩, ?_, ?_,
    fun i => ?_⟩
  · have hentries : plan.entries.map id = roles.map Role.entry :=
      map_eq_of_forall₂ hreads fun _ _ hread => hread.source.symm
    rw [← hentries, List.map_id]
  · rw [← hiff]
    refine ⟨fun hpass number hleft => ?_, checkBounds_of_bounded horder⟩
    obtain ⟨first, _, herror⟩ := checkBounds_of_open horder hleft
    cases hpass.symm.trans herror
  · by_cases hbounded : ∀ number, ¬LeftOpen roles number
    · cases (checkBounds_of_bounded horder hbounded).symm.trans herror
    · obtain ⟨number, hleft⟩ := not_forall_not.mp hbounded
      obtain ⟨first, hfirst, hrefused⟩ := checkBounds_of_open horder hleft
      exact ⟨first, hfirst, Except.error.inj (herror.symm.trans hrefused)⟩
  · rintro ⟨number, hnumber, rfl⟩
    obtain ⟨first, hfirst, hrefused⟩ := checkBounds_of_open horder hnumber.isOpen
    rw [hrefused, hfirst.unique hnumber]
  · rw [make_eq cast hopened hmade, herror]
    rfl
  · rw [make_eq cast hopened hmade, hpass]
    rfl
  · rw [hadds.barrier, hbarrier, Plan.lastPhase]
    simp only [Nat.add_zero, Nat.zero_max]
  · exact hadds.next.trans (usersOf_opened hopened 0).2
  · rw [hadds.users, (usersOf_opened hopened i).1]
    rfl

/-- Two entries of one name go on until the end of phase 9. One without threads would end by itself there, and another
has nothing to do in it. Phase 4 is bounded, and phase 12 comes later. -/
theorem open_phase_refused_twins :
    let block (number : ℕ) : Block := { phase := some number }
    let plan : Plan := { schema := Plan.currentSchema, extra := [], entries :=
      [⟨some "last", "HelloWorld", ⟨1⟩, [block 12, { block 4 with repeats := some ⟨1⟩ }], []⟩,
        ⟨some "twin", "HelloWorld", ⟨1⟩, [block 9], []⟩,
        ⟨some "idle", "HelloWorld", ⟨0⟩, [{ block 9 with repeats := some ⟨1⟩ }, block 0], []⟩,
        ⟨some "twin", "HelloWorld", ⟨2⟩, [block 9, block 4], []⟩,
        ⟨some "quiet", "HelloWorld", ⟨1⟩, [{ block 9 with nop := some true }], []⟩] }
    ∃ s t roles, Stage.make plan 0 = .ok s ∧ Role.makeAll s plan.entries = (t, .ok roles) ∧
      untilEnd roles 9 = ["twin", "twin"] ∧
      Production.make plan Company.standard 0 =
        .error (.configuration "phase-9" (.unboundedPhase 9 ["twin", "twin"])) := by
  intro block plan
  have hopened : Stage.make plan 0 = .ok { plan, now := 0 } := rfl
  obtain ⟨t, roles, hmade, hnames, hfirst⟩ : ∃ t roles, Role.makeAll { plan, now := 0 } plan.entries = (t, .ok roles) ∧
      untilEnd roles 9 = ["twin", "twin"] ∧
      (phaseUses roles).find? PhaseUse.isOpen = some { number := 9, unbounded := ["twin", "twin"] } :=
    ⟨_, _, rfl, by decide +kernel, by decide +kernel⟩
  have hlocation : "phase-" ++ toString 9 = "phase-9" := by decide
  have hcheck : checkBounds roles = .error (.configuration "phase-9" (.unboundedPhase 9 ["twin", "twin"])) := by
    rw [checkBounds, hfirst, ← hlocation]
  obtain ⟨_, _, _, hcast, _⟩ := open_phase_refused hopened hmade
  exact ⟨_, t, roles, hopened, hmade, hnames, (hcast _ Company.standard).1 _ hcheck⟩

end Production

end PhasedWorkload
