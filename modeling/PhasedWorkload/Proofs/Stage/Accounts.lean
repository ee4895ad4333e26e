import Mathlib.Data.List.MinMax
import PhasedWorkload.Proofs.Stage.Grants
import PhasedWorkload.Proofs.Stage.Greeters

/-! # Everybody is accounted for

While a production is made, actors are given numbers, the barrier is made to require their tokens and to reach the
phases of the plan, and limiters get their users. What each part of the construction adds to these accounts is added
up over the scenes of a role, the threads of an entry and the entries of the plan.
-/
namespace PhasedWorkload

open Participant (slotsOf)

/-- What is added to the accounts of a stage. -/
@[ext]
structure Account where
  /-- of actors, that are given out -/
  numbers : ℕ := 0
  tokens : ℕ := 0
  /-- the phase that is reached -/
  last : ℕ := 0
  users : ℕ → ℕ := 0

def Account.and (a b : Account) : Account where
  numbers := a.numbers + b.numbers
  tokens := a.tokens + b.tokens
  last := max a.last b.last
  users := a.users + b.users

namespace Stage

def usersOf (s : Stage) (i : ℕ) : ℕ := s.limiters[i]?.elim 0 Limiter.users

structure Adds (s t : Stage) (a : Account) : Prop where
  barrier : t.barrier = { s.barrier with
    required := s.barrier.required + a.tokens, maxPhase := max s.barrier.maxPhase a.last }
  next : t.nextActor = s.nextActor + a.numbers
  users : ∀ i, t.usersOf i = s.usersOf i + a.users i
  limiters : s.limiters.length ≤ t.limiters.length

variable {s t u : Stage} {a b : Account} {g : Grant}

theorem Adds.quiet {users : ℕ → ℕ} (hbarrier : t.barrier = s.barrier) (hnext : t.nextActor = s.nextActor)
    (husers : ∀ i, t.usersOf i = s.usersOf i + users i) (hlimiters : s.limiters.length ≤ t.limiters.length) :
    s.Adds t { users } where
  barrier := by rw [hbarrier, Nat.add_zero, Nat.max_zero]
  next := hnext
  users := husers
  limiters := hlimiters

theorem Adds.refl (s : Stage) : s.Adds s {} := .quiet rfl rfl (fun _ => rfl) le_rfl

theorem Adds.trans (h : s.Adds t a) (h' : t.Adds u b) : s.Adds u (a.and b) where
  barrier := by
    rw [h'.barrier, h.barrier]
    simp only [Account.and, Nat.add_assoc, Nat.max_assoc]
  next := by rw [h'.next, h.next, Account.and, Nat.add_assoc]
  users i := by
    rw [h'.users, h.users]
    exact Nat.add_assoc _ _ _
  limiters := h.limiters.trans h'.limiters

theorem usersOf_addUser {id : ℕ} (hid : id < s.limiters.length) (i : ℕ) :
    (s.addUser id).usersOf i = s.usersOf i + if some id = some i then 1 else 0 := by
  simp only [usersOf, addUser, List.getElem?_modify, Option.some.injEq]
  split
  · next heq =>
    obtain rfl := heq
    rw [List.getElem?_eq_getElem hid]
    rfl
  · next hne => simp

/-- A limiter that is given out has no users yet. -/
theorem Grants.adds (h : s.Grants t g) : s.Adds t {} := by
  cases h with
  | known => exact .refl s
  | fresh g l made unused next unknown =>
    refine .quiet rfl rfl ?_ (by simp)
    intro i
    simp only [usersOf, List.getElem?_append]
    split
    · rfl
    · next hge =>
      rw [List.getElem?_eq_none (Nat.le_of_not_lt hge), Option.elim_none]
      cases i - s.limiters.length with
      | zero => simpa using unused
      | succ n => rfl

end Stage

/-! ## Roles -/

namespace Entry

/-- The numbers of the phases of an entry; a block without a number has that of its place. -/
def phases (e : Entry) : List ℕ := e.blocks.zipIdx.map fun b => b.1.phase.getD b.2

def lastPhase (e : Entry) : ℕ := e.phases.foldr max 0

end Entry

def Plan.lastPhase (plan : Plan) : ℕ := (plan.entries.map Entry.lastPhase).foldr max 0

namespace Role

variable {s t : Stage} {entry : Entry} {before scenes : List Scene} {index : ℕ} {blocks : List Block} {role : Role}
  {made : Scene}

/-- How many scenes of a role take tokens of a limiter. -/
def uses (role : Role) (i : ℕ) : ℕ := role.scenes.countP fun scene => scene.limiter = some i

/-- The limiters of scenes are those of a stage. -/
def AreSupplied (s : Stage) (scenes : List Scene) : Prop :=
  ∀ scene ∈ scenes, ∀ id, scene.limiter = some id → id < s.limiters.length

theorem AreSupplied.mono (h : AreSupplied s scenes) (hle : s.limiters.length ≤ t.limiters.length) :
    AreSupplied t scenes :=
  fun scene hscene id hid => Nat.lt_of_lt_of_le (h scene hscene id hid) hle

theorem scene_number {block : Block} (h : scene s entry before index block = .ok (t, made)) :
    made.number = block.phase.getD index := by
  unfold scene at h
  dsimp only at h
  split at h
  · cases h
  · split at h
    · cases h
    · split at h <;> cases h
      rfl

theorem scenesOf_numbers (h : scenesOf entry s before index blocks = (t, .ok scenes)) :
    (scenes.map Scene.number).Perm
      (before.map Scene.number ++ (blocks.zipIdx index).map fun b => b.1.phase.getD b.2) := by
  induction blocks generalizing s before index with
  | nil =>
    cases h
    simp
  | cons block rest ih =>
    simp only [scenesOf] at h
    split at h
    · cases h
    · next s' made hscene =>
      rw [List.zipIdx_cons, List.map_cons, ← scene_number hscene]
      refine (ih h).trans ?_
      exact (((perm_insert made before).map Scene.number).append_right _).trans List.perm_middle.symm

theorem adds_scenesOf (entry : Entry) (s : Stage) (before : List Scene) (index : ℕ) (blocks : List Block) :
    s.Adds (scenesOf entry s before index blocks).1 {} := by
  induction blocks generalizing s before index with
  | nil => exact .refl s
  | cons block rest ih =>
    simp only [scenesOf]
    split
    · exact .refl s
    · next s' made hscene =>
      have hmade : s.Adds s' {} := by
        rcases (scene_grants hscene).2 with ⟨_, rfl⟩ | ⟨g, _, hgrants⟩
        · exact .refl _
        · exact hgrants.adds
      exact hmade.trans (ih _ _ _)

/-- The last scene of a role has the largest number. -/
theorem lastPhase_eq (horder : InOrder scenes) (hnumbers : (scenes.map Scene.number).Perm entry.phases) :
    (scenes.getLast?.map Scene.number).getD 0 = entry.lastPhase := by
  cases hlast : scenes.getLast? with
  | none =>
    rw [List.getLast?_eq_none_iff.mp hlast, List.map_nil] at hnumbers
    rw [Entry.lastPhase, ← hnumbers.nil_eq]
    rfl
  | some latest =>
    rw [Option.map_some, Option.getD_some]
    apply le_antisymm
    · have hmem := List.mem_map_of_mem (f := Scene.number) (List.mem_of_getLast? hlast)
      exact List.le_max_of_le' 0 (hnumbers.mem_iff.mp hmem) le_rfl
    · apply List.max_le_of_forall_le
      intro number hnumber
      obtain ⟨scene, hscene, rfl⟩ := List.mem_map.mp (hnumbers.mem_iff.mpr hnumber)
      exact horder.le_getLast hlast scene hscene

theorem adds_make (h : make s entry = (t, .ok role)) : s.Adds t { last := entry.lastPhase } := by
  have horder := (make_ok h).1.order
  have hadds := adds_scenesOf entry s [] 0 entry.blocks
  unfold make at h
  split at h
  · cases h
  · next s' scenes hscenes =>
    cases h
    rw [hscenes] at hadds
    have hlast := lastPhase_eq horder (scenesOf_numbers hscenes)
    have hreach : s'.Adds ((scenes.getLast?.map Scene.number).elim s' s'.reachPhase) { last := entry.lastPhase } := by
      rw [← hlast]
      cases scenes.getLast? with
      | none => exact .refl s'
      | some latest => exact ⟨rfl, rfl, fun _ => rfl, le_rfl⟩
    have hboth := hadds.trans hreach
    rwa [Account.and, Nat.zero_max] at hboth

theorem areSupplied_make {grants : List Grant} (hs : s.Registers grants) (h : make s entry = (t, .ok role)) :
    AreSupplied t role.scenes := by
  obtain ⟨hsuited, hperm⟩ := make_grants h
  have hregisters := registers_make hs entry
  rw [h] at hregisters
  intro scene hscene id hid
  rw [(hsuited scene hscene).limiter] at hid
  obtain ⟨g, hg, rfl⟩ := Option.map_eq_some_iff.mp hid
  have hgiven := hperm.mem_iff.mp (List.mem_filterMap.mpr ⟨scene, hscene, hg⟩)
  exact hregisters.lt_length (List.mem_append_right _ hgiven)

theorem adds_makeAll {entries : List Entry} {roles : List Role} {grants : List Grant} (hs : s.Registers grants)
    (h : makeAll s entries = (t, .ok roles)) :
    s.Adds t { last := (entries.map Entry.lastPhase).foldr max 0 } ∧ ∀ role ∈ roles, AreSupplied t role.scenes := by
  induction entries generalizing s roles grants with
  | nil =>
    cases h
    exact ⟨.refl _, fun role hrole => absurd hrole List.not_mem_nil⟩
  | cons entry rest ih =>
    simp only [makeAll] at h
    split at h
    · cases h
    · next s' role hmake =>
      split at h
      · cases h
      · next t' roles' hrest =>
        cases h
        have hregisters := registers_make hs entry
        rw [hmake] at hregisters
        obtain ⟨hadds, hsupplied⟩ := ih hregisters hrest
        refine ⟨(adds_make hmake).trans hadds, ?_⟩
        intro role' hrole'
        rcases List.mem_cons.mp hrole' with rfl | hrole'
        · exact (areSupplied_make hs hmake).mono hadds.limiters
        · exact hsupplied role' hrole'

end Role

/-! ## Participants -/

namespace Participant

variable {τ : Type} {s t : Stage} {factory : Scene → Except Fault τ} {scenes : List Scene}

theorem adds_limiter {scene : Scene} (hsupplied : ∀ id, scene.limiter = some id → id < s.limiters.length) :
    s.Adds (scene.limiter.elim s s.addUser) { users := fun i => if scene.limiter = some i then 1 else 0 } := by
  cases hlimiter : scene.limiter with
  | none => exact .quiet rfl rfl (fun i => rfl) le_rfl
  | some id =>
    refine .quiet rfl rfl (Stage.usersOf_addUser (hsupplied id hlimiter)) ?_
    rw [Option.elim_some, Stage.addUser, List.length_modify]

theorem adds_slotsOf {slots : List (ℕ × Slot τ)} (h : slotsOf factory s scenes = (t, .ok slots))
    (hsupplied : Role.AreSupplied s scenes) :
    s.Adds t { users := fun i => scenes.countP fun scene => scene.limiter = some i } := by
  induction scenes generalizing s slots with
  | nil =>
    cases h
    exact .refl _
  | cons scene rest ih =>
    obtain ⟨hscene, hrest⟩ := List.forall_mem_cons.mp hsupplied
    simp only [slotsOf] at h
    split at h
    · cases h
    · split at h
      · cases h
      · next t' more hmore =>
        cases h
        have hlimiter := adds_limiter hscene
        have hboth := hlimiter.trans (ih hmore (Role.AreSupplied.mono hrest hlimiter.limiters))
        refine ⟨hboth.barrier, hboth.next, ?_, hboth.limiters⟩
        intro i
        rw [hboth.users]
        simp only [Account.and, Pi.add_apply, List.countP_cons, decide_eq_true_eq, Nat.add_comm]

theorem adds_addParticipant (h : s.addParticipant = .ok t) : s.Adds t { tokens := 1 } := by
  simp only [Stage.addParticipant, Barrier.addRequired] at h
  split at h <;> cases h
  refine ⟨?_, rfl, fun _ => rfl, le_rfl⟩
  rw [Nat.max_zero]

theorem adds_make {role : Role} {p : Participant τ} (h : make role factory s = (t, .ok p))
    (hsupplied : Role.AreSupplied s role.scenes) : s.Adds t { tokens := 1, users := role.uses } := by
  unfold make at h
  split at h
  · cases h
  · next s' slots hslots =>
    have hadds := adds_slotsOf hslots hsupplied
    split at h
    · cases h
    · next t' hadd =>
      cases h
      exact hadds.trans (adds_addParticipant hadd)

end Participant

/-! ## Actors -/

/-- Every actor that is made has the number that it was given and makes one participant. Its task may need limiters of
its own, which nobody uses. -/
def Producer.Staffs {α : Type} (idOf : α → ℕ) (p : Producer α) : Prop :=
  ∀ role id s t actor, p.construct role id s = (t, .ok actor) → idOf actor = id ∧
    ∃ (τ : Type) (factory : Scene → Except Fault τ) (s' t' : Stage) (made : Participant τ),
      s.Adds s' {} ∧ Participant.make role factory s' = (t', .ok made) ∧ t'.Adds t {}

section Actors

variable {α : Type} {idOf : α → ℕ} {s t : Stage} {producer : Producer α} {role : Role} {roles : List Role}
  {cast : Cast α} {actors : List α} {plan : Plan} {now : ℕ} {p : Production α}

theorem Producer.Staffs.adds {id : ℕ} {actor : α} (hstaffs : producer.Staffs idOf)
    (h : producer.construct role id s = (t, .ok actor)) (hsupplied : Role.AreSupplied s role.scenes) :
    idOf actor = id ∧ s.Adds t { tokens := 1, users := role.uses } := by
  obtain ⟨hid, τ, factory, s', t', made, hbefore, hmake, hafter⟩ := hstaffs _ _ _ _ _ h
  have hadds := Participant.adds_make hmake (hsupplied.mono hbefore.limiters)
  exact ⟨hid, by simpa [Account.and] using (hbefore.trans hadds).trans hafter⟩

theorem Producer.Staffs.produce {count : ℕ} (hstaffs : producer.Staffs idOf)
    (h : producer.produce role count s = (t, .ok actors)) (hsupplied : Role.AreSupplied s role.scenes) :
    actors.length = count ∧ actors.map idOf = List.range' s.nextActor count ∧
      s.Adds t { numbers := count, tokens := count, users := fun i => count * role.uses i } := by
  induction count generalizing s actors with
  | zero =>
    cases h
    refine ⟨rfl, rfl, .quiet rfl rfl ?_ le_rfl⟩
    intro i
    rw [Nat.zero_mul, Nat.add_zero]
  | succ count ih =>
    simp only [Producer.produce] at h
    split at h
    · cases h
    · next s' actor hmake =>
      split at h
      · cases h
      · next t' rest hrest =>
        cases h
        have hnumber : s.Adds s.nextActorId.1 { numbers := 1 } := by
          refine ⟨?_, rfl, fun _ => rfl, le_rfl⟩
          rw [Nat.add_zero, Nat.max_zero]
          rfl
        obtain ⟨hid, hmade⟩ := hstaffs.adds hmake (hsupplied.mono hnumber.limiters)
        have hfirst := hnumber.trans hmade
        obtain ⟨hlength, hids, hadds⟩ := ih hrest (hsupplied.mono hfirst.limiters)
        have hall := hfirst.trans hadds
        refine ⟨by rw [List.length_cons, hlength], ?_, ?_⟩
        · rw [List.map_cons, hid, hids, hfirst.next]
          rfl
        · have hsum : ((Account.and { numbers := 1 } { tokens := 1, users := role.uses }).and
              { numbers := count, tokens := count, users := fun i => count * role.uses i }) =
              { numbers := count + 1, tokens := count + 1, users := fun i => (count + 1) * role.uses i } := by
            ext i
            · exact Nat.add_comm 1 count
            · exact Nat.add_comm 1 count
            · rfl
            · simp only [Account.and, Pi.add_apply, Pi.zero_apply, Nat.zero_add, Nat.succ_mul, Nat.add_comm]
          exact hsum ▸ hall

/-- What the actors of some roles add. -/
def Role.account (roles : List Role) : Account where
  numbers := (roles.map Role.threads).sum
  tokens := (roles.map Role.threads).sum
  users i := (roles.map fun role => role.threads * role.uses i).sum

theorem Cast.produceAll_adds {actors : List (String × α)}
    (hcast : ∀ role ∈ roles, ∀ producer, cast.get role.type = .ok producer → producer.Staffs idOf)
    (hsupplied : ∀ role ∈ roles, Role.AreSupplied s role.scenes) (h : cast.produceAll roles s = (t, .ok actors)) :
    actors.map Prod.fst = roles.flatMap (fun role => List.replicate role.threads role.name) ∧
      actors.map (fun x => idOf x.2) = List.range' s.nextActor (roles.map Role.threads).sum ∧
      s.Adds t (Role.account roles) := by
  induction roles generalizing s actors with
  | nil =>
    cases h
    exact ⟨rfl, rfl, .refl _⟩
  | cons role rest ih =>
    obtain ⟨hrole, hrest⟩ := List.forall_mem_cons.mp hcast
    obtain ⟨hscenes, hsupplied⟩ := List.forall_mem_cons.mp hsupplied
    simp only [Cast.produceAll, Cast.produce] at h
    cases hget : cast.get role.type with
    | error f => simp [hget] at h
    | ok producer =>
      simp only [hget] at h
      split at h
      · cases h
      · next s' made hmade =>
        split at h
        · cases h
        · next t' more hmore =>
          cases h
          obtain ⟨hlength, hids, hadds⟩ := (hrole producer hget).produce hmade hscenes
          obtain ⟨hnames, hnumbers, hmore⟩ :=
            ih hrest (fun role hrole => (hsupplied role hrole).mono hadds.limiters) hmore
          refine ⟨?_, ?_, ?_⟩
          · rw [List.map_append, hnames, List.flatMap_cons, List.map_map, ← hlength]
            exact congrArg (· ++ _) List.map_const'
          · rw [List.map_append, hnumbers, List.map_map, hadds.next, List.map_cons, List.sum_cons,
              ← List.range'_append_1]
            exact congrArg (· ++ _) hids
          · have hboth := hadds.trans hmore
            exact hboth

theorem Stage.usersOf_opened (h : Stage.make plan now = .ok s) (i : ℕ) : s.usersOf i = 0 ∧ s.nextActor = 0 := by
  unfold Stage.make at h
  split at h <;> cases h
  exact ⟨rfl, rfl⟩

/-- When a production is made, with one participant for every actor, there are as many actors as the entries have
threads together, and the barrier requires as many tokens. The actors stand in the order of the entries and have the
numbers from 0 on in this order. The run will reach the largest phase of the entries, whether they have threads or not,
and has not started. A limiter has as many users as there are threads that take its tokens in some phase, counted once
for each phase. -/
theorem Production.construction_accounts
    (hcast : ∀ entry ∈ plan.entries, ∀ producer, cast.get entry.type = .ok producer → producer.Staffs idOf)
    (h : Production.make plan cast now = .ok p) :
    p.actors.length = plan.threads ∧
    p.stage.barrier = { required := plan.threads, maxPhase := plan.lastPhase } ∧
    (∀ count, p.stage.barrier.addRequired count = .ok { p.stage.barrier with required := plan.threads + count }) ∧
    p.actors.map Prod.fst = plan.entries.flatMap (fun entry => List.replicate entry.threads.value entry.name) ∧
    p.actors.map (fun x => idOf x.2) = List.range plan.threads ∧
    p.stage.nextActorId.2 = plan.threads ∧
    List.Forall₂ (Role.Reads plan plan.lastPhase) plan.entries p.roles ∧
    (∀ role ∈ p.roles, Role.AreSupplied p.stage role.scenes) ∧
    ∀ i l, p.stage.limiters[i]? = some l → l.users = (p.roles.map fun role => role.threads * role.uses i).sum := by
  obtain ⟨s, t, hopen, hmade, hactors⟩ := Production.make_ok h
  obtain ⟨hbarrier, hplan⟩ := Stage.make_ok hopen
  obtain ⟨hreads, _⟩ := Role.makeAll_ok hmade
  obtain ⟨hroles, hsupplied⟩ := Role.adds_makeAll (Stage.registers_opened hopen) hmade
  have hlast : t.barrier = { maxPhase := plan.lastPhase } := by
    rw [hroles.barrier, hbarrier, Plan.lastPhase]
    simp only [Nat.add_zero, Nat.zero_max]
  rw [hplan, hlast] at hreads
  have hentries : plan.entries = p.roles.map Role.entry := by
    rw [← map_eq_of_forall₂ hreads fun _ _ hrole => hrole.source.symm, List.map_id']
  have hproducers : ∀ role ∈ p.roles, ∀ producer, cast.get role.type = .ok producer → producer.Staffs idOf := by
    intro role hrole
    exact hcast role.entry (hentries ▸ List.mem_map_of_mem hrole)
  obtain ⟨hnames, hids, hadds⟩ := Cast.produceAll_adds hproducers hsupplied hactors
  have hthreads : (p.roles.map Role.threads).sum = plan.threads := by
    rw [Plan.threads, hentries, List.map_map]
    rfl
  have hnext : t.nextActor = 0 := hroles.next.trans (Stage.usersOf_opened hopen 0).2
  rw [hnext, hthreads, ← List.range_eq_range'] at hids
  have hfinal : p.stage.barrier = { required := plan.threads, maxPhase := plan.lastPhase } := by
    rw [hadds.barrier, hlast, Role.account, hthreads]
    simp only [Nat.zero_add, Nat.max_zero]
  refine ⟨?_, hfinal, ?_, ?_, hids, ?_, hreads, ?_, ?_⟩
  · have hlength := congrArg List.length hids
    rwa [List.length_map, List.length_range] at hlength
  · intro count
    rw [hfinal]
    rfl
  · rw [hnames, hentries, List.flatMap_map]
    rfl
  · rw [Stage.nextActorId, hadds.next, hnext, Role.account, hthreads, Nat.zero_add]
  · intro role hrole
    exact (hsupplied role hrole).mono hadds.limiters
  · intro i l hl
    have husers := hadds.users i
    rw [hroles.users, (Stage.usersOf_opened hopen i).1, Stage.usersOf, hl, Option.elim_some] at husers
    rw [husers]
    exact Nat.zero_add _

end Actors

theorem Company.staffs_producer (type : String) (task : Scene → Except Fault Task) (pause : TimeSpan)
    (observes : Bool) : (Company.producer type task pause observes).Staffs Actor.id := by
  intro role id s t actor h
  simp only [Company.producer] at h
  cases hmake : Participant.make role task s with
  | mk s' made =>
    cases made with
    | error f => simp [hmake, Except.map] at h
    | ok p =>
      simp only [hmake, Except.map, Prod.mk.injEq, Except.ok.injEq] at h
      obtain ⟨rfl, rfl⟩ := h
      exact ⟨rfl, Task, task, s, s', p, .refl s, hmake, .refl s'⟩

theorem Company.staffs_standard {type : String} {producer : Producer Actor}
    (h : standard.get type = .ok producer) : producer.Staffs Actor.id := by
  have hproducers : standard.producers = [greeter] := rfl
  have hgreeter : producer = greeter := by simpa [hproducers] using Cast.mem_of_get h
  rw [hgreeter]
  exact staffs_producer _ _ _ _

/-- Two entries with threads share a limiter, and the second of them has one of its own; a third has no threads, but
the largest phase. -/
theorem Production.construction_accounts_idle :
    let common : Block := { repeats := some ⟨1⟩, rate := some ⟨5, .ofSeconds 1⟩, limiterName := some "common" }
    let plan : Plan := { schema := Plan.currentSchema, extra := [], entries :=
      [⟨some "first", "HelloWorld", ⟨2⟩, [common, { nop := some true }], []⟩,
        ⟨some "idle", "HelloWorld", ⟨0⟩, [{ common with phase := some 7 }], []⟩,
        ⟨some "second", "HelloWorld", ⟨3⟩, [common, { common with limiterName := none }], []⟩] }
    ∃ p, Production.make plan Company.standard 0 = .ok p ∧ p.stage.barrier = { required := 5, maxPhase := 7 } ∧
      p.actors.map (fun x => (x.1, x.2.id)) =
        [("first", 0), ("first", 1), ("second", 2), ("second", 3), ("second", 4)] ∧
      p.stage.limiters.map Limiter.users = [5, 3] := by
  intro common plan
  have hmade : ((Production.make plan Company.standard 0).toOption.any fun p =>
      p.stage.limiters.map Limiter.users == [5, 3] &&
        p.actors.map (fun x => (x.1, x.2.id)) ==
          [("first", 0), ("first", 1), ("second", 2), ("second", 3), ("second", 4)]) = true := by decide +kernel
  cases hp : Production.make plan Company.standard 0 with
  | error f => simp [hp, Except.toOption] at hmade
  | ok p =>
    simp only [hp, Except.toOption, Option.any_some, Bool.and_eq_true, beq_iff_eq] at hmade
    obtain ⟨_, hbarrier, _⟩ := construction_accounts (fun _ _ _ hget => Company.staffs_standard hget) hp
    exact ⟨p, rfl, hbarrier, hmade.2, hmade.1⟩

end PhasedWorkload
