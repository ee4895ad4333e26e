import PhasedWorkload.Proofs.Run.Script
import PhasedWorkload.Proofs.Stage.Roles

/-! # Greeters

The standard company makes a greeter for every thread of an entry, with a slot for every block: its rule and its
flag are those of the block, and its message is looked up in the block, the entry and the plan. So what the
greeters of a plan do together is a sum over its entries and their blocks.
-/
namespace PhasedWorkload

open Participant (slotsOf)

variable {s t : Stage} {plan : Plan} {entry : Entry} {last : ℕ}

/-! ## What a plan says -/

/-- The number of iterations is given, or there are none. -/
def Block.IsBounded (b : Block) : Prop := b.isNop = true ∨ b.repeats.isSome = true

instance (b : Block) : Decidable b.IsBounded := inferInstanceAs (Decidable (_ ∨ _))

/-- How many iterations a greeter takes in a block; the first may be replaced by a pause. -/
def Block.iterations (b : Block) : ℕ := if b.isNop then 0 else b.repeats.elim 0 Count.value - b.skipFirst.toNat

namespace Plan

def message (plan : Plan) (entry : Entry) (block : Block) : String :=
  (((block.extra.get? "Message").or ((entry.extra.get? "Message").or (plan.extra.get? "Message"))).bind
    Value.text?).getD Company.defaultMessage

def threads (plan : Plan) : ℕ := (plan.entries.map fun e => e.threads.value).sum

/-- The weights of all iterations, which depend on the entry and the block. -/
def total {M : Type} [AddCommMonoid M] (plan : Plan) (weight : Entry → Block → M) : M :=
  (plan.entries.map fun e => e.threads.value • (e.blocks.map fun b => b.iterations • weight e b).sum).sum

def greetings (plan : Plan) : ℕ := plan.total fun _ _ => 1

def greetingsOf (plan : Plan) (name : String) : ℕ := plan.total fun e _ => if e.name = name then 1 else 0

def bytesOf (plan : Plan) (name : String) : ℕ :=
  plan.total fun e b => if e.name = name then (plan.message e b).utf8ByteSize else 0

theorem total_zero {M : Type} [AddCommMonoid M] (plan : Plan) : (plan.total fun _ _ => (0 : M)) = 0 := by
  simp [total]

theorem map_total {M N : Type} [AddCommMonoid M] [AddCommMonoid N] (φ : M →+ N) (plan : Plan)
    (weight : Entry → Block → M) : φ (plan.total weight) = plan.total fun e b => φ (weight e b) := by
  simp [total, map_list_sum, Function.comp_def]

end Plan

/-! ## Slots -/

/-- What the slot of a greeter is read from. -/
structure Slot.Reads (plan : Plan) (entry : Entry) (block : Block) (slot : Slot Task) : Prop where
  config : slot.config = .greet (plan.message entry block)
  rule : StopRule.ofBlock block = .ok slot.rule
  skipFirst : slot.skipFirst = block.skipFirst

theorem Slot.Reads.isBounded {block : Block} {slot : Slot Task} (h : slot.Reads plan entry block)
    (hb : block.IsBounded) : slot.IsBounded ∧ slot.left 0 = block.iterations := by
  have hrule := h.rule
  unfold StopRule.ofBlock StopRule.make at hrule
  dsimp only at hrule
  split at hrule
  · next hnop =>
    cases hr : slot.rule with
    | nothing => exact ⟨.inl hr, by simp [Slot.left, hr, Block.iterations, hnop]⟩
    | iterations | elapsed | untilPhaseEnd => simp [hr] at hrule
  · next hnop =>
    obtain ⟨count, hcount⟩ := Option.isSome_iff_exists.mp (hb.resolve_left hnop)
    rw [hcount] at hrule
    split at hrule
    · cases hrule
    · next heq _ =>
      cases heq
      split at hrule
      · cases hrule
      · have hr : slot.rule = .iterations count.value := by simpa using hrule.symm
        exact ⟨.inr ⟨_, hr⟩, by simp [Slot.left, hr, Block.iterations, hnop, hcount, h.skipFirst]⟩
    · next heq _ => cases heq
    · next heq _ => cases heq

theorem Reader.text_ok {v : Value} {text : String} (h : Reader.text (.ofValue v) = .ok text) : v.text? = some text := by
  cases v with
  | text found =>
    cases h
    rfl
  | null | bool | int | float | list | object => cases h

theorem Company.greetTask_ok {scene : Scene} {task : Task} (hscene : scene.Reads plan entry)
    (h : greetTask scene = .ok task) : task = .greet (plan.message entry scene.block) := by
  have hget : scene.get? "Message" = ((scene.block.extra.get? "Message").or
      ((entry.extra.get? "Message").or (plan.extra.get? "Message"))) := by
    rw [Scene.get?, hscene.entryExtra, hscene.planExtra]
  unfold greetTask Scene.getAs at h
  rw [Plan.message, ← hget]
  cases hv : scene.get? "Message" with
  | none =>
    simp only [hv, Except.map, Except.ok.injEq] at h
    exact h.symm
  | some v =>
    cases htext : Reader.text (.ofValue v) with
    | error f => simp [hv, htext, Except.map] at h
    | ok text =>
      simp only [hv, htext, Except.map, Except.ok.injEq] at h
      rw [← h, Option.bind_some, Reader.text_ok htext, Option.getD_some]

theorem Company.slotsOf_ok {scenes : List Scene} {slots : List (ℕ × Slot Task)}
    (hscenes : ∀ scene ∈ scenes, scene.Reads plan entry) (h : slotsOf greetTask s scenes = (t, .ok slots)) :
    List.Forall₂ (fun scene r => r.1 = scene.number ∧ Slot.Reads plan entry scene.block r.2) scenes slots := by
  induction scenes generalizing s slots with
  | nil =>
    cases h
    exact .nil
  | cons scene rest ih =>
    have hscene := hscenes scene List.mem_cons_self
    simp only [slotsOf] at h
    split at h
    · cases h
    · next config hconfig =>
      split at h
      · cases h
      · next t' more hmore =>
        cases h
        have hslot : Slot.Reads plan entry scene.block ⟨config, scene.rule, scene.limiter, scene.block.skipFirst⟩ :=
          ⟨greetTask_ok hscene hconfig, hscene.rule, rfl⟩
        exact .cons ⟨rfl, hslot⟩ (ih (fun scene hscene => hscenes scene (List.mem_cons_of_mem _ hscene)) hmore)

/-! ## Actors -/

theorem map_eq_of_forall₂ {α β γ : Type} {R : α → β → Prop} {l : List α} {l' : List β} (h : List.Forall₂ R l l')
    {f : α → γ} {g : β → γ} (hfg : ∀ a b, R a b → f a = g b) : l.map f = l'.map g := by
  have heq : List.Forall₂ Eq (l.map f) (l'.map g) :=
    List.forall₂_map_left_iff.mpr (List.forall₂_map_right_iff.mpr (h.imp hfg))
  rwa [List.forall₂_eq_eq_eq] at heq

theorem exists_of_forall₂ {α β : Type} {R : α → β → Prop} {l : List α} {l' : List β} (h : List.Forall₂ R l l') {b : β}
    (hb : b ∈ l') : ∃ a ∈ l, R a b := by
  induction h with
  | nil => cases hb
  | cons hab _ ih =>
    rcases List.mem_cons.mp hb with rfl | hb
    · exact ⟨_, List.mem_cons_self, hab⟩
    · obtain ⟨a, ha, hab⟩ := ih hb
      exact ⟨a, List.mem_cons_of_mem _ ha, hab⟩

/-- What a greeter is made from. -/
structure Actor.Greets (plan : Plan) (last : ℕ) (entry : Entry) (a : Actor) : Prop where
  name : a.name = entry.name
  quiet : a.observes = false
  keys : (a.participant.slots.map Prod.fst).Nodup
  bound : ∀ r ∈ a.participant.slots, r.1 ≤ last
  slots : ∃ blocks, blocks.Perm entry.blocks ∧
    List.Forall₂ (fun b r => Slot.Reads plan entry b r.2) blocks a.participant.slots

theorem Participant.make_slots {role : Role} {factory : Scene → Except Fault Task} {p : Participant Task}
    (h : Participant.make role factory s = (t, .ok p)) :
    ∃ s', slotsOf factory s role.scenes = (s', .ok p.slots) := by
  unfold Participant.make at h
  split at h
  · cases h
  · next s' slots hslots =>
    split at h
    · cases h
    · cases h
      exact ⟨s', hslots⟩

theorem Company.greeter_ok {role : Role} {id : ℕ} {a : Actor} (hrole : role.Reads plan last entry)
    (h : greeter.construct role id s = (t, .ok a)) :
    a.Greets plan last entry ∧ t.barrier.maxPhase = s.barrier.maxPhase := by
  simp only [greeter, producer] at h
  cases hmake : Participant.make role greetTask s with
  | mk s' made =>
    cases made with
    | error f => simp [hmake, Except.map] at h
    | ok p =>
      simp only [hmake, Except.map, Prod.mk.injEq, Except.ok.injEq] at h
      obtain ⟨rfl, rfl⟩ := h
      obtain ⟨_, hslots⟩ := Participant.make_slots hmake
      have hreads := slotsOf_ok hrole.scenes hslots
      have hkeys : role.scenes.map Scene.number = p.slots.map Prod.fst :=
        map_eq_of_forall₂ hreads fun _ _ hslot => hslot.1.symm
      have hscene : ∀ r ∈ p.slots, ∃ scene ∈ role.scenes, r.1 = scene.number := by
        intro r hr
        have hmem : r.1 ∈ role.scenes.map Scene.number := hkeys ▸ List.mem_map_of_mem hr
        obtain ⟨scene, hscene, heq⟩ := List.mem_map.mp hmem
        exact ⟨scene, hscene, heq.symm⟩
      refine ⟨⟨congrArg Entry.name hrole.source, rfl, ?_, ?_, role.scenes.map Scene.block, hrole.blocks, ?_⟩, ?_⟩
      · rw [← hkeys]
        exact List.pairwise_map.mpr (hrole.order.imp fun hlt => hlt.ne)
      · intro r hr
        obtain ⟨scene, hscene, heq⟩ := hscene r hr
        exact heq ▸ hrole.bound scene hscene
      · rw [List.forall₂_map_left_iff]
        exact hreads.imp fun _ _ hslot => hslot.2
      · rw [(Participant.make_ok hmake).1]

theorem Company.produce_ok {role : Role} {count : ℕ} {actors : List Actor} (hrole : role.Reads plan last entry)
    (h : greeter.produce role count s = (t, .ok actors)) :
    actors.length = count ∧ (∀ a ∈ actors, a.Greets plan last entry) ∧ t.barrier.maxPhase = s.barrier.maxPhase := by
  induction count generalizing s actors with
  | zero =>
    cases h
    exact ⟨rfl, by simp, rfl⟩
  | succ count ih =>
    simp only [Producer.produce] at h
    split at h
    · cases h
    · next s' a hmake =>
      split at h
      · cases h
      · next t' rest hrest =>
        cases h
        obtain ⟨hgreets, hmax⟩ := greeter_ok hrole hmake
        obtain ⟨hlength, hall, hmax'⟩ := ih hrest
        exact ⟨by rw [List.length_cons, hlength], List.forall_mem_cons.mpr ⟨hgreets, hall⟩, hmax'.trans hmax⟩

/-- Every entry has a greeter for each of its threads, in order. -/
inductive Plan.Employs (plan : Plan) (last : ℕ) : List Entry → List (String × Actor) → Prop where
  | nobody : Employs plan last [] []
  | group {entry : Entry} {entries : List Entry} {group actors : List (String × Actor)}
    (count : group.length = entry.threads.value)
    (each : ∀ x ∈ group, x.1 = entry.name ∧ x.2.Greets plan last entry)
    (rest : Employs plan last entries actors) : Employs plan last (entry :: entries) (group ++ actors)

theorem Company.produceAll_ok {entries : List Entry} {roles : List Role} {actors : List (String × Actor)}
    (hroles : List.Forall₂ (Role.Reads plan last) entries roles)
    (h : standard.produceAll roles s = (t, .ok actors)) :
    plan.Employs last entries actors ∧ t.barrier.maxPhase = s.barrier.maxPhase := by
  induction hroles generalizing s actors with
  | nil =>
    cases h
    exact ⟨.nobody, rfl⟩
  | @cons entry role _ _ hrole _ ih =>
    simp only [Cast.produceAll] at h
    split at h
    · cases h
    · next s' made hmade =>
      split at h
      · cases h
      · next t' more hmore =>
        cases h
        unfold Cast.produce at hmade
        split at hmade
        · cases hmade
        · next producer hget =>
          have hproducers : standard.producers = [greeter] := rfl
          have hgreeter : producer = greeter := by simpa [hproducers] using Cast.mem_of_get hget
          subst hgreeter
          obtain ⟨hlength, hall, hmax⟩ := produce_ok hrole hmade
          obtain ⟨hrest, hmax'⟩ := ih hmore
          refine ⟨.group ?_ ?_ hrest, hmax'.trans hmax⟩
          · rw [List.length_map, hlength, Role.threads, hrole.source]
          · intro x hx
            obtain ⟨a, ha, rfl⟩ := List.mem_map.mp hx
            exact ⟨congrArg Entry.name hrole.source, hall a ha⟩

/-- The actors of a plan are the greeters of its entries. -/
theorem Company.employs_make {now : ℕ} {p : Production Actor} (h : Production.make plan standard now = .ok p) :
    plan.Employs p.stage.barrier.maxPhase plan.entries p.actors := by
  obtain ⟨s, t, hopen, hmade, hactors⟩ := Production.make_ok h
  obtain ⟨hroles, _⟩ := Role.makeAll_ok hmade
  rw [(Stage.make_ok hopen).2] at hroles
  obtain ⟨hemploys, hmax⟩ := produceAll_ok hroles hactors
  rwa [hmax]

theorem Plan.Employs.exists_entry {entries : List Entry} {actors : List (String × Actor)}
    (h : plan.Employs last entries actors) :
    ∀ x ∈ actors, ∃ entry ∈ entries, x.1 = entry.name ∧ x.2.Greets plan last entry := by
  induction h with
  | nobody => simp
  | group count each rest ih =>
    intro x hx
    rcases List.mem_append.mp hx with hx | hx
    · exact ⟨_, List.mem_cons_self, each x hx⟩
    · obtain ⟨entry, hentry, hx⟩ := ih x hx
      exact ⟨entry, List.mem_cons_of_mem _ hentry, hx⟩

/-- What the actors of an entry have in common is counted once for every thread. -/
theorem Plan.Employs.sum_eq {M : Type} [AddCommMonoid M] {entries : List Entry} {actors : List (String × Actor)}
    (h : plan.Employs last entries actors) {f : Actor → M} {g : Entry → M}
    (hfg : ∀ entry ∈ entries, ∀ a, a.Greets plan last entry → f a = g entry) :
    (actors.map fun x => f x.2).sum = (entries.map fun e => e.threads.value • g e).sum := by
  induction h with
  | nobody => rfl
  | @group entry entries group actors count each rest ih =>
    have hgroup : group.map (fun x => f x.2) = List.replicate entry.threads.value (g entry) := by
      refine List.eq_replicate_iff.mpr ⟨by rw [List.length_map, count], fun y hy => ?_⟩
      obtain ⟨x, hx, rfl⟩ := List.mem_map.mp hy
      exact hfg entry List.mem_cons_self x.2 (each x hx).2
    rw [List.map_append, List.sum_append, hgroup, List.sum_replicate, List.map_cons, List.sum_cons,
      ih fun entry hentry => hfg entry (List.mem_cons_of_mem _ hentry)]

end PhasedWorkload
