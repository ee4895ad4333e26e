import Mathlib.Data.List.Forall2
import Mathlib.Data.Nat.Cast.Basic
import PhasedWorkload.Proofs.Run.Schedules
import PhasedWorkload.Proofs.Stage.Greeters
import PhasedWorkload.Proofs.Telemetry.Rows

/-! # Totals

The totals of a run of greeters whose iterations are given do not depend on its schedule. Whatever is counted in
the log or by the counters is the sum of what the scripts do, and that is read off from the plan.
-/
namespace PhasedWorkload

open Keyed Telemetry

variable {M : Type} [AddCommMonoid M] {plan : Plan} {entry : Entry} {last : ℕ} {a : Actor} {done : List Effect}

/-! ## Weights of effects -/

def weigh (f : Effect → M) (effects : List Effect) : M := (effects.map f).sum

theorem weigh_append (f : Effect → M) (x y : List Effect) : weigh f (x ++ y) = weigh f x + weigh f y := by
  rw [weigh, List.map_append, List.sum_append]
  rfl

theorem weigh_perm (f : Effect → M) {x y : List Effect} (h : x.Perm y) : weigh f x = weigh f y :=
  (h.map f).sum_eq

theorem weigh_flatMap {α : Type} (f : Effect → M) (l : List α) (g : α → List Effect) :
    weigh f (l.flatMap g) = (l.map fun x => weigh f (g x)).sum := by
  induction l with
  | nil => rfl
  | cons x l ih => rw [List.flatMap_cons, weigh_append, ih, List.map_cons, List.sum_cons]

theorem weigh_replicate (f : Effect → M) (n : ℕ) (x : List Effect) :
    weigh f (List.replicate n x).flatten = n • weigh f x := by
  induction n with
  | zero => simp [weigh]
  | succ n ih => rw [List.replicate_succ, List.flatten_cons, weigh_append, ih, succ_nsmul']

/-! ## Scripts of greeters -/

namespace Actor

theorem acts_greet (a : Actor) (message : String) : a.acts (.greet message) =
    [.count greetings 1, .emit (.operationCompleted a.name a.id greetingOperation ⟨1, message.utf8ByteSize, 0⟩)] := by
  simp [acts, perform, Move.effect?, Operation.perform, Operation.start, WorkUnit.addDocuments, WorkUnit.addBytes,
    WorkUnit.finish]

theorem Greets.exists_block (h : a.Greets plan last entry) {phase : ℕ} {s : Slot Task}
    (hs : a.participant.slot? phase = some s) : ∃ b ∈ entry.blocks, s.Reads plan entry b := by
  obtain ⟨blocks, hperm, hslots⟩ := h.slots
  obtain ⟨b, hb, hreads⟩ := exists_of_forall₂ hslots (mem_of_lookup hs)
  exact ⟨b, hperm.mem_iff.mp hb, hreads⟩

theorem Greets.isScripted (h : a.Greets plan last entry) (hblocks : ∀ b ∈ entry.blocks, b.IsBounded) :
    a.IsScripted := by
  refine ⟨h.quiet, fun phase s hs => ?_, fun phase s hs => ?_⟩
  · obtain ⟨b, hb, hreads⟩ := h.exists_block hs
    exact (hreads.isBounded (hblocks b hb)).1
  · obtain ⟨b, _, hreads⟩ := h.exists_block hs
    rw [hreads.config]
    rfl

theorem Greets.weigh_script (h : a.Greets plan last entry) (hblocks : ∀ b ∈ entry.blocks, b.IsBounded)
    (f : Effect → M) : weigh f (a.script last) = f (.emit (.actorStarted a.name a.id)) +
      ((entry.blocks.map fun b => b.iterations • weigh f (a.acts (.greet (plan.message entry b)))).sum +
        f a.finish) := by
  obtain ⟨blocks, hperm, hslots⟩ := h.slots
  have hlater : (a.later last 0).Perm (a.participant.slots.flatMap fun r => a.turnScript r.2 0) := by
    have hrange : a.later last 0 = (List.range (last + 1)).flatMap fun phase =>
        (a.participant.slots.lookup phase).elim [] fun s => a.turnScript s 0 := by
      rw [later, Nat.sub_zero, ← List.range_eq_range']
      rfl
    rw [hrange]
    exact flatMap_range_lookup h.keys (fun r hr => Nat.lt_succ_of_le (h.bound r hr)) _
  have hbounded : List.Forall₂ (fun b r => b.IsBounded ∧ Slot.Reads plan entry b r.2) blocks a.participant.slots :=
    (List.forall₂_and_left _ _).mpr ⟨fun b hb => hblocks b (hperm.mem_iff.mp hb), hslots⟩
  have hturns : blocks.map (fun b => b.iterations • weigh f (a.acts (.greet (plan.message entry b)))) =
      a.participant.slots.map fun r => weigh f (a.turnScript r.2 0) := by
    refine map_eq_of_forall₂ hbounded fun b r hbr => ?_
    obtain ⟨hb, hreads⟩ := hbr
    rw [turnScript, weigh_replicate, (hreads.isBounded hb).2, hreads.config]
  have hsum := (hperm.map fun b => b.iterations • weigh f (a.acts (.greet (plan.message entry b)))).sum_eq
  calc weigh f (a.script last)
      = f (.emit (.actorStarted a.name a.id)) + (weigh f (a.later last 0) + weigh f [a.finish]) := by
        rw [← weigh_append]
        exact List.sum_cons
    _ = f (.emit (.actorStarted a.name a.id)) +
        ((a.participant.slots.map fun r => weigh f (a.turnScript r.2 0)).sum + f a.finish) := by
        rw [weigh_perm f hlater, weigh_flatMap, weigh, List.map_singleton, List.sum_singleton]
    _ = _ := by rw [← hturns, hsum]

end Actor

theorem sum_threads (entries : List Entry) (c : M) (g : Entry → M) :
    (entries.map fun e => e.threads.value • (c + g e)).sum =
      (entries.map fun e => e.threads.value).sum • c + (entries.map fun e => e.threads.value • g e).sum := by
  induction entries with
  | nil => simp
  | cons e entries ih =>
    rw [List.map_cons, List.map_cons, List.map_cons, List.sum_cons, List.sum_cons, List.sum_cons, ih, nsmul_add,
      add_nsmul]
    exact add_add_add_comm _ _ _ _

/-- What is done altogether, where the weights of effects depend on nothing but the entry and the message. -/
theorem Plan.Employs.weigh_done {actors : List (String × Actor)} (h : plan.Employs last plan.entries actors)
    (hblocks : ∀ e ∈ plan.entries, ∀ b ∈ e.blocks, b.IsBounded)
    (hdone : done.Perm (actors.flatMap fun x => x.2.script last)) {f : Effect → M} {start finish : M}
    {weight : Entry → Block → M} (hstart : ∀ name id, f (.emit (.actorStarted name id)) = start)
    (hfinish : ∀ name id, f (.emit (.actorFinished name id true)) = finish)
    (hgreet : ∀ (a : Actor) (e : Entry) (b : Block), a.name = e.name →
      weigh f (a.acts (.greet (plan.message e b))) = weight e b) :
    weigh f done = plan.threads • (start + finish) + plan.total weight := by
  have hscript : ∀ entry ∈ plan.entries, ∀ a : Actor, a.Greets plan last entry → weigh f (a.script last) =
      (start + finish) + (entry.blocks.map fun b => b.iterations • weight entry b).sum := by
    intro entry hentry a ha
    rw [ha.weigh_script (hblocks entry hentry), hstart, Actor.finish, hfinish, add_assoc, add_comm _ finish]
    simp only [hgreet a entry _ ha.name]
  rw [weigh_perm f hdone, weigh_flatMap, h.sum_eq hscript]
  exact sum_threads plan.entries (start + finish) fun e => (e.blocks.map fun b => b.iterations • weight e b).sum

/-! ## The log -/

/-- The weight of the event of an effect. -/
def ofEvent (g : Event → ℕ) (effect : Effect) : ℕ := effect.event?.elim 0 g

theorem Run.Logs.sum_events {τ : Type} {r : Run τ} (h : r.Logs done) (g : Event → ℕ) :
    (r.events.map g).sum = weigh (ofEvent g) done := by
  rw [Run.events, List.map_reverse, List.sum_reverse, h.emitted]
  clear h
  induction done with
  | nil => rfl
  | cons effect done ih =>
    have hcons : weigh (ofEvent g) (effect :: done) = ofEvent g effect + weigh (ofEvent g) done := List.sum_cons
    rw [hcons, ← ih]
    cases effect with
    | emit e => exact List.sum_cons
    | count | observe => exact (Nat.zero_add _).symm

theorem weigh_greet (f : Effect → M) (a : Actor) (message : String) : weigh f (a.acts (.greet message)) =
    f (.count Actor.greetings 1) + f (.emit (.operationCompleted a.name a.id Actor.greetingOperation
      ⟨1, message.utf8ByteSize, 0⟩)) := by
  rw [a.acts_greet, weigh, List.map_cons, List.map_cons, List.sum_cons, List.sum_cons]
  simp

/-- What is counted in a log of greeters is what the plan says, by what is counted of a start, an end and a
greeting. -/
def Run.Reckons {τ : Type} (r : Run τ) (plan : Plan) : Prop :=
  ∀ (g : Event → ℕ) (start finish : ℕ) (weight : Entry → Block → ℕ),
    (∀ name id, g (.actorStarted name id) = start) → (∀ name id, g (.actorFinished name id true) = finish) →
    (∀ e b id, g (.operationCompleted e.name id Actor.greetingOperation ⟨1, (plan.message e b).utf8ByteSize, 0⟩) =
      weight e b) → (r.events.map g).sum = plan.threads * (start + finish) + plan.total weight

theorem Run.Logs.reckons {τ : Type} {r : Run τ} (h : r.Logs done) {actors : List (String × Actor)}
    (hemploys : plan.Employs last plan.entries actors) (hblocks : ∀ e ∈ plan.entries, ∀ b ∈ e.blocks, b.IsBounded)
    (hdone : done.Perm (actors.flatMap fun x => x.2.script last)) : r.Reckons plan := by
  intro g start finish weight hstart hfinish hgreet
  rw [h.sum_events]
  refine hemploys.weigh_done hblocks hdone hstart hfinish fun a e b hname => ?_
  rw [weigh_greet, hname]
  exact (Nat.zero_add _).trans (hgreet e b a.id)

theorem Run.Logs.greetings {τ : Type} {r : Run τ} (h : r.Logs done) {actors : List (String × Actor)}
    (hemploys : plan.Employs last plan.entries actors) (hblocks : ∀ e ∈ plan.entries, ∀ b ∈ e.blocks, b.IsBounded)
    (hdone : done.Perm (actors.flatMap fun x => x.2.script last)) :
    r.counters.get Actor.greetings = plan.greetings := by
  have hsum : weigh (Effect.amount Actor.greetings) done = plan.threads • (0 + 0) + plan.total fun _ _ => 1 := by
    refine hemploys.weigh_done hblocks hdone (fun _ _ => rfl) (fun _ _ => rfl) fun a e b _ => ?_
    rw [weigh_greet]
    rfl
  have hcast : ((plan.greetings : ℕ) : ℤ) = plan.total fun _ _ => 1 :=
    plan.map_total (Nat.castAddMonoidHom ℤ) fun _ _ => 1
  rw [add_zero, nsmul_zero, zero_add] at hsum
  rw [hcast, ← hsum]
  exact h.counters Actor.greetings

/-! ## The summary -/

theorem key_eq_iff {name name' operation : String} :
    Summary.key name operation = Summary.key name' operation ↔ name = name' := by
  rw [Summary.key, Summary.key, String.append_left_inj, String.append_left_inj]

namespace Run.Reckons

variable {τ : Type} {r : Run τ}

theorem actors (h : r.Reckons plan) : (Summary.ofEvents r.events).actorsStarted = plan.threads ∧
    (Summary.ofEvents r.events).actorsFailed = 0 := by
  obtain ⟨hstarted, hfailed⟩ := Summary.actors_ofEvents r.events
  have hone := h (fun e => e.isStart.toNat) 1 0 (fun _ _ => 0) (fun _ _ => rfl) (fun _ _ => rfl) fun _ _ _ => rfl
  have hnone := h (fun e => e.isLoss.toNat) 0 0 (fun _ _ => 0) (fun _ _ => rfl) (fun _ _ => rfl) fun _ _ _ => rfl
  rw [plan.total_zero] at hone hnone
  rw [hstarted, hfailed, hone, hnone]
  exact ⟨Nat.mul_one plan.threads, rfl⟩

/-- What the operations under a key add up to, by the bytes of a greeting. -/
theorem operations (h : r.Reckons plan) (k : String) {g : Event → ℕ} (weight : ℕ → ℕ)
    (hg : ∀ name id bytes, g (.operationCompleted name id Actor.greetingOperation ⟨1, bytes, 0⟩) = weight bytes) :
    ((r.events.filter fun e => e.rowKey? = some k).map g).sum = plan.total fun e b =>
      if Summary.key e.name Actor.greetingOperation = k then weight (plan.message e b).utf8ByteSize else 0 := by
  have hsum := h (fun e => if e.rowKey? = some k then g e else 0) 0 0 (fun e b =>
      if Summary.key e.name Actor.greetingOperation = k then weight (plan.message e b).utf8ByteSize else 0)
    (fun _ _ => rfl) (fun _ _ => rfl) fun e b id => by simp only [Event.rowKey?, Option.some.injEq, hg]
  rwa [Nat.add_zero, Nat.mul_zero, Nat.zero_add, ← Summary.sum_operations] at hsum

theorem row (h : r.Reckons plan) (name : String) :
    let row := (Summary.ofEvents r.events).row (Summary.key name Actor.greetingOperation)
    row.completed = plan.greetingsOf name ∧ row.failed = 0 ∧ row.measure.documents = plan.greetingsOf name ∧
      row.measure.bytes = plan.bytesOf name := by
  intro row
  have hrow : row = .ofOperations _ := Summary.row_ofEvents r.events _
  have hcompleted := h.operations (Summary.key name Actor.greetingOperation) (g := fun e => (!e.hasFailed).toNat)
    (fun _ => 1) fun _ _ _ => rfl
  have hfailed := h.operations (Summary.key name Actor.greetingOperation) (g := fun e => e.hasFailed.toNat)
    (fun _ => 0) fun _ _ _ => rfl
  have hdocuments := h.operations (Summary.key name Actor.greetingOperation) (g := fun e => e.measured.documents)
    (fun _ => 1) fun _ _ _ => rfl
  have hbytes := h.operations (Summary.key name Actor.greetingOperation) (g := fun e => e.measured.bytes) id
    fun _ _ _ => rfl
  simp only [key_eq_iff, ite_self, plan.total_zero] at hcompleted hfailed hdocuments hbytes
  rw [hrow]
  exact ⟨hcompleted, hfailed, hdocuments, hbytes⟩

end Run.Reckons

namespace Playing

variable {now : ℕ} {p : Production Actor}

/-- What has been done when a run of greeters is over. -/
theorem greetings_done (h : Production.make plan Company.standard now = .ok p)
    (hblocks : ∀ e ∈ plan.entries, ∀ b ∈ e.blocks, b.IsBounded) (actions : List Action)
    {result : Except Fault RunReport} (hresult : ((make p).after actions).run.result? = some result) :
    result = .ok ⟨plan.threads, phases plan.threads p.stage.barrier.maxPhase⟩ ∧
      ∃ done, ((make p).after actions).run.Logs done ∧
        done.Perm (p.actors.flatMap fun x => x.2.script p.stage.barrier.maxPhase) := by
  have hemploys := Company.employs_make h
  have henlisted : p.stage.Enlisted (p.actors.map fun a => a.2.participant) := by
    refine Stage.enlisted_make (fun role _ producer hget => ?_) h
    have hproducers : Company.standard.producers = [Company.greeter] := rfl
    have hgreeter : producer = Company.greeter := by simpa [hproducers] using Cast.mem_of_get hget
    rw [hgreeter]
    exact Company.engages_producer _ _ _ _
  have hnames : ∀ x ∈ p.actors, x.1 = x.2.name := by
    intro x hx
    obtain ⟨e, _, hname, hgreets⟩ := hemploys.exists_entry x hx
    exact hname.trans hgreets.name.symm
  have hscripted : ∀ x ∈ p.actors, x.2.IsScripted := by
    intro x hx
    obtain ⟨e, he, _, hgreets⟩ := hemploys.exists_entry x hx
    exact hgreets.isScripted (hblocks e he)
  have hthreads : p.actors.length = plan.threads := by
    have hsum := hemploys.sum_eq (f := fun _ => 1) (g := fun _ => 1) fun _ _ _ _ => rfl
    simpa [Plan.threads] using hsum
  have hdone := script_done henlisted hnames hscripted actions hresult
  rwa [hthreads] at hdone

end Playing

end PhasedWorkload
