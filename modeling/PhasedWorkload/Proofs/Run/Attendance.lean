import Mathlib.Algebra.GroupWithZero.Nat
import PhasedWorkload.Proofs.Run.Outcome

/-! # Who started and who failed

Every thread reports when its actor starts, and when the actor has returned whether it returned without an error. An
actor that panics does not return, so nothing is reported of its end. A thread owes its reports from the step that
settles them to the step that emits them; what has been reported and what is owed make up all threads and all errors.
-/
namespace PhasedWorkload

open Telemetry

variable {τ : Type}

namespace Departure

/-- The actor has returned an error, be it that the run was aborted. -/
def isError : Departure → Bool
  | .stopped | .failed _ => true
  | .finished | .panicked => false

end Departure

namespace Thread.Point

def owedStarts : Point → ℕ
  | .launching => 1
  | _ => 0

def owedLosses : Point → ℕ
  | .recording _ | .failing | .reporting false => 1
  | _ => 0

end Thread.Point

namespace Run

variable {r r' : Run τ} {i : ℕ} {t t' : Thread τ} {move : Move} {new : List Note}

/-- No actor emits an event by which a thread reports that an actor has started or returned. -/
def Action.keepsRoll : Action → Bool
  | .act _ (.act (.emit (.actorStarted ..))) _ | .act _ (.act (.emit (.actorFinished ..))) _ => false
  | _ => true

def starts (r : Run τ) : ℕ := (r.emitted.map fun e => e.isStart.toNat).sum

def losses (r : Run τ) : ℕ := (r.emitted.map fun e => e.isLoss.toNat).sum

def isErrorNote (note : Note) : Bool := note.departure?.any Departure.isError

theorem countP_told (replies : List Participant.Reply) : (replies.map Note.told).countP isErrorNote = 0 := by
  simp [List.countP_eq_zero, isErrorNote, Note.departure?]

theorem starts_emit (r : Run τ) (e : Event) : (r.emit e).starts = r.starts + e.isStart.toNat :=
  List.sum_cons.trans (Nat.add_comm _ _)

theorem losses_emit (r : Run τ) (e : Event) : (r.emit e).losses = r.losses + e.isLoss.toNat :=
  List.sum_cons.trans (Nat.add_comm _ _)

/-- What a step of a thread emits is no longer owed, and an error that it notes is owed from then on. -/
theorem Advances.settles (h : r.Advances i t move r' t' new) {jitter : ℕ}
    (hroll : (Action.act i move jitter).keepsRoll = true) :
    r'.starts + t'.point.owedStarts = r.starts + t.point.owedStarts ∧
      r'.losses + t'.point.owedLosses = r.losses + t.point.owedLosses + new.countP isErrorNote := by
  cases h with
  | rests => exact ⟨rfl, rfl⟩
  | launches point =>
    rw [point]
    exact ⟨starts_emit r _, losses_emit r _⟩
  | affects effect point made =>
    subst made
    cases effect with
    | emit e =>
      have he : e.isStart.toNat = 0 ∧ e.isLoss.toNat = 0 := by
        cases e with
        | actorStarted | actorFinished => cases hroll
        | operationCompleted | operationFailed | runAborted | error => exact ⟨rfl, rfl⟩
      have hstarts : (r.apply (.emit e)).starts = r.starts := (starts_emit r e).trans (by rw [he.1, Nat.add_zero])
      have hlosses : (r.apply (.emit e)).losses = r.losses := (losses_emit r e).trans (by rw [he.2, Nat.add_zero])
      rw [hstarts, hlosses]
      exact ⟨rfl, rfl⟩
    | count | observe => exact ⟨rfl, rfl⟩
  | performs cue next point =>
    rw [countP_told]
    exact ⟨rfl, rfl⟩
  | leaves departure point =>
    rw [point]
    cases departure <;> exact ⟨rfl, rfl⟩
  | records reason point | fails point | unwinds point =>
    rw [point]
    exact ⟨rfl, rfl⟩
  | reports success point =>
    rw [point]
    cases success <;> exact ⟨starts_emit r _, losses_emit r _⟩
  | releases panicked point =>
    rw [point]
    exact ⟨rfl, rfl⟩

/-- The conductor reports no actor and notes no departure. -/
theorem Conducts.settles {past : List (ℕ × Note)} (h : r.Conducts r' past) :
    r'.starts = r.starts ∧ r'.losses = r.losses ∧ past.countP (fun note => isErrorNote note.2) = 0 := by
  cases h with
  | rests _ same => exact same ▸ ⟨rfl, rfl, rfl⟩
  | spawns => exact ⟨rfl, rfl, rfl⟩
  | joins i t panicked joining present point =>
    refine ⟨rfl, rfl, ?_⟩
    cases panicked <;> simp [Thread.epitaph, point, isErrorNote, Note.departure?]
  | concludes i joining all =>
    have hconcludes := r.concludes
    generalize r.conclude = r' at hconcludes
    cases hconcludes with
    | fails | aborts => exact ⟨starts_emit r _, losses_emit r _, rfl⟩
    | succeeds => exact ⟨rfl, rfl, rfl⟩

end Run

namespace Chronicle

open Run (Action)

variable {c : Chronicle τ} {r : Run τ} {i : ℕ} {t t' : Thread τ} {move : Move} {new : List Note}

/-- What has been reported and what is owed make up all threads, and all errors that are noted. -/
structure Accounted (c : Chronicle τ) : Prop where
  starts : c.run.starts + (c.run.threads.map fun t => t.point.owedStarts).sum = c.run.threads.length
  losses : c.run.losses + (c.run.threads.map fun t => t.point.owedLosses).sum =
    c.past.countP fun note => Run.isErrorNote note.2

theorem Accounted.advance (h : c.Accounted) (ht : c.run.threads[i]? = some t)
    (hadv : c.run.Advances i t move r t' new) {jitter : ℕ} (hroll : (Action.act i move jitter).keepsRoll = true) :
    Accounted ⟨r, new.map (i, ·) ++ c.past⟩ := by
  have hthreads := hadv.threads ht
  obtain ⟨hstarts, hlosses⟩ := hadv.settles hroll
  have hallStarts := h.starts
  have hallLosses := h.losses
  constructor
  case starts =>
    have howed := sum_map_set (b := t') (fun t => t.point.owedStarts) ht
    dsimp only
    rw [hthreads, List.length_set]
    omega
  case losses =>
    have howed := sum_map_set (b := t') (fun t => t.point.owedLosses) ht
    have hnew : (new.map (i, ·)).countP (fun note => Run.isErrorNote note.2) = new.countP Run.isErrorNote :=
      List.countP_map
    dsimp only
    rw [hthreads, List.countP_append, hnew]
    omega

theorem Accounted.follow (h : c.Accounted) {a : Action} (hroll : a.keepsRoll = true) : (c.follow a).Accounted := by
  cases a with
  | tick | abort => exact ⟨h.starts, h.losses⟩
  | conduct =>
    obtain ⟨hstarts, hlosses, hnone⟩ := c.run.conducts.settles
    have hthreads := Run.threads_conduct c.run
    refine ⟨?_, ?_⟩
    · rw [Chronicle.follow, hstarts, hthreads]
      exact h.starts
    · rw [Chronicle.follow, hlosses, hthreads, List.countP_append, hnone, Nat.zero_add]
      exact h.losses
  | act i move jitter =>
    simp only [Chronicle.follow]
    split
    · next t ht =>
      split
      · obtain ⟨t', hadv⟩ := Run.advances c.run i t move jitter
        exact h.advance ht hadv hroll
      · exact h
    · exact h

theorem Accounted.after (h : c.Accounted) {actions : List Action} (hroll : ∀ a ∈ actions, a.keepsRoll = true) :
    (c.after actions).Accounted := by
  induction actions generalizing c with
  | nil => exact h
  | cons a actions ih =>
    exact ih (h.follow (hroll a List.mem_cons_self)) fun b hb => hroll b (List.mem_cons_of_mem _ hb)

theorem accounted_start (p : Production Actor) : (start p).Accounted := by
  constructor
  case starts =>
    have howed : (start p).run.threads.map (fun t => t.point.owedStarts) = p.actors.map fun _ => 1 := List.map_map
    rw [howed]
    simp [start, Playing.make, Run.starts]
  case losses =>
    have howed : (start p).run.threads.map (fun t => t.point.owedLosses) = p.actors.map fun _ => 0 := List.map_map
    rw [howed]
    simp [start, Playing.make, Run.losses]

theorem countP_exits (P : Departure → Bool) (c : Chronicle τ) :
    c.exits.countP (fun exit => P exit.2) = c.past.countP fun note => note.2.departure?.any P := by
  rw [exits, List.countP_filterMap, List.countP_reverse]
  refine List.countP_congr fun note _ => ?_
  cases note.2.departure? <;> simp

theorem count_exits (c : Chronicle τ) (i : ℕ) : (c.exits.map Prod.fst).count i = (c.departures i).length := by
  rw [List.count, List.countP_map, exits, List.countP_filterMap, List.countP_reverse, departures, notesOf,
    List.length_filterMap_eq_countP, List.countP_map, List.countP_filter]
  refine List.countP_congr fun note _ => ?_
  cases hleft : note.2.departure? <;> simp [hleft]

theorem owed_of_ended {threads : List (Thread τ)} (h : ∀ t ∈ threads, t.hasEnded = true) :
    (threads.map fun t => t.point.owedStarts).sum = 0 ∧ (threads.map fun t => t.point.owedLosses).sum = 0 := by
  have hnone : ∀ t ∈ threads, t.point.owedStarts = 0 ∧ t.point.owedLosses = 0 := by
    intro t ht
    have hended := h t ht
    unfold Thread.hasEnded at hended
    split at hended
    · next hpoint =>
      rw [hpoint]
      exact ⟨rfl, rfl⟩
    · cases hended
  rw [List.map_congr_left fun t ht => (hnone t ht).1, List.map_congr_left fun t ht => (hnone t ht).2]
  simp

theorem Faithful.exits_perm (h : c.Faithful) {result : Except Fault RunReport}
    (hdone : c.run.conductor = .done result) : (c.exits.map Prod.fst).Perm (List.range c.run.threads.length) := by
  refine List.perm_iff_count.mpr fun i => ?_
  rw [count_exits]
  by_cases hi : i < c.run.threads.length
  · obtain ⟨departure, hleft, _⟩ := h.left_once hdone (List.getElem?_eq_getElem hi)
    rw [hleft, List.count_range, if_pos hi]
    rfl
  · have hnone : c.notesOf i = [] := by
      refine List.eq_nil_iff_forall_not_mem.mpr fun note hnote => ?_
      exact hi (h.members _ (mem_notesOf.mp hnote))
    rw [departures, hnone, List.count_range, if_neg hi]
    rfl

theorem countP_unfinished (exits : List (ℕ × Departure)) :
    exits.countP (fun exit => exit.2.isError) + exits.countP (fun exit => exit.2 == .panicked) =
      exits.countP (fun exit => exit.2 != .finished) := by
  induction exits with
  | nil => rfl
  | cons exit exits ih =>
    have hone : (if exit.2.isError then 1 else 0) + (if exit.2 == .panicked then 1 else 0) =
        if exit.2 != .finished then 1 else 0 := by
      cases exit.2 <;> rfl
    simp only [List.countP_cons]
    omega

/-- Whatever actors do and in whatever order the threads take their steps: the summary of a run that is over counts
every actor as started, and as failed those that have returned an error. A panic is not among them, so whoever has
not returned well is either counted or has panicked. -/
theorem actors_accounted (p : Production Actor) {actions : List Action} (hroll : ∀ a ∈ actions, a.keepsRoll = true) :
    let c := (start p).after actions
    let s := Summary.ofEvents c.run.events
    ∀ result, c.run.result? = some result →
      (c.exits.map Prod.fst).Perm (List.range p.actors.length) ∧
      s.actorsStarted = p.actors.length ∧
      s.actorsFailed = c.exits.countP (fun exit => exit.2.isError) ∧
      s.actorsFailed + c.exits.countP (fun exit => exit.2 == .panicked) =
        c.exits.countP (fun exit => exit.2 != .finished) := by
  intro c s result hresult
  have hdone := Run.conductor_of_result hresult
  have hfaithful : c.Faithful := faithful_after p actions
  have haccounted : c.Accounted := (accounted_start p).after hroll
  have hthreads : c.run.threads.length = p.actors.length := (length_after _ _).trans (List.length_map _)
  obtain ⟨hstarts, hlosses⟩ := owed_of_ended fun t ht => by
    obtain ⟨i, hi⟩ := List.getElem?_of_mem ht
    exact (hfaithful.over hdone hi).1
  obtain ⟨hstarted, hfailed⟩ := Summary.actors_ofEvents c.run.events
  rw [Run.events, List.map_reverse, List.sum_reverse] at hstarted hfailed
  have hallStarted : s.actorsStarted = p.actors.length := by
    rw [← hthreads, ← haccounted.starts, hstarts]
    exact hstarted
  have hallFailed : s.actorsFailed = c.exits.countP (fun exit => exit.2.isError) := by
    rw [countP_exits]
    have hnoted := haccounted.losses
    rw [hlosses] at hnoted
    exact hfailed.trans hnoted
  refine ⟨hthreads ▸ hfaithful.exits_perm hdone, hallStarted, hallFailed, ?_⟩
  rw [hallFailed]
  exact countP_unfinished c.exits

/-- The first actor panics. The second has failed before and goes on to report that, and nobody reports the first. -/
theorem actors_accounted_failing :
    let plan : Plan := { schema := Plan.currentSchema, extra := [], entries :=
      [⟨some "P", "Fails", ⟨1⟩, [{ repeats := some ⟨1⟩, extra := [("Mode", .text "Panic")] }], []⟩,
        ⟨some "E", "Fails", ⟨1⟩, [{ repeats := some ⟨1⟩, extra := [("Mode", .text "Error")] }], []⟩] }
    let reason := "Intentional failure in phase 0"
    let step (i : ℕ) : Action := .act i .askPhase 0
    let item (i : ℕ) : List Action := [.act i .openTurn 0, .act i .askIteration 0, step i, step i, step i]
    let actions : List Action := [.conduct, .conduct, .conduct, step 0, step 0, step 0, step 0, step 1, step 1, step 1,
      step 1] ++ item 1 ++ [.act 1 (.leave (.failed reason)) 0, step 0] ++ item 0 ++ [.act 0 (.leave .panicked) 0,
      step 1, step 1, step 1, step 1, step 0, step 0, .conduct, .conduct, .conduct]
    (∀ a ∈ actions, a.keepsRoll = true) ∧ ∃ p result, Production.make plan Company.full 0 = .ok p ∧
      let c := (start p).after actions
      c.run.result? = some result ∧ c.exits = [(1, .failed reason), (0, .panicked)] ∧
        (Summary.ofEvents c.run.events).actorsStarted = p.actors.length ∧
        (Summary.ofEvents c.run.events).actorsFailed = 1 := by
  intro plan reason step item actions
  have hroll : ∀ a ∈ actions, a.keepsRoll = true := by decide +kernel
  have hrun : ((Production.make plan Company.full 0).toOption.any fun p =>
      let c := (start p).after actions
      c.run.result?.isSome && c.exits == [(1, .failed reason), (0, .panicked)]) = true := by
    decide +kernel
  refine ⟨hroll, ?_⟩
  cases hp : Production.make plan Company.full 0 with
  | error f => simp [hp, Except.toOption] at hrun
  | ok p =>
    simp only [hp, Except.toOption, Option.any_some, Bool.and_eq_true, beq_iff_eq] at hrun
    obtain ⟨hover, hexits⟩ := hrun
    obtain ⟨result, hresult⟩ := Option.isSome_iff_exists.mp hover
    obtain ⟨_, hstarted, hfailed, _⟩ := actors_accounted p hroll result hresult
    refine ⟨p, result, rfl, hresult, hexits, hstarted, ?_⟩
    rw [hfailed, hexits]
    rfl

/-- The only actor panics, and the summary counts no actor as failed. -/
theorem panicked_not_counted :
    let plan : Plan := { schema := Plan.currentSchema, extra := [], entries :=
      [⟨some "P", "Fails", ⟨1⟩, [{ repeats := some ⟨1⟩, extra := [("Mode", .text "Panic")] }], []⟩] }
    let step : Action := .act 0 .askPhase 0
    let item : List Action := [.act 0 .openTurn 0, .act 0 .askIteration 0, step, step, step]
    let actions : List Action := [.conduct, .conduct, step, step, step, step] ++ item ++
      [.act 0 (.leave .panicked) 0, step, step, .conduct, .conduct]
    ∃ p, Production.make plan Company.full 0 = .ok p ∧
      let c := (start p).after actions
      c.run.result? = some (.error (.actorPanicked "P-0")) ∧ c.exits = [(0, .panicked)] ∧
        (Summary.ofEvents c.run.events).actorsFailed ≠ c.exits.countP (fun exit => exit.2 != .finished) := by
  intro plan step item actions
  have hrun : ((Production.make plan Company.full 0).toOption.any fun p =>
      let c := (start p).after actions
      c.run.result? == some (.error (.actorPanicked "P-0")) && c.exits == [(0, .panicked)] &&
        (Summary.ofEvents c.run.events).actorsFailed == 0) = true := by
    decide +kernel
  cases hp : Production.make plan Company.full 0 with
  | error f => simp [hp, Except.toOption] at hrun
  | ok p =>
    simp only [hp, Except.toOption, Option.any_some, Bool.and_eq_true, beq_iff_eq] at hrun
    obtain ⟨⟨hresult, hexits⟩, hnone⟩ := hrun
    refine ⟨p, rfl, hresult, hexits, ?_⟩
    rw [hnone, hexits]
    decide

end Chronicle

end PhasedWorkload
