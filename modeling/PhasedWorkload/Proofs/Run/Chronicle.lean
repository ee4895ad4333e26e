import PhasedWorkload.Proofs.Cells
import PhasedWorkload.Proofs.Run.Stall

/-! # Chronicles of runs

A chronicle notes of a run what every actor is told when it asks for a phase, how it leaves, and which failures
are recorded. A thread's own notes are always the replies that its actor got, then its departure, then the record
of its failure, if it is one. An actor that fails records that itself before it aborts the run; for one that
panics the conductor does when it joins the thread, and it joins the threads in their order. What a run reports is
the failure that was recorded first, which need not be the one that happened first.
-/
namespace PhasedWorkload

open Barrier
open Participant (Reply)

variable {τ : Type}

inductive Note where
  | told (reply : Reply)
  | left (departure : Departure)
  | recorded (fault : Fault)
deriving DecidableEq, Repr

namespace Note

def departure? : Note → Option Departure
  | .left departure => some departure
  | _ => none

def fault? : Note → Option Fault
  | .recorded fault => some fault
  | _ => none

end Note

namespace Thread

/-- What a run reports of an actor that leaves like this. -/
def fault? (t : Thread τ) : Departure → Option Fault
  | .finished | .stopped => none
  | .failed reason => some (.actorFailed t.name reason)
  | .panicked => some (.actorPanicked t.title)

/-- What is noted of a step of a thread, in which its actor makes a move or gets a report. -/
def notes (t : Thread τ) (move : Move) (report : Option Report) : List Note :=
  match t.point with
  | .working =>
    match t.isDeciding, move with
    | true, .leave departure => [.left departure]
    | _, _ => (Troupe.replyIn report).map .told
  | .recording reason => [.recorded (.actorFailed t.name reason)]
  | _ => []

/-- What is noted when a thread is joined: that its actor has panicked, if it has. -/
def epitaph (t : Thread τ) : List Note :=
  match t.point with
  | .ended true => [.recorded (.actorPanicked t.title)]
  | _ => []

end Thread

/-- What is noted of a step of the conductor. -/
def Run.notes (r : Run τ) : List (ℕ × Note) :=
  match r.conductor with
  | .joining i => (r.threads[i]?.elim [] Thread.epitaph).map (i, ·)
  | _ => []

structure Chronicle (τ : Type) where
  run : Run τ
  /-- All notes with the threads that they are about, the latest first. -/
  past : List (ℕ × Note) := []

namespace Chronicle

open Run (Action)

/-- Follows an action. A thread that is not spawned yet does nothing; else its actor may make any move. -/
def follow (c : Chronicle τ) : Action → Chronicle τ
  | .conduct => ⟨c.run.conduct, c.run.notes ++ c.past⟩
  | .act i move jitter =>
    match c.run.threads[i]? with
    | some t =>
      if c.run.isSpawned i then
        let next := c.run.step i t move jitter
        ⟨next.1, (t.notes move next.2).map (i, ·) ++ c.past⟩
      else c
    | none => c
  | .tick nanos => { c with run.world.now := c.run.world.now + nanos }
  | .abort => { c with run := c.run.setBarrier c.run.world.barrier.abort }

def after (c : Chronicle τ) (actions : List Action) : Chronicle τ := actions.foldl follow c

def notesOf (c : Chronicle τ) (i : ℕ) : List Note := (c.past.filter (·.1 = i)).map Prod.snd

/-- The failures that are recorded with their threads, in order. -/
def records (c : Chronicle τ) : List (ℕ × Fault) :=
  c.past.reverse.filterMap fun note => note.2.fault?.map (note.1, ·)

def faultsOf (c : Chronicle τ) (i : ℕ) : List Fault := (c.notesOf i).filterMap Note.fault?

end Chronicle

/-! ## Steps of threads -/

namespace Run

variable {r r' : Run τ} {i : ℕ} {t t' : Thread τ} {move : Move} {new : List Note}

/-- What a step of a thread does: to the run, to the thread, and what is noted of it. -/
inductive Advances (r : Run τ) (i : ℕ) (t : Thread τ) (move : Move) : Run τ → Thread τ → List Note → Prop where
  | rests (panicked : Bool) (point : t.point = .ended panicked) : Advances r i t move r t []
  | launches (point : t.point = .launching) :
    Advances r i t move ((r.emit (.actorStarted t.name t.id)).setThread i { t with point := .working })
      { t with point := .working } []
  | affects (effect : Effect) (point : t.point = .working) (made : move = .act effect) :
    Advances r i t move (r.apply effect) t []
  | performs (cue : Cue) (next : World × Performer τ × Option Report) (point : t.point = .working)
    (follows : t.performer.follow r.world cue = next) :
    Advances r i t move ({ r with world := next.1 }.setThread i { t with performer := next.2.1 })
      { t with performer := next.2.1 } ((Troupe.replyIn next.2.2).map .told)
  | leaves (departure : Departure) (point : t.point = .working) (made : move = .leave departure) :
    Advances r i t move (r.setThread i { t with point := departurePoint departure })
      { t with point := departurePoint departure } [.left departure]
  | records (reason : String) (point : t.point = .recording reason) :
    Advances r i t move ((r.recordFailure (.actorFailed t.name reason)).setThread i { t with point := .failing })
      { t with point := .failing } [.recorded (.actorFailed t.name reason)]
  | fails (point : t.point = .failing) :
    Advances r i t move ((r.setBarrier r.world.barrier.abort).setThread i { t with point := .reporting false })
      { t with point := .reporting false } []
  | unwinds (point : t.point = .unwinding) :
    Advances r i t move ((r.setBarrier r.world.barrier.abort).setThread i { t with point := .releasing true })
      { t with point := .releasing true } []
  | reports (success : Bool) (point : t.point = .reporting success) :
    Advances r i t move ((r.emit (.actorFinished t.name t.id success)).setThread i { t with point := .releasing false })
      { t with point := .releasing false } []
  | releases (panicked : Bool) (point : t.point = .releasing panicked) :
    Advances r i t move ((r.setBarrier (t.performer.participant.release r.world.barrier)).setThread i
      { t with point := .ended panicked }) { t with point := .ended panicked } []

theorem advances_move (hwork : t.point = .working) (hdeciding : t.isDeciding = true) (move : Move) :
    ∃ t', Advances r i t move (r.move i t move).1 t' (t.notes move (r.move i t move).2) := by
  have hrest := Thread.resting_of_isDeciding hdeciding
  cases move with
  | leave departure =>
    have hnotes : ∀ report, t.notes (.leave departure) report = [.left departure] := by
      simp [Thread.notes, hwork, hdeciding]
    rw [hnotes]
    exact ⟨_, .leaves departure hwork rfl⟩
  | act effect =>
    have hnotes : t.notes (.act effect) none = [] := by simp [Thread.notes, hwork, hdeciding, Troupe.replyIn]
    have hreport : (r.move i t (.act effect)).2 = none := rfl
    rw [hreport, hnotes]
    exact ⟨t, .affects effect hwork rfl⟩
  | openTurn =>
    have hnotes : t.notes .openTurn none = [] := by simp [Thread.notes, hwork, hdeciding, Troupe.replyIn]
    have hreport : (r.move i t .openTurn).2 = none := rfl
    rw [hreport, hnotes]
    exact ⟨_, .performs .openTurn (r.world, t.performer.openTurn r.world.now, none) hwork (if_pos hrest)⟩
  | askPhase =>
    have hnotes : ∀ report, t.notes .askPhase report = (Troupe.replyIn report).map .told := by
      simp [Thread.notes, hwork, hdeciding]
    rw [hnotes]
    exact ⟨_, .performs .askPhase (r.world, t.performer.askPhase) hwork (if_pos hrest)⟩
  | askIteration =>
    have hnotes : ∀ report, t.notes .askIteration report = (Troupe.replyIn report).map .told := by
      simp [Thread.notes, hwork, hdeciding]
    rw [hnotes]
    exact ⟨_, .performs .askIteration (r.world, t.performer.askIteration) hwork (if_pos hrest)⟩

theorem advances (r : Run τ) (i : ℕ) (t : Thread τ) (move : Move) (jitter : ℕ) :
    ∃ t', Advances r i t move (r.step i t move jitter).1 t' (t.notes move (r.step i t move jitter).2) := by
  cases hpoint : t.point with
  | working =>
    cases hdeciding : t.isDeciding with
    | true =>
      have hstep : r.step i t move jitter = r.move i t move := by simp [Run.step, hpoint, hdeciding]
      rw [hstep]
      exact advances_move hpoint hdeciding move
    | false =>
      have hnotes : ∀ report, t.notes move report = (Troupe.replyIn report).map .told := by
        simp [Thread.notes, hpoint, hdeciding]
      have hstep : r.step i t move jitter =
          ({ r with world := (t.performer.follow r.world (.goOn jitter)).1 }.setThread i
            { t with performer := (t.performer.follow r.world (.goOn jitter)).2.1 },
            (t.performer.follow r.world (.goOn jitter)).2.2) := by
        simp [Run.step, hpoint, hdeciding, Performer.follow]
      rw [hnotes, hstep]
      exact ⟨_, .performs (.goOn jitter) _ hpoint rfl⟩
  | launching =>
    simp only [Run.step, Thread.notes, hpoint]
    exact ⟨_, .launches hpoint⟩
  | recording reason =>
    simp only [Run.step, Thread.notes, hpoint]
    exact ⟨_, .records reason hpoint⟩
  | failing =>
    simp only [Run.step, Thread.notes, hpoint]
    exact ⟨_, .fails hpoint⟩
  | reporting success =>
    simp only [Run.step, Thread.notes, hpoint]
    exact ⟨_, .reports success hpoint⟩
  | unwinding =>
    simp only [Run.step, Thread.notes, hpoint]
    exact ⟨_, .unwinds hpoint⟩
  | releasing panicked =>
    simp only [Run.step, Thread.notes, hpoint]
    exact ⟨_, .releases panicked hpoint⟩
  | ended panicked =>
    simp only [Run.step, Thread.notes, hpoint]
    exact ⟨_, .rests panicked hpoint⟩

theorem Advances.threads (h : r.Advances i t move r' t' new) (hi : r.threads[i]? = some t) :
    r'.threads = r.threads.set i t' := by
  obtain ⟨hlt, hget⟩ := List.getElem?_eq_some_iff.mp hi
  have hsame : r.threads.set i t = r.threads := by rw [← hget, List.set_getElem_self]
  cases h with
  | rests => exact hsame.symm
  | affects effect => cases effect <;> exact hsame.symm
  | launches | performs | leaves | records | fails | unwinds | reports | releases => rfl

theorem Advances.conductor (h : r.Advances i t move r' t' new) : r'.conductor = r.conductor := by
  cases h with
  | affects effect => cases effect <;> rfl
  | rests | launches | performs | leaves | records | fails | unwinds | reports | releases => rfl

theorem Advances.failure (h : r.Advances i t move r' t' new) :
    r'.failure = r.failure.or (new.reverse.filterMap Note.fault?).head? := by
  have hquiet : r.failure = r.failure.or none := (Option.or_none).symm
  cases h with
  | affects effect => cases effect <;> exact hquiet
  | records reason => rfl
  | performs cue next =>
    have hreplies : ((Troupe.replyIn next.2.2).map Note.told).reverse.filterMap Note.fault? = [] := by
      simp [← List.map_reverse, List.filterMap_map, Function.comp_def, Note.fault?]
    rw [hreplies]
    exact hquiet
  | rests | launches | leaves | fails | unwinds | reports | releases => exact hquiet

theorem Advances.of_ended (h : r.Advances i t move r' t' new) {panicked : Bool} (hended : t.point = .ended panicked) :
    r' = r ∧ new = [] := by
  cases h with
  | rests => exact ⟨rfl, rfl⟩
  | launches point | affects _ point | performs _ _ point | leaves _ point | records _ point | fails point
  | unwinds point | reports _ point | releases _ point => cases point.symm.trans hended

/-- A thread records no panic. -/
theorem Advances.recorded (h : r.Advances i t move r' t' new) :
    ∀ fault ∈ new.filterMap Note.fault?, ∃ actor reason, fault = .actorFailed actor reason := by
  cases h with
  | records reason => simp [Note.fault?]
  | performs cue next =>
    have hreplies : ((Troupe.replyIn next.2.2).map Note.told).filterMap Note.fault? = [] := by
      simp [List.filterMap_map, Function.comp_def, Note.fault?]
    simp [hreplies]
  | rests | affects | launches | leaves | fails | unwinds | reports | releases => simp [Note.fault?]

/-- What the conductor says in the end. -/
inductive Concludes (r : Run τ) : Run τ → Prop where
  | fails (f : Fault) (failed : r.failure = some f) :
    Concludes r { r.emit (.runAborted f.message) with conductor := .done (.error f) }
  | aborts (failed : r.failure = none) (aborted : r.world.barrier.publishedAbort = true) :
    Concludes r { r.emit (.runAborted "aborted") with conductor := .done (.error .aborted) }
  | succeeds (failed : r.failure = none) (aborted : r.world.barrier.publishedAbort = false) :
    Concludes r { r with conductor := .done (.ok ⟨r.threads.length, r.world.barrier.publishedPhase⟩) }

theorem concludes (r : Run τ) : r.Concludes r.conclude := by
  unfold conclude
  split
  · next f hf => exact .fails f hf
  · next hf =>
    split
    · next haborted => exact .aborts hf haborted
    · next haborted => exact .succeeds hf (Bool.not_eq_true _ ▸ haborted)

/-- A result is the failure that the run knows; if it knows none, nothing but an abort went wrong. -/
def Answers (r : Run τ) (result : Except Fault RunReport) : Prop :=
  (∀ f, r.failure = some f → result = .error f) ∧ (r.failure = none → ∀ f, result = .error f → f = .aborted)

theorem Concludes.answers (h : r.Concludes r') :
    r'.threads = r.threads ∧ r'.failure = r.failure ∧ ∃ result, r'.conductor = .done result ∧ r'.Answers result := by
  cases h with
  | fails f failed =>
    refine ⟨rfl, rfl, _, rfl, ?_, ?_⟩
    · intro g hg
      rw [Option.some.inj (failed.symm.trans hg)]
    · intro hnone
      cases failed.symm.trans hnone
  | aborts failed =>
    refine ⟨rfl, rfl, _, rfl, ?_, ?_⟩
    · intro g hg
      cases failed.symm.trans hg
    · rintro _ f hf
      cases hf
      rfl
  | succeeds failed =>
    refine ⟨rfl, rfl, _, rfl, ?_, fun _ => nofun⟩
    intro g hg
    cases failed.symm.trans hg

/-- A run whose conductor has joined a thread. -/
def join (r : Run τ) (i : ℕ) (t : Thread τ) : Run τ :=
  { r with conductor := .joining (i + 1), failure := r.failure.or (t.epitaph.filterMap Note.fault?).head? }

theorem conduct_eq_join {panicked : Bool} (hjoining : r.conductor = .joining i) (hi : r.threads[i]? = some t)
    (point : t.point = .ended panicked) : r.conduct = r.join i t := by
  have hnone : r.failure.or none = r.failure := Option.or_none
  cases panicked <;> simp [conduct, join, Thread.epitaph, recordFailure, Note.fault?, hjoining, hi, point, hnone]

/-- What a step of the conductor does, and what is noted of it. -/
inductive Conducts (r : Run τ) : Run τ → List (ℕ × Note) → Prop where
  | rests (r' : Run τ) (same : r' = r) : Conducts r r' []
  | spawns (count : ℕ) (conductor : Conductor) (spawning : r.conductor = .spawning count)
    (next : conductor = .spawning (count + 1) ∨ conductor = .joining 0) : Conducts r { r with conductor } []
  | joins (i : ℕ) (t : Thread τ) (panicked : Bool) (joining : r.conductor = .joining i)
    (present : r.threads[i]? = some t) (point : t.point = .ended panicked) :
    Conducts r (r.join i t) (t.epitaph.map (i, ·))
  | concludes (i : ℕ) (joining : r.conductor = .joining i) (all : r.threads.length ≤ i) :
    Conducts r r.conclude []

theorem conducts (r : Run τ) : r.Conducts r.conduct r.notes := by
  cases hconductor : r.conductor with
  | spawning count =>
    simp only [conduct, notes, hconductor]
    refine .spawns count _ hconductor ?_
    split
    · exact .inl rfl
    · exact .inr rfl
  | joining i =>
    simp only [notes, hconductor]
    cases hi : r.threads[i]? with
    | none => simpa [conduct, hconductor, hi] using Conducts.concludes i hconductor (List.getElem?_eq_none_iff.mp hi)
    | some t =>
      cases hpoint : t.point with
      | ended panicked =>
        rw [conduct_eq_join hconductor hi hpoint]
        exact .joins i t panicked hconductor hi hpoint
      | _ => simpa [conduct, Thread.epitaph, hconductor, hi, hpoint] using Conducts.rests r rfl
  | done result =>
    simp only [conduct, notes, hconductor]
    exact .rests r rfl

end Run

/-! ## The course of a thread -/

namespace Thread

variable {t t' : Thread τ} {joined recorded : Bool} {departure : Option Departure} {replies : List Reply}

/-- How far a thread has come: whether the conductor has joined it, how its actor has left, and whether what that
has to be recorded for is recorded. -/
def Course (t : Thread τ) (joined : Bool) (departure : Option Departure) (recorded : Bool) : Prop :=
  match t.point with
  | .launching | .working => joined = false ∧ departure = none ∧ recorded = false
  | .recording reason => joined = false ∧ departure = some (.failed reason) ∧ recorded = false
  | .failing => joined = false ∧ (∃ reason, departure = some (.failed reason)) ∧ recorded = true
  | .unwinding => joined = false ∧ departure = some .panicked ∧ recorded = false
  | .reporting _ => joined = false ∧ (∃ d, departure = some d ∧ d ≠ .panicked) ∧ recorded = true
  | .releasing panicked =>
    joined = false ∧ (∃ d, departure = some d ∧ (d = .panicked ↔ panicked = true)) ∧ recorded = !panicked
  | .ended panicked => (∃ d, departure = some d ∧ (d = .panicked ↔ panicked = true)) ∧ recorded = (!panicked || joined)

/-- The notes about a thread, the latest first: its failure, its departure, and the replies that its actor got. -/
def log (t : Thread τ) (departure : Option Departure) (recorded : Bool) (replies : List Reply) : List Note :=
  (if recorded then (departure.bind t.fault?).toList.map .recorded else []) ++
    (departure.toList.map .left ++ replies.map .told)

theorem mem_log_left {d : Departure} : .left d ∈ t.log departure recorded replies ↔ departure = some d := by
  cases recorded <;> simp [log, Option.mem_toList, eq_comm]

theorem Course.advances {r r' : Run τ} {i : ℕ} {move : Move} {new : List Note} (h : t.Course joined departure recorded)
    (hadv : r.Advances i t move r' t' new) (replies : List Reply) :
    ∃ departure' recorded' replies', t'.Course joined departure' recorded' ∧
      new ++ t.log departure recorded replies = t'.log departure' recorded' replies' := by
  cases hadv with
  | rests => exact ⟨departure, recorded, replies, h, rfl⟩
  | launches point =>
    simp only [Course, point] at h
    exact ⟨departure, recorded, replies, h, rfl⟩
  | affects effect point => exact ⟨departure, recorded, replies, h, rfl⟩
  | performs cue next point =>
    simp only [Course, point] at h
    obtain ⟨rfl, rfl, rfl⟩ := h
    refine ⟨none, false, (Troupe.replyIn next.2.2) ++ replies, by simp [Course, point], by simp [log]⟩
  | leaves d point =>
    simp only [Course, point] at h
    obtain ⟨rfl, rfl, rfl⟩ := h
    cases d with
    | finished => exact ⟨some .finished, true, replies, ⟨rfl, ⟨_, rfl, nofun⟩, rfl⟩, rfl⟩
    | stopped => exact ⟨some .stopped, true, replies, ⟨rfl, ⟨_, rfl, nofun⟩, rfl⟩, rfl⟩
    | failed reason => exact ⟨some (.failed reason), false, replies, ⟨rfl, rfl, rfl⟩, rfl⟩
    | panicked => exact ⟨some .panicked, false, replies, ⟨rfl, rfl, rfl⟩, rfl⟩
  | records reason point =>
    simp only [Course, point] at h
    obtain ⟨rfl, rfl, rfl⟩ := h
    exact ⟨some (.failed reason), true, replies, ⟨rfl, ⟨reason, rfl⟩, rfl⟩, rfl⟩
  | fails point =>
    simp only [Course, point] at h
    obtain ⟨rfl, ⟨reason, rfl⟩, rfl⟩ := h
    exact ⟨some (.failed reason), true, replies, ⟨rfl, ⟨_, rfl, nofun⟩, rfl⟩, rfl⟩
  | unwinds point =>
    simp only [Course, point] at h
    obtain ⟨rfl, rfl, rfl⟩ := h
    exact ⟨some .panicked, false, replies, ⟨rfl, ⟨_, rfl, by simp⟩, rfl⟩, rfl⟩
  | reports success point =>
    simp only [Course, point] at h
    obtain ⟨rfl, ⟨d, rfl, hd⟩, rfl⟩ := h
    exact ⟨some d, true, replies, ⟨rfl, ⟨d, rfl, by simp [hd]⟩, rfl⟩, rfl⟩
  | releases panicked point =>
    simp only [Course, point] at h
    obtain ⟨rfl, hd, rfl⟩ := h
    exact ⟨departure, !panicked, replies, ⟨hd, by simp⟩, rfl⟩

theorem Course.join {panicked : Bool} (h : t.Course false departure recorded) (point : t.point = .ended panicked)
    (replies : List Reply) :
    t.Course true departure true ∧
      t.epitaph ++ t.log departure recorded replies = t.log departure true replies := by
  simp only [Course, epitaph, point] at h ⊢
  obtain ⟨⟨d, rfl, hd⟩, rfl⟩ := h
  refine ⟨⟨⟨d, rfl, hd⟩, by simp⟩, ?_⟩
  cases panicked with
  | false => rfl
  | true =>
    obtain rfl := hd.mpr rfl
    rfl

theorem Course.ended (h : t.Course true departure recorded) :
    recorded = true ∧ ∃ d panicked, departure = some d ∧ t.point = .ended panicked := by
  unfold Course at h
  split at h
  case h_8 panicked point =>
    obtain ⟨⟨d, hd, _⟩, hrecorded⟩ := h
    exact ⟨by simpa using hrecorded, d, panicked, hd, point⟩
  all_goals cases h.1

end Thread

/-! ## Runs -/

namespace Run

def joined (r : Run τ) : ℕ :=
  match r.conductor with
  | .spawning _ => 0
  | .joining i => i
  | .done _ => r.threads.length

theorem conductor_of_result {r : Run τ} {result : Except Fault RunReport} (h : r.result? = some result) :
    r.conductor = .done result := by
  unfold result? at h
  split at h
  · next hconductor => rw [hconductor, Option.some.inj h]
  · cases h

end Run

namespace Chronicle

open Run (Action)

variable {c : Chronicle τ} {r : Run τ} {i j : ℕ} {t : Thread τ}

theorem notesOf_append (new : List Note) (i j : ℕ) :
    notesOf ⟨r, new.map (i, ·) ++ c.past⟩ j = if j = i then new ++ c.notesOf i else c.notesOf j := by
  unfold notesOf
  by_cases hj : j = i
  · subst hj
    simp [List.filter_append, List.filter_map, Function.comp_def]
  · simp [List.filter_append, List.filter_map, Function.comp_def, hj, Ne.symm hj]

theorem records_append (new : List Note) (i : ℕ) :
    records ⟨r, new.map (i, ·) ++ c.past⟩ = c.records ++ (new.reverse.filterMap Note.fault?).map (i, ·) := by
  simp only [records, List.reverse_append, List.filterMap_append, ← List.map_reverse, List.filterMap_map,
    List.map_filterMap]
  rfl

theorem mem_records {f : Fault} : (i, f) ∈ c.records ↔ f ∈ c.faultsOf i := by
  simp only [records, faultsOf, notesOf, List.mem_filterMap, List.mem_reverse, List.mem_map, List.mem_filter,
    Option.map_eq_some_iff, Prod.mk.injEq, decide_eq_true_eq]
  constructor
  · rintro ⟨note, hnote, g, hg, rfl, rfl⟩
    exact ⟨note.2, ⟨note, ⟨hnote, rfl⟩, rfl⟩, hg⟩
  · rintro ⟨_, ⟨note, ⟨hnote, hi⟩, rfl⟩, hg⟩
    exact ⟨note, hnote, f, hg, hi, rfl⟩

theorem mem_notesOf {note : Note} : note ∈ c.notesOf i ↔ (i, note) ∈ c.past := by
  simp [notesOf]

def panics (c : Chronicle τ) : List ℕ :=
  (c.records.filter fun record => record.2 matches .actorPanicked _).map Prod.fst

theorem panics_append (new : List Note) (i : ℕ) :
    panics ⟨r, new.map (i, ·) ++ c.past⟩ =
      c.panics ++ ((new.reverse.filterMap Note.fault?).filter (· matches .actorPanicked _)).map fun _ => i := by
  simp [panics, records_append, List.filter_map, Function.comp_def]

/-- The notes say how far every thread has come, and the first record is the failure that the run knows. -/
structure Faithful (c : Chronicle τ) : Prop where
  course : ∀ i t, c.run.threads[i]? = some t → ∃ departure recorded replies,
    t.Course (i < c.run.joined) departure recorded ∧ c.notesOf i = t.log departure recorded replies
  failure : c.run.failure = c.records.head?.map Prod.snd
  joined : c.run.joined ≤ c.run.threads.length
  members : ∀ note ∈ c.past, note.1 < c.run.threads.length
  panics : c.panics.Pairwise (· < ·)
  mourned : ∀ i ∈ c.panics, i < c.run.joined
  spared : ∀ i actor, c.records.head? = some (i, .actorPanicked actor) → ∀ j < i, c.faultsOf j = []
  concluded : ∀ result, c.run.conductor = .done result → c.run.Answers result

theorem faithful_start (r : Run τ) (hthreads : ∀ t ∈ r.threads, t.point = .launching)
    (hconductor : r.conductor = .spawning 0) (hfailure : r.failure = none) : Faithful ⟨r, []⟩ where
  course i t ht := by
    refine ⟨none, false, [], ?_, rfl⟩
    simp [Thread.Course, hthreads t (List.mem_of_getElem? ht), Run.joined, hconductor]
  failure := hfailure
  joined := by simp [Run.joined, hconductor]
  members note hnote := by cases hnote
  panics := .nil
  mourned i hi := by cases hi
  spared i actor hhead := by cases hhead
  concluded result hresult := by cases hconductor.symm.trans hresult

/-- Nothing happens that is noted. -/
theorem Faithful.keeps (h : c.Faithful) (hthreads : r.threads = c.run.threads)
    (hfailure : r.failure = c.run.failure) (hjoined : r.joined = c.run.joined)
    (hconcluded : ∀ result, r.conductor = .done result → r.Answers result) : Faithful ⟨r, c.past⟩ where
  course i t ht := by
    rw [hjoined]
    exact h.course i t (hthreads ▸ ht)
  failure := hfailure.trans h.failure
  joined := by
    rw [hjoined, hthreads]
    exact h.joined
  members := hthreads ▸ h.members
  panics := h.panics
  mourned i hi := by
    rw [hjoined]
    exact h.mourned i hi
  spared := h.spared
  concluded := hconcluded

theorem Faithful.congr (h : c.Faithful) (hthreads : r.threads = c.run.threads)
    (hconductor : r.conductor = c.run.conductor) (hfailure : r.failure = c.run.failure) : Faithful ⟨r, c.past⟩ := by
  refine h.keeps hthreads hfailure (by simp only [Run.joined, hconductor, hthreads]) ?_
  intro result hresult
  have hanswers := h.concluded result (hconductor ▸ hresult)
  rwa [Run.Answers, hfailure]

theorem Faithful.failure_append (h : c.Faithful) {new : List Note}
    (hfailure : r.failure = c.run.failure.or (new.reverse.filterMap Note.fault?).head?) :
    r.failure = (records ⟨r, new.map (i, ·) ++ c.past⟩).head?.map Prod.snd := by
  rw [hfailure, records_append, h.failure, List.head?_append, Option.map_or, List.head?_map, Option.map_map]
  simp [Function.comp_def]

theorem Faithful.members_append (h : c.Faithful) {new : List Note} (hi : i < c.run.threads.length)
    (hlength : r.threads.length = c.run.threads.length) :
    ∀ note ∈ new.map (i, ·) ++ c.past, note.1 < r.threads.length := by
  intro note hnote
  rw [hlength]
  rcases List.mem_append.mp hnote with hnote | hnote
  · obtain ⟨_, _, rfl⟩ := List.mem_map.mp hnote
    exact hi
  · exact h.members note hnote

/-- If the first record is a panic, nothing is recorded of a thread before that: the conductor has joined those
already, so nothing more is noted of them. -/
theorem Faithful.spared_append (h : c.Faithful) {new : List Note} (hnew : i < c.run.joined → new = []) :
    ∀ k actor, (records ⟨r, new.map (i, ·) ++ c.past⟩).head? = some (k, .actorPanicked actor) →
      ∀ j < k, faultsOf ⟨r, new.map (i, ·) ++ c.past⟩ j = [] := by
  intro k actor hhead j hj
  rw [records_append, List.head?_append] at hhead
  rw [faultsOf, notesOf_append]
  cases hrecords : c.records with
  | nil =>
    -- This is the first record of all, so there is none of another thread.
    rw [hrecords, List.head?_nil, Option.none_or, List.head?_map] at hhead
    obtain ⟨_, _, hk⟩ := Option.map_eq_some_iff.mp hhead
    obtain rfl : i = k := congrArg Prod.fst hk
    rw [if_neg hj.ne]
    refine List.eq_nil_iff_forall_not_mem.mpr fun f hf => ?_
    have hmem := mem_records.mpr hf
    rw [hrecords] at hmem
    cases hmem
  | cons record records =>
    rw [hrecords, List.head?_cons, Option.some_or] at hhead
    obtain rfl := Option.some.inj hhead
    have hpanic : k ∈ c.panics := by simp [Chronicle.panics, hrecords]
    have hspared := h.spared k actor (by rw [hrecords]; rfl) j hj
    split
    · next hji =>
      rw [hnew (hji ▸ hj.trans (h.mourned k hpanic)), ← hji]
      exact hspared
    · exact hspared

theorem Faithful.ended (h : c.Faithful) (hi : c.run.threads[i]? = some t) (hjoined : i < c.run.joined) :
    ∃ panicked, t.point = .ended panicked := by
  obtain ⟨departure, recorded, replies, hcourse, _⟩ := h.course i t hi
  rw [decide_eq_true hjoined] at hcourse
  obtain ⟨_, _, panicked, _, hpoint⟩ := hcourse.ended
  exact ⟨panicked, hpoint⟩

theorem Faithful.advance (h : c.Faithful) (hi : c.run.threads[i]? = some t) {t' : Thread τ} {move : Move}
    {new : List Note} (hadv : c.run.Advances i t move r t' new) : Faithful ⟨r, new.map (i, ·) ++ c.past⟩ := by
  have hthreads := hadv.threads hi
  have hlength : r.threads.length = c.run.threads.length := by rw [hthreads, List.length_set]
  have hlt : i < c.run.threads.length := (List.getElem?_eq_some_iff.mp hi).1
  have hjoined : r.joined = c.run.joined := by simp only [Run.joined, hadv.conductor, hlength]
  have hrests : i < c.run.joined → r = c.run ∧ new = [] := by
    intro hbefore
    obtain ⟨panicked, hpoint⟩ := h.ended hi hbefore
    exact hadv.of_ended hpoint
  have hpanics : Chronicle.panics ⟨r, new.map (i, ·) ++ c.past⟩ = c.panics := by
    have hnone : (new.reverse.filterMap Note.fault?).filter (· matches .actorPanicked _) = [] := by
      refine List.filter_eq_nil_iff.mpr fun fault hfault => ?_
      rw [List.filterMap_reverse, List.mem_reverse] at hfault
      obtain ⟨actor, reason, rfl⟩ := hadv.recorded fault hfault
      exact Bool.false_ne_true
    rw [panics_append, hnone, List.map_nil, List.append_nil]
  constructor
  case course =>
    intro j u hu
    rw [hjoined, notesOf_append]
    rcases getElem?_set_cases (hthreads ▸ hu) with ⟨rfl, rfl⟩ | ⟨hj, hu⟩
    · obtain ⟨departure, recorded, replies, hcourse, hlog⟩ := h.course j t hi
      obtain ⟨departure', recorded', replies', hcourse', hlog'⟩ := hcourse.advances hadv replies
      exact ⟨departure', recorded', replies', hcourse', by rw [if_pos rfl, hlog, hlog']⟩
    · rw [if_neg hj]
      exact h.course j u hu
  case failure => exact h.failure_append hadv.failure
  case joined =>
    rw [hjoined, hlength]
    exact h.joined
  case members => exact h.members_append hlt hlength
  case panics =>
    rw [hpanics]
    exact h.panics
  case mourned =>
    rw [hpanics, hjoined]
    exact h.mourned
  case spared => exact h.spared_append fun hbefore => (hrests hbefore).2
  case concluded =>
    intro result hresult
    have hconductor : c.run.conductor = .done result := hadv.conductor ▸ hresult
    obtain ⟨rfl, _⟩ := hrests (by simpa only [Run.joined, hconductor] using hlt)
    exact h.concluded result hconductor

theorem Faithful.join (h : c.Faithful) {panicked : Bool} (hjoining : c.run.conductor = .joining i)
    (hi : c.run.threads[i]? = some t) (point : t.point = .ended panicked) :
    Faithful ⟨c.run.join i t, t.epitaph.map (i, ·) ++ c.past⟩ := by
  have hjoined : c.run.joined = i := by simp only [Run.joined, hjoining]
  have hlt : i < c.run.threads.length := (List.getElem?_eq_some_iff.mp hi).1
  have hreverse : t.epitaph.reverse = t.epitaph := by
    cases panicked <;> simp [Thread.epitaph, point]
  have hpanics : Chronicle.panics ⟨c.run.join i t, t.epitaph.map (i, ·) ++ c.past⟩ =
      c.panics ++ if panicked then [i] else [] := by
    rw [panics_append]
    cases panicked <;> simp [Thread.epitaph, point, Note.fault?]
  have hbefore : ∀ j ∈ c.panics, j < i := fun j hj => hjoined ▸ h.mourned j hj
  constructor
  case course =>
    intro j u hu
    have hmember : c.run.threads[j]? = some u := hu
    obtain ⟨departure, recorded, replies, hcourse, hlog⟩ := h.course j u hmember
    rw [hjoined] at hcourse
    rw [notesOf_append]
    change ∃ departure recorded replies, u.Course (j < i + 1) departure recorded ∧ _
    by_cases hj : j = i
    · subst hj
      obtain rfl : t = u := Option.some.inj (hi.symm.trans hmember)
      obtain ⟨hcourse, hlog'⟩ := Thread.Course.join (by simpa using hcourse) point replies
      exact ⟨departure, true, replies, by simpa using hcourse, by rw [if_pos rfl, hlog, hlog']⟩
    · have hiff : j < i + 1 ↔ j < i := by omega
      exact ⟨departure, recorded, replies, by simpa only [hiff] using hcourse, by rw [if_neg hj, hlog]⟩
  case failure =>
    apply h.failure_append
    rw [hreverse]
    rfl
  case joined => exact hlt
  case members => exact h.members_append hlt rfl
  case panics =>
    rw [hpanics]
    cases panicked with
    | false => simpa using h.panics
    | true => exact List.pairwise_append.mpr ⟨h.panics, List.pairwise_singleton _ _, by simpa using hbefore⟩
  case mourned =>
    intro j hj
    rw [hpanics] at hj
    change j < i + 1
    rcases List.mem_append.mp hj with hj | hj
    · exact (hbefore j hj).trans (Nat.lt_succ_self i)
    · cases panicked with
      | true => exact List.mem_singleton.mp hj ▸ Nat.lt_succ_self i
      | false => cases hj
  case spared =>
    apply h.spared_append
    intro hself
    omega
  case concluded => exact nofun

theorem Faithful.conduct (h : c.Faithful) : (c.follow .conduct).Faithful := by
  have hconducts := c.run.conducts
  have hfollow : c.follow .conduct = ⟨c.run.conduct, c.run.notes ++ c.past⟩ := rfl
  rw [hfollow]
  generalize c.run.conduct = r, c.run.notes = new at hconducts
  cases hconducts with
  | rests _ same => exact same ▸ h
  | spawns count conductor spawning next =>
    refine h.keeps rfl rfl ?_ ?_
    · rcases next with rfl | rfl <;> simp [Run.joined, spawning]
    · rcases next with rfl | rfl <;> exact nofun
  | joins i t panicked joining present point => exact h.join joining present point
  | concludes i joining all =>
    -- The conductor comes to its end when all are joined, so none counts as joined that was not before.
    have hi : c.run.joined = i := by simp only [Run.joined, joining]
    obtain rfl : i = c.run.threads.length := le_antisymm (hi ▸ h.joined) all
    obtain ⟨hthreads, hfailure, result, hconductor, hanswers⟩ := c.run.concludes.answers
    refine h.keeps hthreads hfailure (by simp only [Run.joined, hconductor, hthreads, joining]) ?_
    intro result' hresult'
    cases hconductor.symm.trans hresult'
    exact hanswers

theorem Faithful.follow (h : c.Faithful) (a : Action) : (c.follow a).Faithful := by
  cases a with
  | conduct => exact h.conduct
  | act i move jitter =>
    simp only [Chronicle.follow]
    split
    · next t ht =>
      split
      · obtain ⟨t', hadv⟩ := Run.advances c.run i t move jitter
        exact h.advance ht hadv
      · exact h
    · exact h
  | tick nanos => exact h.congr rfl rfl rfl
  | abort => exact h.congr rfl rfl rfl

theorem Faithful.after (h : c.Faithful) (actions : List Action) : (c.after actions).Faithful := by
  induction actions generalizing c with
  | nil => exact h
  | cons a actions ih => exact ih (h.follow a)

/-! ## What is reported -/

def start (p : Production Actor) : Chronicle Task := ⟨(Playing.make p).run, []⟩

def departures (c : Chronicle τ) (i : ℕ) : List Departure := (c.notesOf i).filterMap Note.departure?

def exits (c : Chronicle τ) : List (ℕ × Departure) :=
  c.past.reverse.filterMap fun note => note.2.departure?.map (note.1, ·)

theorem faithful_after (p : Production Actor) (actions : List Action) : ((start p).after actions).Faithful := by
  refine Faithful.after (faithful_start _ (fun t ht => ?_) rfl rfl) actions
  obtain ⟨a, _, rfl⟩ := List.mem_map.mp ht
  rfl

theorem departures_log (t : Thread τ) (departure : Option Departure) (recorded : Bool) (replies : List Reply) :
    (t.log departure recorded replies).filterMap Note.departure? = departure.toList := by
  have hfaults : ∀ faults : List Fault, (faults.map Note.recorded).filterMap Note.departure? = [] := by
    simp [List.filterMap_map, Function.comp_def, Note.departure?]
  cases departure <;> cases recorded <;>
    simp [Thread.log, hfaults, List.filterMap_map, Function.comp_def, Note.departure?]

theorem faults_log (t : Thread τ) (departure : Option Departure) (recorded : Bool) (replies : List Reply) :
    (t.log departure recorded replies).filterMap Note.fault? =
      if recorded then (departure.bind t.fault?).toList else [] := by
  have hfaults : ∀ faults : List Fault, (faults.map Note.recorded).filterMap Note.fault? = faults := by
    simp [List.filterMap_map, Function.comp_def, Note.fault?]
  cases departure <;> cases recorded <;>
    simp [Thread.log, hfaults, List.filterMap_map, Function.comp_def, Note.fault?]

/-- What is recorded of a thread is what its actor has left for. -/
theorem Faithful.recorded (h : c.Faithful) {f : Fault} (hf : f ∈ c.faultsOf i) :
    ∃ t departure, c.run.threads[i]? = some t ∧ .left departure ∈ c.notesOf i ∧ t.fault? departure = some f := by
  obtain ⟨note, hnote, _⟩ := List.mem_filterMap.mp hf
  have ht := List.getElem?_eq_getElem (h.members _ (mem_notesOf.mp hnote))
  obtain ⟨departure, recorded, replies, _, hlog⟩ := h.course i _ ht
  rw [faultsOf, hlog, faults_log] at hf
  cases recorded with
  | false => cases hf
  | true =>
    simp only [if_true, Option.mem_toList, Option.bind_eq_some_iff] at hf
    obtain ⟨d, rfl, hfault⟩ := hf
    exact ⟨_, d, ht, hlog ▸ Thread.mem_log_left.mpr rfl, hfault⟩

/-- All notes of a thread of a run that is over. -/
theorem Faithful.over (h : c.Faithful) {result : Except Fault RunReport} (hdone : c.run.conductor = .done result)
    (hi : c.run.threads[i]? = some t) :
    t.hasEnded = true ∧ ∃ departure replies, c.notesOf i = t.log (some departure) true replies := by
  obtain ⟨departure, recorded, replies, hcourse, hlog⟩ := h.course i t hi
  have hjoined : i < c.run.joined := by
    simp only [Run.joined, hdone]
    exact (List.getElem?_eq_some_iff.mp hi).1
  rw [decide_eq_true hjoined] at hcourse
  obtain ⟨rfl, d, panicked, rfl, hpoint⟩ := hcourse.ended
  exact ⟨by simp [Thread.hasEnded, hpoint], d, replies, hlog⟩

theorem Faithful.left_once (h : c.Faithful) {result : Except Fault RunReport}
    (hdone : c.run.conductor = .done result) (hi : c.run.threads[i]? = some t) :
    ∃ departure, c.departures i = [departure] ∧ c.faultsOf i = (t.fault? departure).toList := by
  obtain ⟨_, departure, replies, hlog⟩ := h.over hdone hi
  refine ⟨departure, ?_, ?_⟩
  · rw [departures, hlog, departures_log]
    rfl
  · rw [faultsOf, hlog, faults_log]
    rfl

theorem Faithful.left_at_fault (h : c.Faithful) {result : Except Fault RunReport}
    (hdone : c.run.conductor = .done result) {f : Fault} (hf : f ∈ c.faultsOf i) :
    ∃ t departure, c.run.threads[i]? = some t ∧ c.departures i = [departure] ∧ t.fault? departure = some f ∧
      c.faultsOf i = [f] := by
  obtain ⟨t, _, ht, _⟩ := h.recorded hf
  obtain ⟨departure, hleft, hfaults⟩ := h.left_once hdone ht
  rw [hfaults, Option.mem_toList] at hf
  exact ⟨t, departure, ht, hleft, hf, by rw [hfaults, hf]; rfl⟩

/-- Once a run is over, every actor has left once. Those that failed or panicked are recorded once, and nobody else
is; panics are recorded in the order of the threads. The run reports what was recorded first, which is the failure
that happened first if there is only one. It reports a panic only if nothing went wrong in the threads before. -/
theorem first_record_reported (p : Production Actor) (actions : List Action) :
    let c := (start p).after actions
    ∀ result, c.run.result? = some result →
      (∀ i t, c.run.threads[i]? = some t →
        ∃ departure, c.departures i = [departure] ∧ c.faultsOf i = (t.fault? departure).toList) ∧
      c.panics.Pairwise (· < ·) ∧
      (∀ i f, c.records.head? = some (i, f) → result = .error f ∧ ∃ t departure, c.run.threads[i]? = some t ∧
        c.departures i = [departure] ∧ t.fault? departure = some f) ∧
      (∀ i actor, c.records.head? = some (i, .actorPanicked actor) → ∀ j < i, c.faultsOf j = []) ∧
      (c.records = [] → ∀ f, result = .error f → f = .aborted) ∧
      ∀ i f, f ∈ c.faultsOf i → (∀ j, j ≠ i → c.faultsOf j = []) → result = .error f := by
  intro c result hresult
  have h : c.Faithful := faithful_after p actions
  have hdone := Run.conductor_of_result hresult
  obtain ⟨hfailed, hnone⟩ := h.concluded result hdone
  have hfirst : ∀ i f, c.records.head? = some (i, f) → result = .error f := by
    intro i f hhead
    exact hfailed f (by rw [h.failure, hhead]; rfl)
  refine ⟨fun i t ht => h.left_once hdone ht, h.panics, ?_, h.spared, ?_, ?_⟩
  · intro i f hhead
    obtain ⟨t, departure, ht, hleft, hfault, _⟩ := h.left_at_fault hdone (mem_records.mp (List.mem_of_mem_head? hhead))
    exact ⟨hfirst i f hhead, t, departure, ht, hleft, hfault⟩
  · intro hempty f hf
    exact hnone (by rw [h.failure, hempty]; rfl) f hf
  · intro i f hf honly
    cases hhead : c.records.head? with
    | none =>
      have hmem := mem_records.mpr hf
      rw [List.head?_eq_none_iff.mp hhead] at hmem
      cases hmem
    | some record =>
      obtain ⟨j, g⟩ := record
      have hg : g ∈ c.faultsOf j := mem_records.mp (List.mem_of_mem_head? hhead)
      obtain rfl : j = i := by
        by_contra hj
        rw [honly j hj] at hg
        cases hg
      obtain ⟨_, _, _, _, _, hself⟩ := h.left_at_fault hdone hf
      rw [hself] at hg
      rw [← List.mem_singleton.mp hg]
      exact hfirst j g hhead

/-- Both actors panic in the first phase. The second does first, and the first is reported. -/
theorem first_record_reported_twice :
    let plan : Plan := { schema := Plan.currentSchema, extra := [], entries :=
      [⟨some "P", "Fails", ⟨2⟩, [{ repeats := some ⟨1⟩, extra := [("Mode", .text "Panic")] }], []⟩] }
    let step (i : ℕ) : Action := .act i .askPhase 0
    let item (i : ℕ) : List Action := [.act i .openTurn 0, .act i .askIteration 0, step i, step i, step i]
    let actions : List Action := [.conduct, .conduct, .conduct, step 0, step 0, step 0, step 0, step 1, step 1, step 1,
      step 1] ++ item 1 ++ [.act 1 (.leave .panicked) 0, step 0] ++ item 0 ++ [.act 0 (.leave .panicked) 0, step 1,
      step 1, step 0, step 0, .conduct, .conduct, .conduct]
    ∃ p result, Production.make plan Company.full 0 = .ok p ∧
      let c := (start p).after actions
      c.run.result? = some result ∧ c.exits = [(1, .panicked), (0, .panicked)] ∧
        result = .error (.actorPanicked "P-0") := by
  intro plan step item actions
  have hrun : ((Production.make plan Company.full 0).toOption.any fun p =>
      let c := (start p).after actions
      c.run.result?.isSome && c.exits == [(1, .panicked), (0, .panicked)] &&
        c.records.head? == some (0, .actorPanicked "P-0")) = true := by
    decide +kernel
  cases hp : Production.make plan Company.full 0 with
  | error f => simp [hp, Except.toOption] at hrun
  | ok p =>
    simp only [hp, Except.toOption, Option.any_some, Bool.and_eq_true, beq_iff_eq] at hrun
    obtain ⟨⟨hover, hexits⟩, hfirst⟩ := hrun
    obtain ⟨result, hresult⟩ := Option.isSome_iff_exists.mp hover
    obtain ⟨_, _, hfailed, _⟩ := first_record_reported p actions result hresult
    exact ⟨p, result, rfl, hresult, hexits, (hfailed 0 _ hfirst).1⟩

/-- The second actor panics, and then the first fails. It records that before the conductor has joined the second,
so the run does not report the failure that happened first. -/
theorem panicked_first_failed_reported :
    let plan : Plan := { schema := Plan.currentSchema, extra := [], entries :=
      [⟨some "E", "Fails", ⟨1⟩, [{ repeats := some ⟨1⟩, extra := [("Mode", .text "Error")] }], []⟩,
        ⟨some "P", "Fails", ⟨1⟩, [{ repeats := some ⟨1⟩, extra := [("Mode", .text "Panic")] }], []⟩] }
    let reason := "Intentional failure in phase 0"
    let step (i : ℕ) : Action := .act i .askPhase 0
    let item (i : ℕ) : List Action := [.act i .openTurn 0, .act i .askIteration 0, step i, step i, step i]
    let actions : List Action := [.conduct, .conduct, .conduct, step 0, step 0, step 0, step 0, step 1, step 1, step 1,
      step 1] ++ item 1 ++ [.act 1 (.leave .panicked) 0, step 0] ++ item 0 ++ [.act 0 (.leave (.failed reason)) 0,
      step 0, step 0, step 0, step 0, step 1, step 1, .conduct, .conduct, .conduct]
    ∃ p, Production.make plan Company.full 0 = .ok p ∧
      let c := (start p).after actions
      c.exits = [(1, .panicked), (0, .failed reason)] ∧ c.run.result? = some (.error (.actorFailed "E" reason)) := by
  intro plan reason step item actions
  have hrun : ((Production.make plan Company.full 0).toOption.any fun p =>
      let c := (start p).after actions
      c.exits == [(1, .panicked), (0, .failed reason)] &&
        c.run.result? == some (.error (.actorFailed "E" reason))) = true := by
    decide +kernel
  cases hp : Production.make plan Company.full 0 with
  | error f => simp [hp, Except.toOption] at hrun
  | ok p =>
    simp only [hp, Except.toOption, Option.any_some, Bool.and_eq_true, beq_iff_eq] at hrun
    exact ⟨p, rfl, hrun⟩

end Chronicle

end PhasedWorkload
