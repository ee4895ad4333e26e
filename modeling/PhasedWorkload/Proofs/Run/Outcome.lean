import PhasedWorkload.Proofs.Performer.Departure
import PhasedWorkload.Proofs.Run.Chronicle
import PhasedWorkload.Proofs.Telemetry.Addition

/-! # The outcome of a run

A run goes well if and only if every actor leaves as one that has finished, after it was told that the run is
over. An actor that fails or panics aborts the run, and so does the participant of one that leaves before it knows
that the run is over, even if the actor says that it has finished. Nothing else aborts a run, and whoever passes on
an abort was told of it. The conductor emits one event more if the run does not go well, and that is the last one.
-/
namespace PhasedWorkload

open Barrier Telemetry
open Participant (Reply)

variable {τ : Type}

/-! ## What a performer has heard -/

namespace Performer

variable {p : Performer τ} {w : World} {cue : Cue} {b c : Barrier} {replies : List Reply}

theorem finished_of_over_proceed (participant : Participant τ) (point : Participant.Point) (answer : Answer)
    (h : (participant.proceed point answer).2 = .replied Reply.over) :
    (participant.proceed point answer).1.finished = true := by
  unfold Participant.proceed at h ⊢
  split at h
  · cases h
  · cases h
  · rfl
  · split at h <;> cases h
  · cases h
  · rfl

theorem takePhase_gives_over {progress : Participant.Progress}
    (h : Reply.over ∈ Troupe.replyIn (takePhase p progress).2) : progress = .replied Reply.over := by
  rcases progress with _ | _ | _ | _ <;> simp_all [takePhase, Troupe.replyIn]

/-- Whoever is told that the run is over knows it. -/
theorem finished_of_over (h : Reply.over ∈ Troupe.replyIn (p.follow w cue).2.2) :
    (p.follow w cue).2.1.participant.finished = true := by
  have hfollows := p.follows w cue
  generalize p.follow w cue = r at h hfollows
  cases hfollows with
  | ignores => cases h
  | iterates _ _ _ hiter => simp [hiter.replyIn] at h
  | asks =>
    cases hf : p.participant.finished with
    | true => simpa only [askPhase_finished hf] using hf
    | false => simp [askPhase_unfinished hf, Troupe.replyIn] at h
  | advances jitter point wait =>
    rw [advance_eq] at h ⊢
    split at h
    · cases h
    · rw [participant_takePhase]
      exact finished_of_over_proceed _ _ _ (takePhase_gives_over h)

/-- What the replies that a performer got have to do with what it knows and with the barrier. -/
structure Heard (b : Barrier) (p : Performer τ) (replies : List Reply) : Prop where
  begun : p.participant.started = true ∨ p.IsFresh ∧ replies = []
  knows : Reply.over ∈ replies → p.participant.finished = true
  aborted : Reply.aborted ∈ replies → b.errored = true
  decided : b.errored = false → p.participant.finished = true → Reply.over ∈ replies

theorem Heard.later (h : p.Heard b replies) (hbc : Precedes b c) : p.Heard c replies :=
  ⟨h.begun, h.knows, fun ha => hbc.errored (h.aborted ha), fun hc => h.decided (hbc.alive hc)⟩

theorem heard_fresh {participant : Participant τ} (h : participant.Shows none false false) :
    Heard b { participant } [] where
  begun := .inr ⟨⟨rfl, rfl, h.2.2⟩, rfl⟩
  knows hover := by cases hover
  aborted haborted := by cases haborted
  decided _ hf := by cases h.2.2.symm.trans hf

theorem aborted_not_mem_of_told {m m' : ℕ} {knows knows' : Bool} {report : Option Report}
    (h : Report.Says m knows m' knows' report) : Reply.aborted ∉ Troupe.replyIn report := by
  cases h <;> simp [Troupe.replyIn]

theorem over_mem_of_told {m m' : ℕ} {knows : Bool} {report : Option Report}
    (h : Report.Says m knows m' true report) : knows = true ∨ Reply.over ∈ Troupe.replyIn report := by
  cases h with
  | nothing | iteration => exact .inl rfl
  | finished => exact .inr List.mem_cons_self

theorem Heard.follow {places : List ℕ} {i m : ℕ} (h : p.Heard w.barrier replies)
    (hkeeps : p.KeepsOrder w places i m (p.follow w cue)) :
    (p.follow w cue).2.1.Heard (p.follow w cue).1.barrier (Troupe.replyIn (p.follow w cue).2.2 ++ replies) := by
  have herrored := p.errored_follow w cue
  obtain ⟨k', m', _, _, hreport⟩ := hkeeps
  constructor
  case begun =>
    rcases h.begun with hstarted | ⟨hfresh, rfl⟩
    · exact .inl ((p.flags_follow w cue).1 hstarted)
    · rcases hfresh.follow w cue with hstarted | ⟨_, hsame, hnone⟩
      · exact .inl hstarted
      · exact .inr ⟨hsame.symm ▸ hfresh, by rw [hnone, List.append_nil]⟩
  case knows =>
    intro hover
    rcases List.mem_append.mp hover with hnew | hold
    · exact finished_of_over hnew
    · exact (p.flags_follow w cue).2 (h.knows hold)
  case aborted =>
    intro haborted
    rw [herrored]
    rcases List.mem_append.mp haborted with hnew | hold
    · by_contra hb
      exact aborted_not_mem_of_told (hreport (Bool.not_eq_true _ ▸ hb)) hnew
    · exact h.aborted hold
  case decided =>
    intro hb hf
    rw [herrored] at hb
    have hreport := hreport hb
    rw [hf] at hreport
    rcases over_mem_of_told hreport with hold | hnew
    · exact List.mem_append_right _ (h.decided hb hold)
    · exact List.mem_append_left _ hnew

end Performer

/-! ## Notes of a thread -/

namespace Note

def reply? : Note → Option Reply
  | .told reply => some reply
  | _ => none

/-- An actor leaves only after it was given a reply, and it passes on an abort only if it was told of one. -/
def isOrderly : List Note → Bool
  | [] => true
  | .left departure :: earlier =>
    !(earlier.filterMap reply?).isEmpty && (departure != .stopped || earlier.contains (.told .aborted)) &&
      isOrderly earlier
  | _ :: earlier => isOrderly earlier

/-- The actor has left as one that has finished, after it was told that the run is over. -/
def completes : List Note → Bool
  | [] => false
  | .left departure :: earlier => departure == .finished && earlier.contains (.told Reply.over) || completes earlier
  | _ :: earlier => completes earlier

theorem isOrderly_of_append {new old : List Note} (h : isOrderly (new ++ old) = true) : isOrderly old = true := by
  induction new with
  | nil => exact h
  | cons note new ih =>
    cases note with
    | told | recorded => exact ih h
    | left departure =>
      simp only [List.cons_append, isOrderly, Bool.and_eq_true] at h
      exact ih h.2

theorem replies_told (replies : List Reply) : (replies.map Note.told).filterMap reply? = replies := by
  simp [List.filterMap_map, Function.comp_def, reply?]

theorem completes_told (replies : List Reply) : completes (replies.map .told) = false := by
  induction replies with
  | nil => rfl
  | cons reply replies ih => exact ih

end Note

namespace Thread

variable {t t' : Thread τ} {departure : Option Departure} {d : Departure} {recorded : Bool} {replies : List Reply}

theorem replies_log : (t.log departure recorded replies).filterMap Note.reply? = replies := by
  have hfaults : ∀ faults : List Fault, (faults.map Note.recorded).filterMap Note.reply? = [] := by
    simp [List.filterMap_map, Function.comp_def, Note.reply?]
  have hleft : (departure.toList.map Note.left).filterMap Note.reply? = [] := by cases departure <;> rfl
  rw [log, List.filterMap_append, List.filterMap_append, Note.replies_told, hleft, List.nil_append]
  cases recorded with
  | false => rfl
  | true => simp only [if_true, hfaults, List.nil_append]

/-- What is recorded says nothing about how an actor has left. -/
theorem suffix_log (P : List Note → Bool) (h : ∀ fault notes, P (.recorded fault :: notes) = P notes) :
    P (t.log departure recorded replies) = P (departure.toList.map .left ++ replies.map .told) := by
  have hfaults : ∀ (faults : List Fault) (notes : List Note), P (faults.map .recorded ++ notes) = P notes := by
    intro faults notes
    induction faults with
    | nil => rfl
    | cons fault faults ih => exact (h fault _).trans ih
  cases recorded with
  | false => rfl
  | true => exact hfaults _ _

theorem orderly_log (h : Note.isOrderly (t.log (some d) recorded replies) = true) :
    replies ≠ [] ∧ (d = .stopped → Reply.aborted ∈ replies) := by
  rw [suffix_log Note.isOrderly fun _ _ => rfl] at h
  simp only [Option.toList_some, List.map_cons, List.map_nil, List.singleton_append, Note.isOrderly, Note.replies_told,
    Bool.and_eq_true] at h
  refine ⟨by simpa using h.1.1, fun hd => ?_⟩
  subst hd
  simpa using h.1.2

theorem completes_log : Note.completes (t.log departure recorded replies) = true ↔
    departure = some .finished ∧ Reply.over ∈ replies := by
  rw [suffix_log Note.completes fun _ _ => rfl]
  cases departure with
  | none => simp [Note.completes_told]
  | some d => simp [Note.completes, Note.completes_told]

theorem working_of_isDeciding (h : t.isDeciding = true) : t.point = .working := by
  unfold isDeciding at h
  split at h
  · next hpoint _ => exact hpoint
  · cases h

/-- Why a thread has aborted the run. -/
inductive IsAtFault (t : Thread τ) (notes : List Note) : Prop where
  | failed (reason : String) (left : .left (.failed reason) ∈ notes)
  | panicked (left : .left .panicked ∈ notes)
  | departed (ended : t.hasEnded = true) (unfinished : t.performer.participant.finished = false)

theorem IsAtFault.later {notes notes' : List Note} (h : t.IsAtFault notes) (hnotes : notes ⊆ notes') :
    t.IsAtFault notes' := by
  cases h with
  | failed reason left => exact .failed reason (hnotes left)
  | panicked left => exact .panicked (hnotes left)
  | departed ended unfinished => exact .departed ended unfinished

end Thread

/-! ## What a run comes to -/

/-- The reason that a run gives for a failure. -/
def Fault.reason : Fault → String
  | .aborted => "aborted"
  | f => f.message

theorem Fault.reason_eq_message {f : Fault} (h : f ≠ .aborted) : f.reason = f.message := by
  cases f with
  | aborted => exact absurd rfl h
  | _ => rfl

/-- Nothing says that the run was aborted. -/
def IsQuiet (events : List Event) : Prop := ∀ reason, .runAborted reason ∉ events

namespace Run

variable {r r' : Run τ} {i : ℕ} {t t' : Thread τ} {move : Move} {new : List Note}

/-- Nobody from outside aborts the run, and no actor says that it was aborted. -/
def Action.isOwn : Action → Bool
  | .abort | .act _ (.act (.emit (.runAborted _))) _ => false
  | _ => true

/-- What the conductor has said and what is known of the run agree. -/
def Settles (r : Run τ) : Prop :=
  match r.conductor with
  | .done (.ok report) => IsQuiet r.emitted ∧ r.failure = none ∧ r.world.barrier.errored = false ∧
      report = ⟨r.threads.length, r.world.barrier.publishedPhase⟩
  | .done (.error f) => (∃ rest, r.emitted = .runAborted f.reason :: rest ∧ IsQuiet rest) ∧
      (r.failure = some f ∨ r.world.barrier.errored = true)
  | _ => IsQuiet r.emitted

theorem Advances.precedes (h : r.Advances i t move r' t' new) : Precedes r.world.barrier r'.world.barrier := by
  cases h with
  | affects effect => cases effect <;> exact .refl _
  | performs cue next _ follows => exact follows ▸ t.performer.precedes_follow r.world cue
  | fails | unwinds => exact precedes_abort _
  | releases =>
    change Precedes r.world.barrier (t.performer.participant.release r.world.barrier)
    rcases t.performer.participant.release_cases r.world.barrier with hsame | habort
    · rw [hsame]
      exact .refl _
    · rw [habort]
      exact precedes_abort _
  | rests | launches | leaves | records | reports => exact .refl _

/-- Only the guard and the participant of a thread abort the run. -/
theorem Advances.fault (h : r.Advances i t move r' t' new) {departure : Option Departure} {recorded joined : Bool}
    {replies : List Reply} (hcourse : t.Course joined departure recorded) (hb : r.world.barrier.errored = false)
    (hb' : r'.world.barrier.errored = true) : t'.IsAtFault (new ++ t.log departure recorded replies) := by
  cases h with
  | affects effect => cases effect <;> cases hb.symm.trans hb'
  | performs cue next _ follows =>
    subst follows
    cases hb.symm.trans ((t.performer.errored_follow r.world cue).symm.trans hb')
  | fails point =>
    simp only [Thread.Course, point] at hcourse
    obtain ⟨_, ⟨reason, rfl⟩, _⟩ := hcourse
    exact .failed reason (Thread.mem_log_left.mpr rfl)
  | unwinds point =>
    simp only [Thread.Course, point] at hcourse
    obtain ⟨_, rfl, _⟩ := hcourse
    exact .panicked (Thread.mem_log_left.mpr rfl)
  | releases panicked point =>
    refine .departed rfl ?_
    change (t.performer.participant.release r.world.barrier).errored = true at hb'
    unfold Participant.release at hb'
    split at hb'
    · next hrelease =>
      simp only [Bool.and_eq_true, Bool.not_eq_true'] at hrelease
      exact hrelease.1.2
    · cases hb.symm.trans hb'
  | rests | launches | leaves | records | reports => cases hb.symm.trans hb'

theorem Advances.quiet (h : r.Advances i t move r' t' new) {jitter : ℕ}
    (hown : (Action.act i move jitter).isOwn = true) (hquiet : IsQuiet r.emitted) : IsQuiet r'.emitted := by
  cases h with
  | affects effect point made =>
    subst made
    cases effect with
    | emit event =>
      intro reason hmem
      rcases List.mem_cons.mp hmem with rfl | hmem
      · cases hown
      · exact hquiet reason hmem
    | count | observe => exact hquiet
  | launches | reports =>
    intro reason hmem
    rcases List.mem_cons.mp hmem with heq | hmem
    · cases heq
    · exact hquiet reason hmem
  | rests | performs | leaves | records | fails | unwinds | releases => exact hquiet

theorem Advances.heard (h : r.Advances i t move r' t' new) {places : List ℕ} {m : ℕ} {replies : List Reply}
    (hheard : t.performer.Heard r.world.barrier replies)
    (hkeeps : ∀ cue, t.performer.KeepsOrder r.world places i m (t.performer.follow r.world cue)) :
    t'.performer.Heard r'.world.barrier (new.filterMap Note.reply? ++ replies) := by
  have hlater := hheard.later h.precedes
  cases h with
  | performs cue next _ follows =>
    subst follows
    rw [Note.replies_told]
    exact hheard.follow (hkeeps cue)
  | rests | launches | affects | leaves | records | fails | unwinds | reports | releases => exact hlater

theorem Advances.atFault (h : r.Advances i t move r' t' new) {notes : List Note} (hfault : t.IsAtFault notes) :
    t'.IsAtFault (new ++ notes) := by
  cases hfault with
  | failed reason left => exact .failed reason (List.mem_append_right _ left)
  | panicked left => exact .panicked (List.mem_append_right _ left)
  | departed ended unfinished =>
    cases h with
    | rests => exact .departed ended unfinished
    | launches point | affects _ point | performs _ _ point | leaves _ point | records _ point | fails point
    | unwinds point | reports _ point | releases _ point => simp [Thread.hasEnded, point] at ended

/-- A thread that has ended while the run goes on knows that the run is over. -/
theorem Ordered.finished {places : List ℕ} (h : r.Ordered places) (hb : r.world.barrier.errored = false)
    (hi : r.threads[i]? = some t) (hended : t.hasEnded = true) : t.performer.participant.finished = true := by
  obtain ⟨k, hk⟩ := h.exists_place hi
  have hleaves := (h.stands i k t hk hi).leaves
  unfold Thread.hasEnded at hended
  split at hended
  · next hpoint =>
    simp only [Thread.Leaves, hpoint] at hleaves
    exact hleaves hb
  · cases hended

theorem Settles.ok (h : r.Settles) {report : RunReport} (hdone : r.conductor = .done (.ok report)) :
    IsQuiet r.emitted ∧ r.failure = none ∧ r.world.barrier.errored = false ∧
      report = ⟨r.threads.length, r.world.barrier.publishedPhase⟩ := by
  simpa only [Settles, hdone] using h

theorem Settles.error (h : r.Settles) {f : Fault} (hdone : r.conductor = .done (.error f)) :
    (∃ rest, r.emitted = .runAborted f.reason :: rest ∧ IsQuiet rest) ∧
      (r.failure = some f ∨ r.world.barrier.errored = true) := by
  simpa only [Settles, hdone] using h

theorem settles_of_quiet (hconductor : ∀ result, r.conductor ≠ .done result) : r.Settles ↔ IsQuiet r.emitted := by
  unfold Settles
  split
  · next hdone => exact absurd hdone (hconductor _)
  · next hdone => exact absurd hdone (hconductor _)
  · rfl

theorem step_of_not_deciding (h : t.isDeciding = false) (move' : Move) (jitter : ℕ) :
    r.step i t move jitter = r.step i t move' jitter := by
  unfold step
  cases t.point with
  | working => simp [h]
  | launching | recording | failing | reporting | unwinding | releasing | ended => rfl

/-- An actor that leaves in order has begun. -/
theorem exists_allowed {notes : List Note} {b : Barrier}
    (hheard : t.performer.Heard b (notes.filterMap Note.reply?)) (report : Option Report)
    (horderly : Note.isOrderly (t.notes move report ++ notes) = true) (jitter : ℕ) :
    ∃ move', t.allows move' = true ∧ r.step i t move jitter = r.step i t move' jitter := by
  cases hdeciding : t.isDeciding with
  | false => exact ⟨.askPhase, rfl, step_of_not_deciding hdeciding _ jitter⟩
  | true =>
    cases move with
    | leave departure =>
      refine ⟨.leave departure, ?_, rfl⟩
      have hwork := Thread.working_of_isDeciding hdeciding
      simp only [Thread.notes, hwork, hdeciding, List.singleton_append, Note.isOrderly, Bool.and_eq_true,
        Bool.not_eq_true'] at horderly
      rcases hheard.begun with hstarted | ⟨_, hnone⟩
      · exact hstarted
      · simp [hnone] at horderly
    | askPhase | openTurn | askIteration | act => exact ⟨_, rfl, rfl⟩

end Run

namespace Chronicle

open Run (Action)

variable {c : Chronicle τ} {r : Run τ} {i : ℕ} {t : Thread τ} {places : List ℕ} {last : ℕ}

/-- The replies that the actor of a thread got, the latest first. -/
def repliesTo (c : Chronicle τ) (i : ℕ) : List Reply := (c.notesOf i).filterMap Note.reply?

/-- Every actor asks for a phase before it leaves, and passes on an abort only if it was told of one. -/
def isOrderly (c : Chronicle τ) : Bool := c.past.all fun note => Note.isOrderly (c.notesOf note.1)

theorem isOrderly_notesOf (h : c.isOrderly = true) (i : ℕ) : Note.isOrderly (c.notesOf i) = true := by
  cases hnotes : c.notesOf i with
  | nil => rfl
  | cons note notes =>
    have hmem : note ∈ c.notesOf i := by rw [hnotes]; exact List.mem_cons_self
    exact hnotes ▸ List.all_eq_true.mp h _ (mem_notesOf.mp hmem)

theorem exists_new_follow (c : Chronicle τ) (a : Action) : ∃ new, (c.follow a).past = new ++ c.past := by
  cases a with
  | conduct => exact ⟨_, rfl⟩
  | tick | abort => exact ⟨[], rfl⟩
  | act i move jitter =>
    simp only [follow]
    split
    · split
      · exact ⟨_, rfl⟩
      · exact ⟨[], rfl⟩
    · exact ⟨[], rfl⟩

theorem exists_new_after (c : Chronicle τ) (actions : List Action) : ∃ new, (c.after actions).past = new ++ c.past := by
  induction actions generalizing c with
  | nil => exact ⟨[], rfl⟩
  | cons a actions ih =>
    obtain ⟨new, hnew⟩ := c.exists_new_follow a
    obtain ⟨later, hlater⟩ := ih (c.follow a)
    exact ⟨later ++ new, by rw [List.append_assoc, ← hnew]; exact hlater⟩

theorem isOrderly_of_after {actions : List Action} (h : (c.after actions).isOrderly = true) : c.isOrderly = true := by
  obtain ⟨new, hnew⟩ := c.exists_new_after actions
  refine List.all_eq_true.mpr fun note _ => ?_
  have hsplit : ∃ new, (c.after actions).notesOf note.1 = new ++ c.notesOf note.1 := by
    simp only [notesOf, hnew, List.filter_append, List.map_append]
    exact ⟨_, rfl⟩
  obtain ⟨newer, hnewer⟩ := hsplit
  exact Note.isOrderly_of_append (hnewer ▸ isOrderly_notesOf h note.1)

/-- What holds of a run in which nobody leaves out of order, with the places of its participants. -/
structure Accords (c : Chronicle τ) (last : ℕ) (places : List ℕ) : Prop where
  faithful : c.Faithful
  ordered : c.run.Ordered places
  lastPhase : c.run.world.barrier.maxPhase = last
  heard : ∀ (i : ℕ) (t : Thread τ), c.run.threads[i]? = some t →
    t.performer.Heard c.run.world.barrier (c.repliesTo i)
  fault : c.run.world.barrier.errored = true →
    ∃ (i : ℕ) (t : Thread τ), c.run.threads[i]? = some t ∧ t.IsAtFault (c.notesOf i)
  settled : c.run.Settles

/-- A step that leaves the barrier and the threads alone, and in which nobody gets a reply. -/
theorem Accords.congr {c' : Chronicle τ} (h : c.Accords last places) (hfaithful : c'.Faithful)
    (hbarrier : c'.run.world.barrier = c.run.world.barrier) (hthreads : c'.run.threads = c.run.threads)
    (hreplies : ∀ i, c'.repliesTo i = c.repliesTo i) (hnotes : ∀ i, c.notesOf i ⊆ c'.notesOf i)
    (hsettled : c'.run.Settles) : c'.Accords last places where
  faithful := hfaithful
  ordered := h.ordered.congr hbarrier hthreads
  lastPhase := hbarrier ▸ h.lastPhase
  heard i t ht := by
    rw [hreplies, hbarrier]
    exact h.heard i t (hthreads ▸ ht)
  fault hb := by
    obtain ⟨i, t, ht, hfault⟩ := h.fault (hbarrier ▸ hb)
    exact ⟨i, t, hthreads ▸ ht, hfault.later (hnotes i)⟩
  settled := hsettled

/-- Nothing happens that is noted. -/
theorem Accords.keeps (h : c.Accords last places) (hfaithful : Faithful ⟨r, c.past⟩)
    (hbarrier : r.world.barrier = c.run.world.barrier) (hthreads : r.threads = c.run.threads)
    (hsettled : r.Settles) : Accords ⟨r, c.past⟩ last places :=
  h.congr hfaithful hbarrier hthreads (fun _ => rfl) (fun _ => List.Subset.refl _) hsettled

theorem Accords.quiet (h : c.Accords last places) (hconductor : ∀ result, c.run.conductor ≠ .done result) :
    IsQuiet c.run.emitted := (Run.settles_of_quiet hconductor).mp h.settled

/-- Only the conductor says that a run was aborted. -/
theorem Faithful.failure_ne_aborted (h : c.Faithful) {f : Fault} (hf : c.run.failure = some f) : f ≠ .aborted := by
  rw [h.failure, Option.map_eq_some_iff] at hf
  obtain ⟨⟨i, g⟩, hfirst, rfl⟩ := hf
  obtain ⟨t, departure, _, _, hfault⟩ := h.recorded (mem_records.mp (List.mem_of_mem_head? hfirst))
  rintro rfl
  cases departure <;> cases hfault

theorem Accords.advance (h : c.Accords last places) (hi : c.run.threads[i]? = some t) {t' : Thread τ} {move : Move}
    {new : List Note} (hadv : c.run.Advances i t move r t' new)
    {jitter : ℕ} (hown : (Action.act i move jitter).isOwn = true) {places' : List ℕ} (hordered : r.Ordered places') :
    Accords ⟨r, new.map (i, ·) ++ c.past⟩ last places' where
  faithful := h.faithful.advance hi hadv
  ordered := hordered
  lastPhase := hadv.precedes.maxPhase_eq.trans h.lastPhase
  heard j u hu := by
    rw [repliesTo, notesOf_append]
    rcases getElem?_set_cases (hadv.threads hi ▸ hu) with ⟨rfl, rfl⟩ | ⟨hj, hu⟩
    · obtain ⟨k, hk⟩ := h.ordered.exists_place hi
      obtain ⟨m, hstands⟩ := (h.ordered.stands j k t hk hi).performer
      rw [if_pos rfl, List.filterMap_append]
      exact hadv.heard (h.heard j t hi) fun cue => hstands.follow h.ordered.tally hk cue
    · rw [if_neg hj]
      exact (h.heard j u hu).later hadv.precedes
  fault hb := by
    have hself : r.threads[i]? = some t' := by
      rw [hadv.threads hi]
      exact List.getElem?_set_self (List.getElem?_eq_some_iff.mp hi).1
    cases hold : c.run.world.barrier.errored with
    | false =>
      obtain ⟨departure, recorded, replies, hcourse, hlog⟩ := h.faithful.course i t hi
      refine ⟨i, t', hself, ?_⟩
      rw [notesOf_append, if_pos rfl, hlog]
      exact hadv.fault hcourse hold hb
    | true =>
      obtain ⟨j, u, hu, hfault⟩ := h.fault hold
      by_cases hj : j = i
      · subst hj
        obtain rfl : t = u := Option.some.inj (hi.symm.trans hu)
        refine ⟨j, t', hself, ?_⟩
        rw [notesOf_append, if_pos rfl]
        exact hadv.atFault hfault
      · refine ⟨j, u, ?_, ?_⟩
        · rw [hadv.threads hi]
          exact (List.getElem?_set_ne (Ne.symm hj)).trans hu
        · rw [notesOf_append, if_neg hj]
          exact hfault
  settled := by
    by_cases hdone : ∃ result, c.run.conductor = .done result
    -- After its end all threads have been joined, and none takes a step.
    · obtain ⟨result, hconductor⟩ := hdone
      have hlt := (List.getElem?_eq_some_iff.mp hi).1
      obtain ⟨panicked, hpoint⟩ := h.faithful.ended hi (by simpa only [Run.joined, hconductor] using hlt)
      obtain ⟨rfl, _⟩ := hadv.of_ended hpoint
      exact h.settled
    · have hnot : ∀ result, c.run.conductor ≠ .done result := fun result hresult => hdone ⟨result, hresult⟩
      refine (Run.settles_of_quiet (hadv.conductor.symm ▸ hnot)).mpr ?_
      exact hadv.quiet hown (h.quiet hnot)

theorem Accords.conduct (h : c.Accords last places) : (c.follow .conduct).Accords last places := by
  have hfaithful := h.faithful.follow .conduct
  have hfollow : c.follow .conduct = ⟨c.run.conduct, c.run.notes ++ c.past⟩ := rfl
  rw [hfollow] at hfaithful ⊢
  have hconducts := c.run.conducts
  generalize c.run.conduct = r, c.run.notes = new at hfaithful hconducts
  cases hconducts with
  | rests _ same => exact same ▸ h
  | spawns count conductor spawning next =>
    have hquiet := h.quiet fun _ hdone => by cases spawning.symm.trans hdone
    have hsettled : Run.Settles { c.run with conductor } := by
      rcases next with rfl | rfl <;> exact hquiet
    exact h.keeps hfaithful rfl rfl hsettled
  | joins i t panicked joining present point =>
    have hsilent : t.epitaph.filterMap Note.reply? = [] := by
      cases panicked <;> simp [Thread.epitaph, point, Note.reply?]
    refine h.congr hfaithful rfl rfl (fun j => ?_) (fun j => ?_)
      (h.quiet fun _ hdone => by cases joining.symm.trans hdone)
    · rw [repliesTo, notesOf_append]
      split
      · next hj => rw [List.filterMap_append, hsilent, hj, List.nil_append, repliesTo]
      · rfl
    · rw [notesOf_append]
      split
      · next hj => exact hj ▸ List.subset_append_right _ _
      · exact List.Subset.refl _
  | concludes i joining all =>
    have hquiet := h.quiet fun _ hdone => by cases joining.symm.trans hdone
    have haborted := h.ordered.tally.sound.aborted
    have hconcludes := c.run.concludes
    generalize c.run.conclude = r at hfaithful hconcludes
    cases hconcludes with
    | fails f failed =>
      refine h.keeps hfaithful rfl rfl ⟨⟨c.run.emitted, ?_, hquiet⟩, .inl failed⟩
      rw [Fault.reason_eq_message (h.faithful.failure_ne_aborted failed)]
      rfl
    | aborts failed aborted =>
      exact h.keeps hfaithful rfl rfl ⟨⟨c.run.emitted, rfl, hquiet⟩, .inr (haborted.symm.trans aborted)⟩
    | succeeds failed aborted =>
      exact h.keeps hfaithful rfl rfl ⟨hquiet, failed, haborted.symm.trans aborted, rfl⟩

theorem Accords.follow (h : c.Accords last places) {a : Action} (hown : a.isOwn = true)
    (horderly : (c.follow a).isOrderly = true) : ∃ places', (c.follow a).Accords last places' := by
  have hfaithful := h.faithful.follow a
  cases a with
  | conduct => exact ⟨places, h.conduct⟩
  | tick nanos => exact ⟨places, h.keeps hfaithful rfl rfl h.settled⟩
  | abort => cases hown
  | act i move jitter =>
    simp only [Chronicle.follow] at horderly ⊢
    split at horderly
    · next t ht =>
      split at horderly
      · next hspawned =>
        obtain ⟨t', hadv⟩ := Run.advances c.run i t move jitter
        have hnotes := isOrderly_notesOf horderly i
        rw [notesOf_append, if_pos rfl] at hnotes
        -- What holds of the places is known for allowed moves; one that is out of order is not among the notes.
        obtain ⟨move', hallows, hstep⟩ := Run.exists_allowed (h.heard i t ht) _ hnotes jitter
        obtain ⟨places', hordered⟩ := h.ordered.step ht hallows jitter
        simp only [hspawned, if_true]
        exact ⟨places', h.advance ht hadv hown (hstep ▸ hordered)⟩
      · next hspawned =>
        simp only [hspawned]
        exact ⟨places, h⟩
    · exact ⟨places, h⟩

theorem Accords.after (h : c.Accords last places) {actions : List Action} (hown : ∀ a ∈ actions, a.isOwn = true)
    (horderly : (c.after actions).isOrderly = true) : ∃ places', (c.after actions).Accords last places' := by
  induction actions generalizing c places with
  | nil => exact ⟨places, h⟩
  | cons a actions ih =>
    obtain ⟨places', h'⟩ := h.follow (hown a List.mem_cons_self) (isOrderly_of_after horderly)
    exact ih h' (fun b hb => hown b (List.mem_cons_of_mem a hb)) horderly

theorem length_follow (c : Chronicle τ) (a : Action) : (c.follow a).run.threads.length = c.run.threads.length := by
  cases a with
  | conduct => exact congrArg List.length (Run.threads_conduct c.run)
  | tick | abort => rfl
  | act i move jitter =>
    simp only [follow]
    split
    · next t ht =>
      split
      · obtain ⟨t', hadv⟩ := Run.advances c.run i t move jitter
        rw [hadv.threads ht, List.length_set]
      · rfl
    · rfl

theorem length_after (c : Chronicle τ) (actions : List Action) :
    (c.after actions).run.threads.length = c.run.threads.length := by
  induction actions generalizing c with
  | nil => rfl
  | cons a actions ih => exact (ih (c.follow a)).trans (c.length_follow a)

theorem accords_start {p : Production Actor} (h : p.stage.Enlisted (p.actors.map fun a => a.2.participant)) :
    (start p).Accords p.stage.barrier.maxPhase (List.replicate p.actors.length 0) where
  faithful := faithful_after p []
  ordered := Run.ordered_make h
  lastPhase := rfl
  heard i t ht := by
    obtain ⟨a, ha, rfl⟩ := Option.map_eq_some_iff.mp ((List.getElem?_map ..).symm.trans ht)
    exact Performer.heard_fresh (h.shows _ (List.mem_map.mpr ⟨a, List.mem_of_getElem? ha, rfl⟩))
  fault hb := by
    have hbarrier : (start p).run.world.barrier = p.stage.barrier := rfl
    rw [hbarrier, h.barrier] at hb
    cases hb
  settled reason hmem := by cases hmem

/-- All notes of a thread of a run that is over, with the replies that its actor got. -/
theorem Accords.over (h : c.Accords last places) {result : Except Fault RunReport}
    (hdone : c.run.conductor = .done result) (hi : c.run.threads[i]? = some t) :
    ∃ departure, c.notesOf i = t.log (some departure) true (c.repliesTo i) := by
  obtain ⟨_, departure, replies, hlog⟩ := h.faithful.over hdone hi
  have hreplies : c.repliesTo i = replies := by rw [repliesTo, hlog, Thread.replies_log]
  exact ⟨departure, by rw [hreplies, hlog]⟩

/-- In a run that has gone well every actor has left as one that has finished, and knew it. -/
theorem Accords.completes (h : c.Accords last places) (horderly : c.isOrderly = true) {report : RunReport}
    (hdone : c.run.conductor = .done (.ok report)) (hi : c.run.threads[i]? = some t) :
    Note.completes (c.notesOf i) = true := by
  obtain ⟨hended, _⟩ := h.faithful.over hdone hi
  obtain ⟨departure, hlog⟩ := h.over hdone hi
  obtain ⟨_, hfailure, hb, _⟩ := h.settled.ok hdone
  have hrecords : c.records = [] := by
    have hfirst := h.faithful.failure.symm.trans hfailure
    rwa [Option.map_eq_none_iff, List.head?_eq_none_iff] at hfirst
  have hblameless : ∀ f, t.fault? departure ≠ some f := by
    intro f hf
    have hmem : f ∈ c.faultsOf i := by
      rw [faultsOf, hlog, faults_log]
      simpa using hf
    rw [← mem_records, hrecords] at hmem
    cases hmem
  have hheard := h.heard i t hi
  rw [hlog, Thread.completes_log]
  cases departure with
  | finished => exact ⟨rfl, hheard.decided hb (h.ordered.finished hb hi hended)⟩
  | stopped =>
    have hnotes := isOrderly_notesOf horderly i
    rw [hlog] at hnotes
    cases hb.symm.trans (hheard.aborted ((Thread.orderly_log hnotes).2 rfl))
  | failed reason => exact absurd rfl (hblameless _)
  | panicked => exact absurd rfl (hblameless _)

/-- If every actor has left as one that has finished and knew it, nobody is at fault. -/
theorem Accords.ok_of_completes (h : c.Accords last places) {result : Except Fault RunReport}
    (hdone : c.run.conductor = .done result) (hall : ∀ i t, c.run.threads[i]? = some t →
      Note.completes (c.notesOf i) = true) : ∃ report, result = .ok report := by
  have hleft : ∀ i t, c.run.threads[i]? = some t → Reply.over ∈ c.repliesTo i ∧
      ∀ departure, .left departure ∈ c.notesOf i → departure = .finished := by
    intro i t ht
    obtain ⟨d, hlog⟩ := h.over hdone ht
    have hcompletes := hall i t ht
    rw [hlog, Thread.completes_log] at hcompletes
    refine ⟨hcompletes.2, fun departure hmem => ?_⟩
    rw [hlog, Thread.mem_log_left] at hmem
    exact Option.some.inj (hmem.symm.trans hcompletes.1)
  cases result with
  | ok report => exact ⟨report, rfl⟩
  | error f =>
    rcases (h.settled.error hdone).2 with hfailure | hb
    · rw [h.faithful.failure, Option.map_eq_some_iff] at hfailure
      obtain ⟨⟨i, g⟩, hfirst, rfl⟩ := hfailure
      obtain ⟨t, departure, ht, hmem, hfault⟩ := h.faithful.recorded (mem_records.mp (List.mem_of_mem_head? hfirst))
      obtain rfl := (hleft i t ht).2 departure hmem
      cases hfault
    · obtain ⟨i, t, ht, hfault⟩ := h.fault hb
      obtain ⟨hover, hfinished⟩ := hleft i t ht
      cases hfault with
      | failed reason hmem => cases hfinished _ hmem
      | panicked hmem => cases hfinished _ hmem
      | departed _ unfinished => cases unfinished.symm.trans ((h.heard i t ht).knows hover)

theorem Accords.phases (h : c.Accords last places) (hb : c.run.world.barrier.errored = false)
    (hi : c.run.threads[i]? = some t) (hended : t.hasEnded = true) :
    c.run.world.barrier.publishedPhase = last + 1 := by
  obtain ⟨k, hk⟩ := h.ordered.exists_place hi
  obtain ⟨hround, hsame, hlast⟩ := h.ordered.through hb hk hi hended
  obtain ⟨m, hstands⟩ := (h.ordered.stands i k t hk hi).performer
  have hbounded := hstands.bounded
  rw [h.ordered.tally.sound.phase, ← h.lastPhase]
  unfold Barrier.round at hround
  omega

theorem aborted_foldl {events : List Event} (h : IsQuiet events) (s : Summary) :
    (events.foldl Summary.record s).aborted = s.aborted := by
  have hnone : events.filterMap Event.abortReason? = [] := by
    refine List.filterMap_eq_nil_iff.mpr fun event hmem => ?_
    cases event with
    | runAborted reason => exact absurd hmem (h reason)
    | _ => rfl
  rw [Summary.aborted_foldl_record, hnone]
  exact Option.or_none

/-- How a run ends agrees with what its actors have done and with what it has emitted, whatever they do and in
whatever order the threads take their steps, if nobody else aborts the run and the actors leave in order. -/
theorem outcome_agrees {plan : Plan} {cast : Cast Actor} {now : ℕ} {p : Production Actor}
    (hcast : ∀ role ∈ p.roles, ∀ producer, cast.get role.type = .ok producer → producer.Engages)
    (h : Production.make plan cast now = .ok p) {actions : List Action} (hown : ∀ a ∈ actions, a.isOwn = true) :
    let c := (start p).after actions
    c.isOrderly = true → ∀ result, c.run.result? = some result →
      ((∃ report, result = .ok report) ↔ ∀ i < p.actors.length, Note.completes (c.notesOf i) = true) ∧
      (∀ report, result = .ok report → report.actors = p.actors.length ∧
        (0 < p.actors.length → report.phases = p.stage.barrier.maxPhase + 1) ∧ IsQuiet c.run.events ∧
        (Summary.ofEvents c.run.events).aborted = none) ∧
      ∀ f, result = .error f → ∃ before, c.run.events = before ++ [.runAborted f.reason] ∧ IsQuiet before ∧
        (Summary.ofEvents c.run.events).aborted = some f.reason := by
  intro c horderly result hresult
  obtain ⟨places, hc⟩ := (accords_start (Stage.enlisted_make hcast h)).after hown horderly
  have hlength : c.run.threads.length = p.actors.length := by
    rw [length_after]
    simp [start, Playing.make]
  have hdone := Run.conductor_of_result hresult
  have hquiet : ∀ events : List Event, IsQuiet events → IsQuiet events.reverse := fun events hevents reason hmem =>
    hevents reason (List.mem_reverse.mp hmem)
  refine ⟨⟨?_, fun hall => ?_⟩, ?_, ?_⟩
  · rintro ⟨report, rfl⟩ i hi
    exact hc.completes horderly hdone (List.getElem?_eq_getElem (hlength ▸ hi))
  · exact hc.ok_of_completes hdone fun i t ht => hall i (hlength ▸ (List.getElem?_eq_some_iff.mp ht).1)
  · rintro report rfl
    obtain ⟨hevents, _, hb, rfl⟩ := hc.settled.ok hdone
    refine ⟨hlength, fun hpos => ?_, hquiet _ hevents, aborted_foldl (hquiet _ hevents) {}⟩
    have hfirst := List.getElem?_eq_getElem (hlength ▸ hpos)
    exact hc.phases hb hfirst (hc.faithful.over hdone hfirst).1
  · rintro f rfl
    obtain ⟨⟨rest, hevents, hrest⟩, _⟩ := hc.settled.error hdone
    have hsplit : c.run.events = rest.reverse ++ [.runAborted f.reason] := by
      rw [Run.events, hevents, List.reverse_cons]
    refine ⟨rest.reverse, hsplit, hquiet _ hrest, ?_⟩
    rw [hsplit, Summary.ofEvents, List.foldl_append, List.foldl_cons, List.foldl_nil]
    simp only [Summary.record, aborted_foldl (hquiet _ hrest)]
    rfl

/-- The second actor leaves in the first phase as if all were done, and the first passes on the abort that follows. -/
theorem outcome_agrees_departing :
    let plan : Plan := { schema := Plan.currentSchema, extra := [], entries :=
      [⟨some "first", "Recorder", ⟨1⟩, [{}], []⟩, ⟨some "second", "HelloWorld", ⟨1⟩, [{ repeats := some ⟨1⟩ }], []⟩] }
    let step (i : ℕ) : Action := .act i .askPhase 0
    let actions : List Action := [.conduct, .conduct, .conduct, step 0, step 0, step 0, step 0, step 1, step 1, step 1,
      step 1, step 0, .act 1 (.leave .finished) 0, step 1, step 1, step 0, step 0, .act 0 (.leave .stopped) 0, step 0,
      step 0, .conduct, .conduct, .conduct]
    ∃ p, Production.make plan Company.full 0 = .ok p ∧
      (∀ role ∈ p.roles, ∀ producer, Company.full.get role.type = .ok producer → producer.Engages) ∧
      (∀ a ∈ actions, a.isOwn = true) ∧
      let c := (start p).after actions
      c.isOrderly = true ∧ c.run.result? = some (.error .aborted) ∧
        ∃ before, c.run.events = before ++ [.runAborted "aborted"] ∧ IsQuiet before ∧
          (Summary.ofEvents c.run.events).aborted = some "aborted" := by
  intro plan step actions
  have hcast : ∀ roles : List Role, ∀ role ∈ roles, ∀ producer, Company.full.get role.type = .ok producer →
      producer.Engages := fun _ _ _ _ hget => Company.engages_full _ (Cast.mem_of_get hget)
  have hown : ∀ a ∈ actions, a.isOwn = true := by decide
  have hrun : ((Production.make plan Company.full 0).toOption.any fun p =>
      let c := (start p).after actions
      c.isOrderly && c.run.result? == some (.error .aborted)) = true := by
    decide +kernel
  cases hp : Production.make plan Company.full 0 with
  | error f => simp [hp, Except.toOption] at hrun
  | ok p =>
    simp only [hp, Except.toOption, Option.any_some, Bool.and_eq_true, beq_iff_eq] at hrun
    obtain ⟨horderly, hresult⟩ := hrun
    obtain ⟨_, _, hfailed⟩ := outcome_agrees (hcast p.roles) hp hown horderly _ hresult
    exact ⟨p, rfl, hcast p.roles, hown, horderly, hresult, hfailed .aborted rfl⟩

end Chronicle

end PhasedWorkload
