import PhasedWorkload.Proofs.Performer.Standing
import PhasedWorkload.Proofs.Stage.Enlisting
import PhasedWorkload.Rehearsal

/-! # Troupes

A troupe is all the performers of one stage. Each follows cues one at a time, in any order: to ask for the
next phase, to make an iterator of its turn, to ask it for an iteration, or to take the next step of what it
is doing. The clock may move and the run may be aborted at any time. The replies that performers get and the
items that they are handed are kept, the latest first.

The main statement says that work of different phases never overlaps. It does not rest on the end of a
phase, which some performers report before they begin: a performer that works in a phase has not arrived at
the next start, so nobody is past it.
-/
namespace PhasedWorkload

open Barrier
open Participant (Reply)

variable {τ : Type}

inductive Cue where
  | askPhase
  | openTurn
  | askIteration
  /-- takes the next step; a jitter is added where it has to wait for a token -/
  | goOn (jitter : ℕ)
deriving DecidableEq, Repr

/-- Follows a cue; one that is not in order is passed over. -/
def Performer.follow (p : Performer τ) (w : World) : Cue → World × Performer τ × Option Report
  | .askPhase => if p.activity = .resting then (w, p.askPhase) else (w, p, none)
  | .openTurn => if p.activity = .resting then (w, p.openTurn w.now, none) else (w, p, none)
  | .askIteration => if p.activity = .resting then (w, p.askIteration) else (w, p, none)
  | .goOn jitter => p.step w jitter

inductive Incident where
  | replied (who : ℕ) (reply : Reply)
  | yielded (who phase : ℕ)
deriving DecidableEq, Repr

namespace Incident

/-- What a report to a performer is, with the phase of its turn. -/
def of (who : ℕ) (p : Performer τ) : Option Report → List Incident
  | some (.phase reply) => [.replied who reply]
  | some (.iteration .item) => (p.turn.map fun t => .yielded who t.phase).toList
  | _ => []

def reply? (who : ℕ) : Incident → Option Reply
  | .replied other reply => if other = who then some reply else none
  | _ => none

def item? : Incident → Option (ℕ × ℕ)
  | .yielded who phase => some (who, phase)
  | _ => none

end Incident

structure Troupe (τ : Type) where
  world : World
  performers : List (Performer τ)
  past : List Incident := []

namespace Troupe

inductive Action where
  | cue (who : ℕ) (cue : Cue)
  | tick (nanos : ℕ)
  | abort
deriving DecidableEq, Repr

def opening (s : Stage) (participants : List (Participant τ)) : Troupe τ where
  world := s.world
  performers := participants.map fun participant => { participant }

def record (t : Troupe τ) (who : ℕ) (r : World × Performer τ × Option Report) : Troupe τ where
  world := r.1
  performers := t.performers.set who r.2.1
  past := Incident.of who r.2.1 r.2.2 ++ t.past

def step (t : Troupe τ) : Action → Troupe τ
  | .cue who cue => t.performers[who]?.elim t fun p => t.record who (p.follow t.world cue)
  | .tick nanos => { t with world.now := t.world.now + nanos }
  | .abort => { t with world.barrier := t.world.barrier.abort }

def run (t : Troupe τ) (actions : List Action) : Troupe τ := actions.foldl step t

def currentPhase (t : Troupe τ) : ℕ := t.world.barrier.publishedPhase

/-- The replies that a performer got, in order. -/
def replies (t : Troupe τ) (who : ℕ) : List Reply := t.past.reverse.filterMap (Incident.reply? who)

/-- The items of all performers in order, each with the performer and the phase of its turn. -/
def items (t : Troupe τ) : List (ℕ × ℕ) := t.past.reverse.filterMap Incident.item?

end Troupe

/-! ## Following cues -/

namespace Performer

variable {k m i : ℕ} {places : List ℕ} {p : Performer τ} {w : World}

theorem isAdvancing_eq_false (h : p.activity = .resting) : p.isAdvancing = false := by
  simp [isAdvancing, h]

theorem precedes_follow (p : Performer τ) (w : World) (cue : Cue) :
    Precedes w.barrier (p.follow w cue).1.barrier := by
  cases cue with
  | goOn jitter => exact precedes_step p w jitter
  | askPhase | openTurn | askIteration =>
    simp only [follow]
    split <;> exact .refl w.barrier

theorem errored_follow (p : Performer τ) (w : World) (cue : Cue) :
    (p.follow w cue).1.barrier.errored = w.barrier.errored := by
  cases cue with
  | goOn jitter => exact errored_step p w jitter
  | askPhase | openTurn | askIteration =>
    simp only [follow]
    split <;> rfl

/-- Asks for the next phase, or goes on with that. -/
def Presses (p : Performer τ) : Cue → Prop
  | .askPhase => p.activity = .resting
  | .goOn _ => p.isAdvancing = true
  | _ => False

/-- A cue that is not about the next phase is about an iteration. -/
theorem iterates_follow {cue : Cue} (hact : p.isAdvancing = false) (hpress : ¬p.Presses cue) (w : World) :
    p.Iterates w (p.follow w cue) := by
  cases cue with
  | goOn jitter => exact iterates_step hact w jitter
  | askPhase =>
    have hrest : p.activity ≠ .resting := hpress
    rw [follow, if_neg hrest]
    exact iterates_same hact w
  | openTurn =>
    simp only [follow]
    split
    · exact iterates_openTurn hact w
    · exact iterates_same hact w
  | askIteration =>
    simp only [follow]
    split
    · exact iterates_askIteration p w
    · exact iterates_same hact w

/-- In the middle of a request for the next phase there is nothing to do but to go on. -/
theorem follow_advancing {cue : Cue} (hact : p.isAdvancing = true) (hpress : ¬p.Presses cue) (w : World) :
    p.follow w cue = (w, p, none) := by
  have hrest : p.activity ≠ .resting := fun h => by simp [isAdvancing, h] at hact
  cases cue with
  | goOn jitter => exact absurd hact hpress
  | askPhase | openTurn | askIteration => exact if_neg hrest

theorem Stands.follow (h : p.Stands w.barrier k m) (ht : Tally w.barrier places) (hk : places[i]? = some k)
    (cue : Cue) : p.KeepsOrder w places i m (p.follow w cue) := by
  have hsame : Tally w.barrier (places.set i k) := (set_same hk).symm ▸ ht
  by_cases hpress : p.Presses cue
  · cases cue with
    | goOn jitter => exact h.step ht hk jitter
    | askPhase =>
      have hrest : p.activity = .resting := hpress
      obtain ⟨hstands, hreport⟩ := h.askPhase (isAdvancing_eq_false hrest)
      rw [Performer.follow, if_pos hrest]
      exact ⟨k, m, hsame, hstands, fun _ => hreport⟩
    | openTurn | askIteration => exact hpress.elim
  · cases hact : p.isAdvancing with
    | true =>
      rw [follow_advancing hact hpress]
      exact ⟨k, m, hsame, h, fun _ => .nothing m _⟩
    | false => exact (iterates_follow hact hpress w).keepsOrder h hact ht hk

end Performer

/-! ## Runs -/

namespace Troupe

variable {t : Troupe τ} {s : Stage} {participants : List (Participant τ)} {places : List ℕ}

/-- So many phases were given, in order and from the first one on, and then it was said that the run is
over, if at all. -/
def Told (m : ℕ) (knows : Bool) (replies : List Reply) : Prop :=
  ∃ count, replies = (List.range m).map .phase ++ List.replicate count Reply.over ∧ (0 < count ↔ knows = true)

/-- Everybody agrees with its place and with the replies that it got, and the items come in the order of
their phases. -/
structure Ordered (t : Troupe τ) (places : List ℕ) : Prop where
  tally : Tally t.world.barrier places
  everybody : t.performers.length = places.length
  stands : ∀ i k p, places[i]? = some k → t.performers[i]? = some p →
    ∃ m, p.Stands t.world.barrier k m ∧
      (t.world.barrier.errored = false → Told m p.participant.finished (t.replies i))
  started : ∀ item ∈ t.items, item.2 < t.world.barrier.starts
  chronological : t.items.Pairwise fun earlier later => earlier.2 ≤ later.2

theorem Ordered.exists_place (h : t.Ordered places) {i : ℕ} {p : Performer τ} (hp : t.performers[i]? = some p) :
    ∃ k, places[i]? = some k := by
  obtain ⟨hi, _⟩ := List.getElem?_eq_some_iff.mp hp
  exact ⟨_, List.getElem?_eq_getElem (h.everybody ▸ hi)⟩

theorem Ordered.exists_performer (h : t.Ordered places) {i k : ℕ} (hk : places[i]? = some k) :
    ∃ p, t.performers[i]? = some p := by
  obtain ⟨hi, _⟩ := List.getElem?_eq_some_iff.mp hk
  exact ⟨_, List.getElem?_eq_getElem (h.everybody.symm ▸ hi)⟩

theorem ordered_opening (h : s.Enlisted participants) :
    (opening s participants).Ordered (List.replicate participants.length 0) := by
  refine ⟨?_, by simp [opening], ?_, by simp [opening, items], by simp [opening, items]⟩
  · change Tally s.barrier _
    rw [h.barrier]
    exact Tally.opening _ _
  · intro i k p hk hp
    simp only [opening, List.getElem?_map, Option.map_eq_some_iff] at hp
    obtain ⟨participant, hi, rfl⟩ := hp
    obtain rfl := List.eq_of_mem_replicate (List.mem_of_getElem? hk)
    have hshows := h.shows _ (List.mem_of_getElem? hi)
    refine ⟨0, Performer.stands_fresh hshows, fun _ => ⟨0, ?_, ?_⟩⟩
    · simp [opening, replies]
    · simp [hshows.2.2]

/-! ## What a report adds -/

def replyIn : Option Report → List Reply
  | some (.phase reply) => [reply]
  | _ => []

theorem reply?_of (who i : ℕ) (p : Performer τ) (report : Option Report) :
    (Incident.of who p report).reverse.filterMap (Incident.reply? i) = if i = who then replyIn report else [] := by
  rcases report with _ | reply | _ | _
  · simp [Incident.of, replyIn]
  · by_cases h : who = i <;> simp [Incident.of, Incident.reply?, replyIn, h, eq_comm]
  · cases hturn : p.turn <;> simp [Incident.of, Incident.reply?, replyIn, hturn]
  · simp [Incident.of, replyIn]

theorem item?_of (who : ℕ) (p : Performer τ) (report : Option Report) :
    (Incident.of who p report).reverse.filterMap Incident.item? = [] ∨
      ∃ turn, p.turn = some turn ∧
        (Incident.of who p report).reverse.filterMap Incident.item? = [(who, turn.phase)] := by
  rcases report with _ | reply | _ | _
  · exact .inl rfl
  · exact .inl rfl
  · cases hturn : p.turn with
    | none => simp [Incident.of, hturn]
    | some turn => exact .inr ⟨turn, rfl, by simp [Incident.of, hturn, Incident.item?]⟩
  · exact .inl rfl

theorem replies_record (t : Troupe τ) (who i : ℕ) (r : World × Performer τ × Option Report) :
    (t.record who r).replies i = t.replies i ++ if i = who then replyIn r.2.2 else [] := by
  rw [← reply?_of who i r.2.1 r.2.2]
  simp [replies, record]

theorem items_record (t : Troupe τ) (who : ℕ) (r : World × Performer τ × Option Report) :
    (t.record who r).items = t.items ∨
      ∃ turn, r.2.1.turn = some turn ∧ (t.record who r).items = t.items ++ [(who, turn.phase)] := by
  have hitems : (t.record who r).items =
      t.items ++ (Incident.of who r.2.1 r.2.2).reverse.filterMap Incident.item? := by
    simp [items, record]
  rw [hitems]
  rcases item?_of who r.2.1 r.2.2 with hnone | ⟨turn, hturn, hsome⟩
  · exact .inl (by rw [hnone, List.append_nil])
  · exact .inr ⟨turn, hturn, by rw [hsome]⟩

theorem Told.append {m m' : ℕ} {knows knows' : Bool} {old : List Reply} {report : Option Report}
    (h : Told m knows old) (hreport : Report.Says m knows m' knows' report) :
    Told m' knows' (old ++ replyIn report) := by
  obtain ⟨count, rfl, hover⟩ := h
  cases hreport with
  | nothing => exact ⟨count, by simp [replyIn], hover⟩
  | iteration => exact ⟨count, by simp [replyIn], hover⟩
  | phase =>
    have hcount : count = 0 := by simpa using hover
    exact ⟨0, by simp [hcount, replyIn, List.range_succ], by simp⟩
  | finished => exact ⟨count + 1, by simp [replyIn, List.replicate_succ'], by simp⟩

/-! ## Steps -/

theorem Ordered.started_record (h : t.Ordered places) (who : ℕ) {r : World × Performer τ × Option Report}
    (hv : Precedes t.world.barrier r.1.barrier) {k m : ℕ} (hstands : r.2.1.Stands r.1.barrier k m) :
    ∀ item ∈ (t.record who r).items, item.2 < r.1.barrier.starts := by
  have hstarted : ∀ item ∈ t.items, item.2 < r.1.barrier.starts := fun item hitem =>
    (h.started item hitem).trans_le hv.starts_le
  rcases items_record t who r with hsame | ⟨turn, hturn, hnew⟩
  · rw [hsame]
    exact hstarted
  · intro item hitem
    rw [hnew] at hitem
    rcases List.mem_append.mp hitem with hitem | hitem
    · exact hstarted item hitem
    · rw [List.mem_singleton.mp hitem]
      exact (hstands.turn turn hturn).1

/-- The start of the phase of an older item has been released, so the performer that is handed the new one has
arrived at it. -/
theorem Ordered.chronological_record (h : t.Ordered places) {who k m : ℕ} (hwho : who < places.length)
    {r : World × Performer τ × Option Report} (hv : Precedes t.world.barrier r.1.barrier)
    (ht : Tally r.1.barrier (places.set who k)) (hstands : r.2.1.Stands r.1.barrier k m) :
    (t.record who r).items.Pairwise fun earlier later => earlier.2 ≤ later.2 := by
  rcases items_record t who r with hsame | ⟨turn, hturn, hnew⟩
  · rw [hsame]
    exact h.chronological
  · rw [hnew]
    refine List.pairwise_append.mpr ⟨h.chronological, List.pairwise_singleton _ _, ?_⟩
    intro item hitem last hlast
    rw [List.mem_singleton.mp hlast]
    have hstarted : item.2 < r.1.barrier.starts := (h.started item hitem).trans_le hv.starts_le
    have hle : 2 * item.2 + 1 ≤ k := ht.le_of_lt_starts hstarted (List.mem_set hwho k)
    have hk := (hstands.turn turn hturn).2
    dsimp only
    omega

theorem Ordered.record (h : t.Ordered places) {who k k' m' : ℕ}
    (hk : places[who]? = some k) {r : World × Performer τ × Option Report}
    (hv : Precedes t.world.barrier r.1.barrier) (ht : Tally r.1.barrier (places.set who k'))
    (hstands : r.2.1.Stands r.1.barrier k' m') (htold : r.1.barrier.errored = false →
      Told m' r.2.1.participant.finished (t.replies who ++ replyIn r.2.2)) :
    (t.record who r).Ordered (places.set who k') := by
  obtain ⟨hi, _⟩ := List.getElem?_eq_some_iff.mp hk
  refine ⟨ht, by simp [Troupe.record, h.everybody], ?_, h.started_record who hv hstands,
    h.chronological_record hi hv ht hstands⟩
  simp only [replies_record]
  refine forall_set h.stands h.everybody hi ?_ ?_
  · rw [if_pos rfl]
    exact ⟨m', hstands, htold⟩
  · rintro i l q hne ⟨n, hq, hold⟩
    rw [if_neg hne, List.append_nil]
    exact ⟨n, hq.later hv, fun hb => hold (hv.alive hb)⟩

theorem Ordered.cue (h : t.Ordered places) (who : ℕ) (cue : Cue) :
    ∃ places', (t.step (.cue who cue)).Ordered places' := by
  cases hp : t.performers[who]? with
  | none => exact ⟨places, by simpa [step, hp] using h⟩
  | some p =>
    obtain ⟨k, hk⟩ := h.exists_place hp
    obtain ⟨m, hstands, htold⟩ := h.stands who k p hk hp
    obtain ⟨k', m', ht, hstands', hreport⟩ := hstands.follow h.tally hk cue
    have hv := p.precedes_follow t.world cue
    have hstep : t.step (.cue who cue) = t.record who (p.follow t.world cue) := by simp [step, hp]
    rw [hstep]
    refine ⟨places.set who k', h.record hk hv ht hstands' fun hb => ?_⟩
    exact (htold (hv.alive hb)).append (hreport (hv.alive hb))

theorem Ordered.tick (h : t.Ordered places) (nanos : ℕ) : (t.step (.tick nanos)).Ordered places :=
  ⟨h.tally, h.everybody, h.stands, h.started, h.chronological⟩

theorem Ordered.abort (h : t.Ordered places) : (t.step .abort).Ordered places := by
  refine ⟨h.tally.abort, h.everybody, fun i k p hk hp => ?_, h.started, h.chronological⟩
  obtain ⟨m, hstands, _⟩ := h.stands i k p hk hp
  exact ⟨m, hstands.later (precedes_abort t.world.barrier), nofun⟩

theorem Ordered.step (h : t.Ordered places) (a : Action) : ∃ places', (t.step a).Ordered places' := by
  cases a with
  | cue who cue => exact h.cue who cue
  | tick nanos => exact ⟨places, h.tick nanos⟩
  | abort => exact ⟨places, h.abort⟩

theorem Ordered.run (h : t.Ordered places) (actions : List Action) :
    ∃ places', (t.run actions).Ordered places' := by
  induction actions generalizing t places with
  | nil => exact ⟨places, h⟩
  | cons a actions ih =>
    obtain ⟨places', h'⟩ := h.step a
    exact ih h'

/-- Whatever the participants of a stage are configured to do, in whatever order they take their steps and
however many iterations they take of each phase: every item of a phase is handed out before every item of a
later phase. -/
theorem items_chronological (h : s.Enlisted participants) (actions : List Action) :
    ((opening s participants).run actions).items.Pairwise fun earlier later => earlier.2 ≤ later.2 := by
  obtain ⟨places, ho⟩ := (ordered_opening h).run actions
  exact ho.chronological

/-- The first participant works until the end of a phase and the second ends it after one iteration. Both
are handed an item, the second ends the phase, and then the first is handed another item of it. -/
theorem items_chronological_late :
    let participants := [Stage.soloist .untilPhaseEnd, Stage.soloist (.iterations 1)]
    let s : Stage := { plan := default, barrier := { required := 2 } }
    let go (who : ℕ) : Action := .cue who (.goOn 0)
    let item (who : ℕ) : List Action := [.cue who .askIteration, go who, go who, go who]
    let first := (opening s participants).run ([.cue 0 .askPhase, go 0, go 0, .cue 1 .askPhase, go 1, go 1, go 0, go 0,
      .cue 0 .openTurn, .cue 1 .openTurn] ++ item 0 ++ item 1 ++ [.cue 1 .askPhase, go 1])
    s.Enlisted participants ∧ first.currentPhase = 1 ∧ first.items = [(0, 0), (1, 0)] ∧
    (first.run (item 0)).items = [(0, 0), (1, 0), (0, 0)] ∧
    (first.run (item 0)).items.Pairwise fun earlier later => earlier.2 ≤ later.2 := by
  intro participants s go item first
  have hpair : s.Enlisted participants := Stage.enlisted_pair _ _ 0
  have hrun : first.run (item 0) = (opening s participants).run (_ ++ item 0) := List.foldl_append.symm
  refine ⟨hpair, by decide, by decide, by decide, ?_⟩
  rw [hrun]
  exact items_chronological hpair _

end Troupe

end PhasedWorkload
