import Mathlib.Algebra.Group.Nat.Defs
import Mathlib.Algebra.Group.Prod
import Mathlib.Data.List.Infix
import Mathlib.Data.List.Nodup
import PhasedWorkload.Proofs.Cells
import PhasedWorkload.Proofs.Telemetry.Collecting
import PhasedWorkload.Telemetry.Workshop

/-! # Every unit of work is counted once

A ledger keeps what the units of a workshop report, how each of them ended and what was added to them. A unit reports
when its owner gives it up, and whatever becomes of it afterwards it does not report again. So what was added is in
the reports and in the units that are still held. A collector that has missed nothing has recorded all reports, and
its rows hold together what the ledger holds.
-/
namespace PhasedWorkload.Telemetry

def Measure.amounts (m : Measure) : ℕ × ℕ := (m.documents, m.bytes)

def Event.isOperation (e : Event) : Bool := e.rowKey?.isSome

theorem Event.countIn_adds (e : Event) (row : Row) :
    (e.countIn row).completed = row.completed + (!e.hasFailed).toNat ∧
    (e.countIn row).failed = row.failed + e.hasFailed.toNat ∧
    (e.countIn row).measure.amounts = row.measure.amounts + e.measured.amounts := by
  unfold countIn
  cases e.hasFailed <;> exact ⟨rfl, rfl, rfl⟩

theorem WorkUnit.report_finish (u : WorkUnit) (ending : Ending) (now : ℕ) :
    (u.finish ending now).isOperation = true ∧ (u.finish ending now).measured.amounts = (u.documents, u.bytes) ∧
      (u.finish ending now).hasFailed = decide (ending ≠ .success) := by
  cases ending <;> exact ⟨rfl, rfl, rfl⟩

namespace OpenUnit

def amounts (u : OpenUnit) : ℕ × ℕ := (u.unit.documents, u.unit.bytes)

/-- What a unit reports from when its owner gives it up. -/
def farewell (u : OpenUnit) (ending : Ending) (now : ℕ) : List Event :=
  if ending = .dropped then u.release now
  else (u.report ending now).2 :: (u.report ending now).1.release now

theorem unit_foldl {f : OpenUnit → ℕ → OpenUnit} {g : WorkUnit → ℕ → WorkUnit}
    (h : ∀ u count, f u count = { u with unit := g u.unit count }) (counts : List ℕ) (u : OpenUnit) :
    counts.foldl f u = { u with unit := counts.foldl g u.unit } := by
  induction counts generalizing u with
  | nil => rfl
  | cons count counts ih => rw [List.foldl_cons, ih, h, List.foldl_cons]

/-- Work that is done in one go reports what its unit reports. -/
theorem farewell_work (o : Operation) (w : Work) (now : ℕ) :
    let documented := w.documents.foldl (fun u count => addDocuments count u) (begin o now)
    (w.bytes.foldl (fun u count => addBytes count u) documented).farewell w.ending now = [o.perform w now] := by
  intro documented
  have hdocumented : documented = _ :=
    unit_foldl (f := fun u count => addDocuments count u) (g := WorkUnit.addDocuments) (fun _ _ => rfl) w.documents _
  rw [unit_foldl (f := fun u count => addBytes count u) (g := WorkUnit.addBytes) (fun _ _ => rfl) w.bytes, hdocumented,
    farewell]
  split
  · next hdropped =>
    rw [Operation.perform, hdropped]
    rfl
  · rfl

end OpenUnit

namespace Hold

/-- Whether the owner has given the unit up. -/
def hasEnded : Hold → Bool
  | .held _ => false
  | .leaving _ | .gone => true

/-- Whether the flag of the unit tells if it has reported. -/
def isHonest : Hold → Bool
  | .held u => !u.hasReported
  | .leaving u => u.hasReported
  | .gone => true

/-- What was added to a unit that has not reported yet. -/
def amounts : Hold → ℕ × ℕ
  | .held u => u.amounts
  | .leaving _ | .gone => 0

theorem amounts_of_hasEnded {h : Hold} (hended : h.hasEnded = true) : h.amounts = 0 := by
  cases h with
  | held => exact absurd hended Bool.false_ne_true
  | leaving | gone => rfl

end Hold

namespace Workshop

variable {w : Workshop} {a : Act} {i : ℕ} {u : OpenUnit} {h : Hold}

def endings (w : Workshop) : Act → List (ℕ × Ending)
  | .finish i error _ => (w.held? i).toList.map fun _ => (i, .ofError error)
  | .drop i _ => (w.held? i).toList.map fun _ => (i, .dropped)
  | _ => []

def additions (w : Workshop) : Act → List (ℕ × ℕ)
  | .addDocuments i count => (w.held? i).toList.map fun _ => (count, 0)
  | .addBytes i count => (w.held? i).toList.map fun _ => (0, count)
  | _ => []

/-- What an act makes of the units, and what is reported, ended and added in it. -/
inductive Moves (w : Workshop) : List Hold → List (ℕ × Event) → List (ℕ × Ending) → List (ℕ × ℕ) → Prop where
  | stays : Moves w w.units [] [] []
  | starts (u : OpenUnit) (live : w.broadcast.isLive = true) (unreported : u.hasReported = false)
    (empty : u.amounts = 0) : Moves w (w.units ++ [.held u]) [] [] []
  | adds (i : ℕ) (u u' : OpenUnit) (amount : ℕ × ℕ) (held : w.units[i]? = some (.held u))
    (reported : u'.hasReported = u.hasReported) (amounts : u'.amounts = u.amounts + amount) :
    Moves w (w.units.set i (.held u')) [] [] [amount]
  | ends (i : ℕ) (u : OpenUnit) (ending : Ending) (now : ℕ) (h : Hold) (held : w.units[i]? = some (.held u))
    (ended : h.hasEnded = true) (honest : h.isHonest = true) :
    Moves w (w.units.set i h) [(i, u.unit.finish ending now)] [(i, ending)] []
  | leaves (i : ℕ) (u : OpenUnit) (leaving : w.units[i]? = some (.leaving u)) : Moves w (w.units.set i .gone) [] [] []

theorem held?_cases (w : Workshop) (i : ℕ) : (∃ u, w.units[i]? = some (.held u) ∧ w.held? i = some u) ∨
    (∀ u, w.units[i]? ≠ some (.held u)) ∧ w.held? i = none := by
  unfold held?
  split
  · next u hu => exact .inl ⟨u, hu, rfl⟩
  · next hnone => exact .inr ⟨hnone, rfl⟩

theorem modify_change {f : OpenUnit → OpenUnit} (hnone : ∀ u, w.units[i]? ≠ some (.held u)) :
    w.units.modify i (.change f) = w.units := by
  rw [List.modify_eq_set_getElem?]
  cases hi : w.units[i]? with
  | none => rfl
  | some h =>
    have hsame : h.change f = h := by
      cases h with
      | held u => exact absurd hi (hnone u)
      | leaving | gone => rfl
    rw [Option.map_eq_map, Option.map_some, hsame]
    obtain ⟨hlt, rfl⟩ := List.getElem?_eq_some_iff.mp hi
    exact List.set_getElem_self hlt

theorem set_change {f : OpenUnit → OpenUnit} (hu : w.units[i]? = some (.held u)) :
    w.units.modify i (.change f) = w.units.set i (.held (f u)) := by
  rw [List.modify_eq_set_getElem?, hu]
  rfl

theorem moves (hhonest : ∀ h ∈ w.units, h.isHonest = true) (a : Act) :
    w.Moves (w.unitsAfter a) (w.reports a) (w.endings a) (w.additions a) := by
  cases a with
  | start operation now =>
    simp only [unitsAfter]
    split
    · next hlive => exact .starts _ hlive rfl rfl
    · exact .stays
  | addDocuments i count =>
    rcases w.held?_cases i with ⟨u, hu, hheld⟩ | ⟨hnone, hheld⟩
    · simp only [unitsAfter, additions, hheld, set_change hu]
      exact .adds i u _ (count, 0) hu rfl rfl
    · simp only [unitsAfter, additions, hheld, modify_change hnone]
      exact .stays
  | addBytes i count =>
    rcases w.held?_cases i with ⟨u, hu, hheld⟩ | ⟨hnone, hheld⟩
    · simp only [unitsAfter, additions, hheld, set_change hu]
      exact .adds i u _ (0, count) hu rfl rfl
    · simp only [unitsAfter, additions, hheld, modify_change hnone]
      exact .stays
  | finish i error now =>
    rcases w.held?_cases i with ⟨u, hu, hheld⟩ | ⟨hnone, hheld⟩
    · simp only [unitsAfter, reports, endings, hheld]
      exact .ends i u _ now _ hu rfl rfl
    · simp only [unitsAfter, reports, endings, hheld]
      exact .stays
  | drop i now =>
    cases hi : w.units[i]? with
    | none =>
      have hsame : w.unitsAfter (.drop i now) = w.units := List.set_eq_of_length_le (List.getElem?_eq_none_iff.mp hi)
      simp only [hsame, reports, endings, held?, hi]
      exact .stays
    | some h =>
      have hflag := hhonest h (List.mem_of_getElem? hi)
      cases h with
      | held u =>
        have hrelease : u.release now = [u.unit.finish .dropped now] := if_neg (by simpa [Hold.isHonest] using hflag)
        simp only [reports, endings, held?, hi, Option.bind_some, Hold.unit?, hrelease, Option.toList_some,
          List.flatMap_singleton]
        exact .ends i u .dropped now .gone hi rfl rfl
      | leaving u =>
        have hrelease : u.release now = [] := if_pos hflag
        simp only [reports, endings, held?, hi, Option.bind_some, Hold.unit?, hrelease, Option.toList_some,
          List.flatMap_singleton]
        exact .leaves i u hi
      | gone =>
        have hsame : w.unitsAfter (.drop i now) = w.units := by
          obtain ⟨hlt, hget⟩ := List.getElem?_eq_some_iff.mp hi
          rw [unitsAfter, ← hget, List.set_getElem_self]
        simp only [hsame, reports, endings, held?, hi]
        exact .stays
  | bus act => exact .stays

/-! ## Who holds the bus -/

/-- Only the unit that is ended reports in an act, and it was held. -/
theorem Moves.reports {units : List Hold} {reports : List (ℕ × Event)} {endings : List (ℕ × Ending)}
    {additions : List (ℕ × ℕ)} (hm : w.Moves units reports endings additions) :
    reports = [] ∨ ∃ i u e, w.units[i]? = some (.held u) ∧ reports = [(i, e)] ∧ e.isOperation = true := by
  cases hm with
  | ends i u ending now h held => exact .inr ⟨i, u, _, held, rfl, (u.unit.report_finish ending now).1⟩
  | stays | starts | adds | leaves => exact .inl rfl

theorem isBorrowed_of_getElem? (hi : w.units[i]? = some h) (hunit : h.unit?.isSome = true) : w.isBorrowed = true :=
  List.any_eq_true.mpr ⟨h, List.mem_of_getElem? hi, hunit⟩

theorem Moves.isBorrowed {units : List Hold} {reports : List (ℕ × Event)} {endings : List (ℕ × Ending)}
    {additions : List (ℕ × ℕ)} (hm : w.Moves units reports endings additions)
    (hborrowed : units.any (fun h => h.unit?.isSome) = true) : w.isBorrowed = true ∨ w.broadcast.isLive = true := by
  obtain ⟨h, hmem, hunit⟩ := List.any_eq_true.mp hborrowed
  cases hm with
  | stays => exact .inl hborrowed
  | starts u live => exact .inr live
  | adds i u u' amount held => exact .inl (isBorrowed_of_getElem? held rfl)
  | ends i u ending now h held => exact .inl (isBorrowed_of_getElem? held rfl)
  | leaves i u leaving => exact .inl (isBorrowed_of_getElem? leaving rfl)

theorem isLive_step {b : Broadcast} {act : Broadcast.Act} (hact : act ≠ .letGo) (hlive : b.isLive = true) :
    (b.step act).isLive = true := by
  cases act with
  | letGo => exact absurd rfl hact
  | clone =>
    simp only [Broadcast.step, hlive]
    exact decide_eq_true (Nat.succ_pos _)
  | emit | spawn | collect | subscribe | read | unsubscribe =>
    simp only [Broadcast.step, Broadcast.spawn, Broadcast.collect]
    repeat' split
    all_goals exact hlive

theorem isLive_emits {b : Broadcast} (hlive : b.isLive = true) (events : List (ℕ × Event)) :
    ((events.map fun report => .emit report.2).foldl Broadcast.step b).isLive = true := by
  induction events generalizing b with
  | nil => exact hlive
  | cons e events ih => exact ih (isLive_step (by simp) hlive)

/-- The last clone is not let go while it is borrowed. -/
theorem dealings_bus (w : Workshop) (act : Broadcast.Act) : w.dealings (.bus act) = [] ∨
    w.dealings (.bus act) = [act] ∧ (act = .letGo → w.isBorrowed = true → 1 < w.broadcast.clones) := by
  cases act with
  | letGo =>
    simp only [dealings]
    split
    · exact .inl rfl
    · next hmore => exact .inr ⟨rfl, fun _ hborrowed => by simpa [hborrowed] using hmore⟩
  | emit | clone | spawn | collect | subscribe | read | unsubscribe => exact .inr ⟨rfl, nofun⟩

/-- As long as a unit borrows a clone of the bus, there is one. -/
theorem isLive_of_isBorrowed (hhonest : ∀ h ∈ w.units, h.isHonest = true)
    (hlive : w.isBorrowed = true → w.broadcast.isLive = true) (a : Act) (hborrowed : (w.step a).isBorrowed = true) :
    (w.step a).broadcast.isLive = true := by
  have hbefore : w.broadcast.isLive = true := ((moves hhonest a).isBorrowed hborrowed).elim hlive id
  cases a with
  | start | addDocuments | addBytes | finish | drop => exact isLive_emits hbefore _
  | bus act =>
    rw [step]
    rcases w.dealings_bus act with hnone | ⟨hone, hmore⟩
    · rw [hnone]
      exact hbefore
    · rw [hone]
      by_cases hact : act = .letGo
      · have hclones := hmore hact hborrowed
        subst hact
        simp only [List.foldl_cons, List.foldl_nil, Broadcast.step, Broadcast.letGo, if_pos hclones, Broadcast.isLive]
        exact decide_eq_true (Nat.sub_pos_of_lt hclones)
      · exact isLive_step hact hbefore

end Workshop

/-- A workshop, what the collector of its bus receives, and what the units of the workshop report, how they end and
what is added to them. -/
structure Ledger where
  workshop : Workshop
  reception : Reception
  published : List (ℕ × Event) := []
  endings : List (ℕ × Ending) := []
  added : List (ℕ × ℕ) := []

namespace Ledger

open Workshop

def step (l : Ledger) (a : Act) : Ledger where
  workshop := l.workshop.step a
  reception := l.reception.run (l.workshop.dealings a)
  published := l.published ++ l.workshop.reports a
  endings := l.endings ++ l.workshop.endings a
  added := l.added ++ l.workshop.additions a

def run (l : Ledger) (acts : List Act) : Ledger := acts.foldl step l

def opened (capacity : ℕ) : Ledger := { workshop := .opened capacity, reception := .opened capacity }

variable {l : Ledger} {a : Act} {acts : List Act} {capacity : ℕ}

theorem workshop_run (l : Ledger) (acts : List Act) : (l.run acts).workshop = acts.foldl Workshop.step l.workshop := by
  induction acts generalizing l with
  | nil => rfl
  | cons a acts ih => exact ih (l.step a)

/-! ## The balance -/

/-- The units that have ended are those that have reported, each once. What was added is in their reports and in the
units that are held. -/
structure Balanced (l : Ledger) : Prop where
  honest : ∀ h ∈ l.workshop.units, h.isHonest = true
  once : (l.published.map Prod.fst).Nodup
  ended : ∀ i, i ∈ l.published.map Prod.fst ↔ l.workshop.units[i]?.any Hold.hasEnded = true
  endings : (l.published.map fun p => (p.1, p.2.hasFailed)) = l.endings.map fun e => (e.1, decide (e.2 ≠ .success))
  amounts : (l.published.map fun p => p.2.measured.amounts).sum + (l.workshop.units.map Hold.amounts).sum = l.added.sum

theorem any_set {units : List Hold} {i j : ℕ} {h h' : Hold} (f : Hold → Bool) (hi : units[i]? = some h) :
    (units.set i h')[j]?.any f = if j = i then f h' else units[j]?.any f := by
  obtain ⟨hlt, _⟩ := List.getElem?_eq_some_iff.mp hi
  by_cases hj : j = i
  · rw [hj, List.getElem?_set_self hlt, if_pos rfl, Option.any_some]
  · rw [List.getElem?_set_ne (Ne.symm hj), if_neg hj]

theorem honest_set {units : List Hold} {i : ℕ} {h : Hold} (hhonest : ∀ h ∈ units, h.isHonest = true)
    (hh : h.isHonest = true) : ∀ h' ∈ units.set i h, h'.isHonest = true := by
  intro h' hmem
  rcases List.mem_or_eq_of_mem_set hmem with hmem | rfl
  · exact hhonest h' hmem
  · exact hh

/-- Where no unit ends, nothing is reported. -/
theorem Balanced.quiet (h : l.Balanced) {units : List Hold} {additions : List (ℕ × ℕ)} {broadcast : Broadcast}
    {reception : Reception} (honest : ∀ h ∈ units, h.isHonest = true)
    (ended : ∀ i : ℕ, units[i]?.any Hold.hasEnded = l.workshop.units[i]?.any Hold.hasEnded)
    (amounts : (units.map Hold.amounts).sum = (l.workshop.units.map Hold.amounts).sum + additions.sum) :
    Balanced ⟨⟨broadcast, units⟩, reception, l.published ++ [], l.endings ++ [], l.added ++ additions⟩ := by
  simp only [List.append_nil]
  refine ⟨honest, h.once, ?_, h.endings, ?_⟩
  · intro i
    rw [ended]
    exact h.ended i
  · dsimp only
    rw [amounts, ← add_assoc, h.amounts, List.sum_append]

theorem Balanced.moves (h : l.Balanced) {units : List Hold} {reports : List (ℕ × Event)} {endings : List (ℕ × Ending)}
    {additions : List (ℕ × ℕ)} (hm : l.workshop.Moves units reports endings additions) (broadcast : Broadcast)
    (reception : Reception) : Balanced ⟨⟨broadcast, units⟩, reception, l.published ++ reports, l.endings ++ endings,
      l.added ++ additions⟩ := by
  cases hm with
  | stays => exact h.quiet h.honest (fun _ => rfl) (add_zero _).symm
  | starts u live unreported empty =>
    refine h.quiet ?_ ?_ ?_
    · intro h' hmem
      rcases List.mem_append.mp hmem with hmem | hmem
      · exact h.honest h' hmem
      · rw [List.mem_singleton.mp hmem, Hold.isHonest, unreported]
        rfl
    · intro i
      rw [List.getElem?_append]
      split
      · rfl
      · next hge =>
        rw [List.getElem?_eq_none (Nat.le_of_not_lt hge)]
        cases i - l.workshop.units.length <;> rfl
    · simp [Hold.amounts, empty]
  | adds i u u' amount held reported amounts =>
    have hhonest := h.honest _ (List.mem_of_getElem? held)
    refine h.quiet (honest_set h.honest ?_) ?_ ?_
    · rw [Hold.isHonest, reported]
      exact hhonest
    · intro j
      rw [any_set _ held]
      split
      · next hj =>
        rw [hj, held]
        rfl
      · rfl
    · have hsum := sum_map_set (b := Hold.held u') Hold.amounts held
      simp only [Hold.amounts, amounts] at hsum
      rw [List.sum_singleton]
      exact add_right_cancel (hsum.trans (by ac_rfl))
  | ends i u ending now left held ended honest =>
    obtain ⟨_, hmeasured, hfailed⟩ := u.unit.report_finish ending now
    have hfirst : i ∉ l.published.map Prod.fst := by
      rw [h.ended, held]
      exact Bool.false_ne_true
    constructor
    · exact honest_set h.honest honest
    · rw [List.map_append, List.nodup_append]
      refine ⟨h.once, List.nodup_singleton _, ?_⟩
      rintro j hj _ hi rfl
      obtain rfl : j = i := List.mem_singleton.mp hi
      exact hfirst hj
    · intro j
      rw [any_set _ held, List.map_append, List.mem_append, h.ended, List.map_singleton, List.mem_singleton]
      split
      · next hj => simp [hj, ended]
      · next hj => simp [hj]
    · simp only [List.map_append, h.endings, List.map_singleton, hfailed]
    · have hsum := sum_map_set (b := left) Hold.amounts held
      rw [Hold.amounts_of_hasEnded ended, add_zero] at hsum
      rw [List.map_append, List.sum_append, List.map_singleton, List.sum_singleton, hmeasured, List.append_nil,
        ← h.amounts, ← hsum]
      simp only [Hold.amounts, OpenUnit.amounts]
      ac_rfl
  | leaves i u leaving =>
    refine h.quiet (honest_set h.honest rfl) ?_ ?_
    · intro j
      rw [any_set _ leaving]
      split
      · next hj =>
        rw [hj, leaving]
        rfl
      · rfl
    · have hsum := sum_map_set (b := Hold.gone) Hold.amounts leaving
      exact hsum

/-! ## The bus of the workshop -/

structure Sound (capacity : ℕ) (l : Ledger) : Prop where
  balanced : l.Balanced
  same : l.reception.broadcast = l.workshop.broadcast
  receives : l.reception.Sound capacity
  lives : l.workshop.isBorrowed = true → l.workshop.broadcast.isLive = true

theorem sound_opened (capacity : ℕ) : (opened capacity).Sound (Bus.roundedCapacity capacity) where
  balanced := by
    refine ⟨?_, List.nodup_nil, ?_, rfl, rfl⟩
    · intro h hmem
      exact absurd hmem List.not_mem_nil
    · intro i
      exact ⟨fun hmem => absurd hmem List.not_mem_nil, fun hany => absurd hany Bool.false_ne_true⟩
  same := rfl
  receives := Reception.sound_opened capacity
  lives := fun _ => rfl

theorem Sound.step (h : l.Sound capacity) (a : Act) : (l.step a).Sound capacity where
  balanced := h.balanced.moves (moves h.balanced.honest a) _ _
  same := by
    rw [Ledger.step, Reception.broadcast_run, h.same]
    rfl
  receives := h.receives.run _
  lives := isLive_of_isBorrowed h.balanced.honest h.lives a

theorem Sound.run (h : l.Sound capacity) (acts : List Act) : (l.run acts).Sound capacity := by
  induction acts generalizing l with
  | nil => exact h
  | cons a acts ih => exact ih (h.step a)

/-! ## What the collector records -/

theorem emitted_step (r : Reception) (act : Broadcast.Act) (others : ∀ e, act = .emit e → e.isOperation = false) :
    (r.step act).emitted.filter Event.isOperation = r.emitted.filter Event.isOperation := by
  have hquiet : (r.broadcast.emissions act).filter Event.isOperation = [] := by
    unfold Broadcast.emissions
    split
    · next e =>
      split
      · simp [others e rfl]
      · rfl
    · rfl
  simp only [Reception.step]
  split
  · rw [List.filter_append, hquiet, List.append_nil]
  · rfl

/-- What the units report is emitted, and it is all that is emitted of operations. -/
theorem Sound.emitted_step (h : l.Sound capacity)
    (attended : l.workshop.units ≠ [] → l.workshop.broadcast.collector.isSome = true)
    (others : ∀ e, a = .bus (.emit e) → e.isOperation = false) :
    (l.step a).reception.emitted.filter Event.isOperation =
      l.reception.emitted.filter Event.isOperation ++ (l.workshop.reports a).map Prod.snd := by
  have hreports := (moves h.balanced.honest a).reports
  have hemits : ((l.reception.run ((l.workshop.reports a).map fun report => .emit report.2)).emitted.filter
      Event.isOperation) = l.reception.emitted.filter Event.isOperation ++ (l.workshop.reports a).map Prod.snd := by
    rcases hreports with hnone | ⟨i, u, e, held, hone, hoperation⟩
    · rw [hnone]
      exact (List.append_nil _).symm
    · have hlive : l.reception.broadcast.isLive = true := by
        rw [h.same]
        exact h.lives (isBorrowed_of_getElem? held rfl)
      have hcollector : l.reception.broadcast.collector.isSome = true := by
        rw [h.same]
        exact attended (List.ne_nil_of_mem (List.mem_of_getElem? held))
      have hemissions := Broadcast.emissions_emit hlive e
      rw [hone]
      simp only [List.map_singleton, Reception.run, List.foldl_cons, List.foldl_nil, Reception.step, hcollector,
        hemissions]
      simp [hoperation]
  cases a with
  | start | addDocuments | addBytes | finish | drop => exact hemits
  | bus act =>
    have hsame : (l.workshop.reports (.bus act)).map Prod.snd = [] := rfl
    rw [hsame, List.append_nil]
    have hstep := Ledger.emitted_step l.reception act fun e he => others e (congrArg Act.bus he)
    rw [Ledger.step]
    rcases l.workshop.dealings_bus act with hnone | ⟨hone, _⟩
    · rw [hnone]
      rfl
    · rw [hone]
      exact hstep

theorem Sound.emitted_run (h : l.Sound capacity) (hemitted : l.reception.emitted.filter Event.isOperation =
      l.published.map Prod.snd)
    (attended : ∀ past, past <+: acts → (l.run past).workshop.units ≠ [] →
      (l.run past).workshop.broadcast.collector.isSome = true)
    (others : ∀ e, .bus (.emit e) ∈ acts → e.isOperation = false) :
    (l.run acts).reception.emitted.filter Event.isOperation = (l.run acts).published.map Prod.snd := by
  induction acts generalizing l with
  | nil => exact hemitted
  | cons a acts ih =>
    refine ih (h.step a) ?_ ?_ ?_
    · rw [h.emitted_step (attended [] List.nil_prefix) fun e he => others e (he ▸ List.mem_cons_self), hemitted]
      exact (List.map_append ..).symm
    · intro past hpast
      exact attended (a :: past) (List.cons_prefix_cons.mpr ⟨rfl, hpast⟩)
    · intro e he
      exact others e (List.mem_cons_of_mem _ he)

/-- When the last clone of the bus is gone, no unit is held any more. -/
theorem Sound.all_ended (h : l.Sound capacity) (hgone : l.workshop.broadcast.clones = 0) :
    ∀ hold ∈ l.workshop.units, hold.hasEnded = true := by
  intro hold hmem
  cases hold with
  | held u =>
    have hlive := h.lives (List.any_eq_true.mpr ⟨_, hmem, rfl⟩)
    simp [Broadcast.isLive, hgone] at hlive
  | leaving | gone => rfl

theorem Sound.perm_range (h : l.Sound capacity) (hgone : l.workshop.broadcast.clones = 0) :
    (l.published.map Prod.fst).Perm (List.range l.workshop.units.length) := by
  apply (List.perm_ext_iff_of_nodup h.balanced.once List.nodup_range).mpr
  intro i
  rw [h.balanced.ended, List.mem_range]
  constructor
  · intro hended
    by_contra hout
    rw [List.getElem?_eq_none (Nat.le_of_not_lt hout)] at hended
    exact Bool.false_ne_true hended
  · intro hlt
    rw [List.getElem?_eq_getElem hlt, Option.any_some]
    exact h.all_ended hgone _ (List.getElem_mem hlt)

theorem Sound.sum_published (h : l.Sound capacity) (hgone : l.workshop.broadcast.clones = 0) :
    (l.published.map fun p => p.2.measured.amounts).sum = l.added.sum := by
  have hnothing : (l.workshop.units.map Hold.amounts).sum = 0 := by
    apply List.sum_eq_zero
    intro amount hmem
    obtain ⟨hold, hhold, rfl⟩ := List.mem_map.mp hmem
    exact Hold.amounts_of_hasEnded (h.all_ended hgone hold hhold)
  rw [← h.balanced.amounts, hnothing]
  rfl

theorem sum_toNat {α : Type} (f : α → Bool) (items : List α) :
    (items.map fun a => (f a).toNat).sum = items.countP f := by
  induction items with
  | nil => rfl
  | cons a items ih => cases ha : f a <;> simp [ha, ih, Nat.add_comm]

theorem sum_rows {M : Type} [AddCommMonoid M] {f : Row → M} {g : Event → M} {s : Summary} {events : List Event}
    (hempty : f {} = 0) (hcount : ∀ e row, f (e.countIn row) = f row + g e)
    (hrows : s.rows = (Summary.ofEvents events).rows)
    (hevents : events.filter Event.isOperation = l.published.map Prod.snd) :
    (s.rows.map fun r => f r.2).sum = (l.published.map fun p => g p.2).sum := by
  have hmap : l.published.map (fun p => g p.2) = (l.published.map Prod.snd).map g := by
    rw [List.map_map]
    rfl
  rw [hrows, Summary.sum_rows_ofEvents hempty hcount, hmap, ← hevents]
  rfl

theorem Balanced.count_endings (h : l.Balanced) (g : Bool → Bool) :
    (l.published.map fun p => (g p.2.hasFailed).toNat).sum =
      l.endings.countP fun e => g (decide (e.2 ≠ .success)) := by
  have hboth := congrArg (List.map fun p : ℕ × Bool => (g p.2).toNat) h.endings
  rw [List.map_map, List.map_map] at hboth
  rw [← sum_toNat]
  exact congrArg List.sum hboth

/-- Rows that hold all reports hold together what the units did. -/
theorem Balanced.rows (h : l.Balanced) {s : Summary} {events : List Event}
    (hrows : s.rows = (Summary.ofEvents events).rows)
    (hevents : events.filter Event.isOperation = l.published.map Prod.snd) :
    s.totalCompleted = l.endings.countP (fun e => e.2 = .success) ∧
    s.totalFailed = l.endings.countP (fun e => e.2 ≠ .success) ∧
    (s.rows.map fun r => r.2.measure.amounts).sum = (l.published.map fun p => p.2.measured.amounts).sum := by
  have hcompleted := sum_rows (f := Row.completed) rfl (fun e row => (e.countIn_adds row).1) hrows hevents
  have hfailed := sum_rows (f := Row.failed) rfl (fun e row => (e.countIn_adds row).2.1) hrows hevents
  have hamounts :=
    sum_rows (f := fun row => row.measure.amounts) rfl (fun e row => (e.countIn_adds row).2.2) hrows hevents
  obtain ⟨htotal, htotal'⟩ := s.totals
  refine ⟨?_, ?_, hamounts⟩
  · rw [htotal, hcompleted, h.count_endings Bool.not]
    simp
  · rw [htotal', hfailed]
    exact h.count_endings id

/-- Whatever the order of the acts on the units and on the bus: every unit that has ended has reported once, no other
has reported, and these reports are all that is emitted of operations. When a collector that was there from the first
unit on has finished and missed nothing, all units have ended. It has counted as completed those that ended in success
and as failed all others, and its rows hold together the documents and bytes that were added to them. -/
theorem every_unit_once (capacity : ℕ) (acts : List Act) (others : ∀ e, .bus (.emit e) ∈ acts → e.isOperation = false)
    (attended : ∀ past, past <+: acts → ((opened capacity).run past).workshop.units ≠ [] →
      ((opened capacity).run past).workshop.broadcast.collector.isSome = true) :
    let l := (opened capacity).run acts
    l.workshop = acts.foldl Workshop.step (.opened capacity) ∧ l.reception.broadcast = l.workshop.broadcast ∧
    l.reception.emitted.filter Event.isOperation = l.published.map Prod.snd ∧
    (l.published.map Prod.fst).Nodup ∧
    (∀ i, i ∈ l.published.map Prod.fst ↔ l.workshop.units[i]?.any Hold.hasEnded = true) ∧
    l.endings.map Prod.fst = l.published.map Prod.fst ∧
    ∀ c, l.workshop.broadcast.collector = some c → c.hasFinished = true → c.summary.lagged = 0 →
      (l.published.map Prod.fst).Perm (List.range l.workshop.units.length) ∧
      c.summary.totalCompleted = l.endings.countP (fun e => e.2 = .success) ∧
      c.summary.totalFailed = l.endings.countP (fun e => e.2 ≠ .success) ∧
      (c.summary.rows.map fun r => r.2.measure.amounts).sum = l.added.sum := by
  intro l
  have h : l.Sound (Bus.roundedCapacity capacity) := (sound_opened capacity).run acts
  have hemitted := (sound_opened capacity).emitted_run rfl attended others
  refine ⟨workshop_run _ _, h.same, hemitted, h.balanced.once, h.balanced.ended, ?_, ?_⟩
  · have hboth := congrArg (List.map Prod.fst) h.balanced.endings
    rw [List.map_map, List.map_map] at hboth
    exact hboth.symm
  · intro c hcollector hfinished hlagged
    obtain ⟨hgone, hrows⟩ := h.receives.rows_of_finished (h.same ▸ hcollector) hfinished hlagged
    obtain ⟨hcompleted, hfailed, hsum⟩ := h.balanced.rows hrows hemitted
    have hgone : l.workshop.broadcast.clones = 0 := h.same ▸ hgone
    exact ⟨h.perm_range hgone, hcompleted, hfailed, hsum.trans (h.sum_published hgone)⟩

/-- Three units are open at a time: the first succeeds, the second fails, and the third is dropped. -/
def crossing : List Act :=
  let reader : Operation := ⟨"Reader", 0, "Read"⟩
  [.bus .spawn, .bus (.emit (.actorStarted "Reader" 0)), .start reader 0, .start ⟨"Writer", 1, "Write"⟩ 1000,
    .addDocuments 0 3, .start reader 2000, .addBytes 1 10, .finish 1 (some "disk full") 3000, .addDocuments 2 5,
    .finish 0 none 4000, .drop 1 4000, .bus .letGo, .bus .collect, .drop 2 5000, .drop 0 5000, .bus .letGo,
    .bus .collect, .bus .collect, .bus .collect, .bus .collect]

theorem every_unit_once_crossing :
    ∃ c, ((opened 3).run crossing).workshop.broadcast.collector = some c ∧ c.hasFinished = true ∧
      c.summary.totalCompleted = 1 ∧ c.summary.totalFailed = 2 ∧
      (c.summary.rows.map fun r => r.2.measure.amounts).sum = (8, 10) := by
  have others : ∀ e, .bus (.emit e) ∈ crossing → e.isOperation = false := by
    intro e he
    obtain rfl : e = .actorStarted "Reader" 0 := by simpa [crossing] using he
    rfl
  have attended : ∀ past ∈ crossing.inits, ((opened 3).run past).workshop.units ≠ [] →
      ((opened 3).run past).workshop.broadcast.collector.isSome = true := by decide +kernel
  obtain ⟨_, _, _, _, _, _, hcounts⟩ :=
    every_unit_once 3 crossing others fun past hpast => attended past ((List.mem_inits past crossing).mpr hpast)
  have hend : ((opened 3).run crossing).workshop.broadcast.collector.any (fun c =>
      c.hasFinished && c.summary.lagged == 0) = true := by decide +kernel
  have hledger : ((opened 3).run crossing).endings = [(1, .failure "disk full"), (0, .success), (2, .dropped)] ∧
      ((opened 3).run crossing).added.sum = (8, 10) := by decide +kernel
  obtain ⟨c, hcollector, hc⟩ := (Option.any_eq_true _ _).mp hend
  rw [Bool.and_eq_true, beq_iff_eq] at hc
  obtain ⟨_, hcompleted, hfailed, hsum⟩ := hcounts c hcollector hc.1 hc.2
  rw [hledger.1] at hcompleted hfailed
  exact ⟨c, hcollector, hc.1, hcompleted, hfailed, hsum.trans hledger.2⟩

end Ledger

end PhasedWorkload.Telemetry
