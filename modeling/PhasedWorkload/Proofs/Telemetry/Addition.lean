import Mathlib.Data.List.Basic
import Mathlib.Data.List.Perm.Basic
import PhasedWorkload.Proofs.Telemetry.Rows

/-! # Summaries add up

Events come from many threads, in whatever order these are scheduled. To record an event is to add what it counts
for by itself: the rows of one key are added, and so are the counts of actors. This addition is associative, so the
summary of two sequences, one after the other, is the sum of theirs. But for the reason of an abort it is
commutative too, so the counts are the same in every order. The reason is that of the first abort.
-/
namespace PhasedWorkload.Telemetry

open Keyed

def Event.abortReason? : Event → Option String
  | .runAborted reason => some reason
  | _ => none

namespace Row

def add (r r' : Row) : Row where
  completed := r.completed + r'.completed
  failed := r.failed + r'.failed
  measure := r.measure.add r'.measure

theorem empty_add (r : Row) : add {} r = r := by
  simp [add, Measure.add]

instance : Std.Associative add where
  assoc r r' r'' := by simp [add, Measure.add, Nat.add_assoc]

instance : Std.Commutative add where
  comm r r' := by simp [add, Measure.add, Nat.add_comm]

/-- The row of one operation. -/
def ofOperation (e : Event) : Row where
  completed := (!e.hasFailed).toNat
  failed := e.hasFailed.toNat
  measure := e.measured

theorem add_ofOperation (r : Row) (e : Event) : r.add (ofOperation e) = e.countIn r := by
  cases he : e.hasFailed <;> simp [Event.countIn, he, ofOperation, add, addFailed, addCompleted]

end Row

namespace Summary

variable {events events' : List Event} {rows rows' more : List (String × Row)} {s s' s'' : Summary}

/-! ## Addition of rows -/

theorem InOrder.lookup_eq_some_iff (h : InOrder rows) {k : String} {row : Row} :
    rows.lookup k = some row ↔ (k, row) ∈ rows := by
  refine ⟨mem_of_lookup, fun hmem => ?_⟩
  induction rows with
  | nil => exact absurd hmem List.not_mem_nil
  | cons first rest ih =>
    obtain ⟨hfirst, hrest⟩ := List.pairwise_cons.mp h
    rw [lookup_cons]
    rcases List.mem_cons.mp hmem with rfl | hmem
    · exact if_pos rfl
    · rw [if_neg (hfirst _ hmem).ne']
      exact ih hrest hmem

/-- Rows in order are known by what is found under each key. -/
theorem InOrder.eq_of_lookup (h : InOrder rows) (h' : InOrder rows') (hlookup : ∀ k, rows.lookup k = rows'.lookup k) :
    rows = rows' := by
  have hnodup : ∀ {rows}, InOrder rows → rows.Nodup := fun h => h.imp fun hlt heq => hlt.ne (congrArg Prod.fst heq)
  have hperm : rows.Perm rows' := by
    refine (List.perm_ext_iff_of_nodup (hnodup h) (hnodup h')).mpr fun r => ?_
    rw [← h.lookup_eq_some_iff, ← h'.lookup_eq_some_iff, hlookup]
  exact hperm.eq_of_pairwise (fun _ _ _ _ hlt hgt => absurd hlt hgt.not_gt) h h'

/-- Adds each row to the one of the same key. -/
def addRows (rows more : List (String × Row)) : List (String × Row) :=
  more.foldl (fun rows r => updateRow r.1 (fun row => row.add r.2) rows) rows

theorem InOrder.addRows (h : InOrder rows) (more : List (String × Row)) : InOrder (addRows rows more) := by
  induction more generalizing rows with
  | nil => exact h
  | cons first rest ih => exact ih (h.updateRow first.1 _)

theorem lookup_addRows (h : InOrder rows) (hmore : InOrder more) (k : String) :
    (addRows rows more).lookup k = Option.merge Row.add (rows.lookup k) (more.lookup k) := by
  induction more generalizing rows with
  | nil => exact Option.merge_none_right.symm
  | cons first rest ih =>
    obtain ⟨hfirst, hrest⟩ := List.pairwise_cons.mp hmore
    have hadded : (addRows rows (first :: rest)).lookup k = Option.merge Row.add
        ((updateRow first.1 (fun row => row.add first.2) rows).lookup k) (rest.lookup k) :=
      ih (h.updateRow first.1 _) hrest
    rw [hadded, lookup_updateRow h, lookup_cons]
    by_cases hk : k = first.1
    -- No later row has this key, so the first one is added to what was there.
    · have hnone : rest.lookup k = none := lookup_eq_none fun r hr => hk ▸ (hfirst r hr).ne'
      rw [if_pos hk, if_pos hk, hnone]
      cases rows.lookup k with
      | none => exact congrArg some (Row.empty_add first.2)
      | some row => rfl
    · rw [if_neg hk, if_neg hk]

theorem addRows_comm (h : InOrder rows) (h' : InOrder rows') : addRows rows rows' = addRows rows' rows := by
  refine (h.addRows rows').eq_of_lookup (h'.addRows rows) fun k => ?_
  rw [lookup_addRows h h', lookup_addRows h' h]
  exact Std.Commutative.comm ..

theorem addRows_assoc (h : InOrder rows) (h' : InOrder rows') (hmore : InOrder more) :
    addRows (addRows rows rows') more = addRows rows (addRows rows' more) := by
  refine ((h.addRows rows').addRows more).eq_of_lookup (h.addRows _) fun k => ?_
  rw [lookup_addRows (h.addRows rows') hmore, lookup_addRows h h', lookup_addRows h (h'.addRows more),
    lookup_addRows h' hmore]
  exact Std.Associative.assoc ..

theorem sum_addRows {M : Type} [AddCommMonoid M] {f : Row → M} (hempty : f {} = 0)
    (hadd : ∀ r r', f (Row.add r r') = f r + f r') (rows more : List (String × Row)) :
    ((addRows rows more).map fun r => f r.2).sum =
      (rows.map fun r => f r.2).sum + (more.map fun r => f r.2).sum := by
  induction more generalizing rows with
  | nil => exact (add_zero _).symm
  | cons first rest ih =>
    have hfirst := sum_updateRow hempty (fun row => hadd row first.2) first.1 rows
    calc
      _ = ((updateRow first.1 (fun row => row.add first.2) rows).map fun r => f r.2).sum +
          (rest.map fun r => f r.2).sum := ih _
      _ = (rows.map fun r => f r.2).sum + (f first.2 + (rest.map fun r => f r.2).sum) := by
        rw [hfirst, add_assoc]
      _ = _ := by rw [List.map_cons, List.sum_cons]

/-! ## Addition of summaries -/

/-- The summary of two parts of a run, the second after the first. -/
def add (s s' : Summary) : Summary where
  rows := addRows s.rows s'.rows
  actorsStarted := s.actorsStarted + s'.actorsStarted
  actorsFailed := s.actorsFailed + s'.actorsFailed
  lagged := s.lagged + s'.lagged
  aborted := s.aborted.or s'.aborted

/-- Everything but the reason of an abort. -/
def counts (s : Summary) : Summary := { s with aborted := none }

theorem add_empty (s : Summary) : s.add {} = s := by
  simp [add, addRows]

theorem empty_add (h : InOrder s.rows) : add {} s = s := by
  have hrows : addRows [] s.rows = s.rows := addRows_comm List.Pairwise.nil h
  simp [add, hrows]

protected theorem add_assoc (h : InOrder s.rows) (h' : InOrder s'.rows) (h'' : InOrder s''.rows) :
    (s.add s').add s'' = s.add (s'.add s'') := by
  simp only [add, addRows_assoc h h' h'', Nat.add_assoc, Option.or_assoc]

theorem counts_add (s s' : Summary) : (s.add s').counts = s.counts.add s'.counts := rfl

theorem counts_add_comm (h : InOrder s.rows) (h' : InOrder s'.rows) : (s.add s').counts = (s'.add s).counts := by
  simp only [counts, add, addRows_comm h h', Nat.add_comm]

theorem totals_add (s s' : Summary) : (s.add s').totalCompleted = s.totalCompleted + s'.totalCompleted ∧
    (s.add s').totalFailed = s.totalFailed + s'.totalFailed := by
  simp only [(totals _).1, (totals _).2]
  exact ⟨sum_addRows rfl (fun _ _ => rfl) s.rows s'.rows, sum_addRows rfl (fun _ _ => rfl) s.rows s'.rows⟩

/-! ## Events -/

/-- What an event counts for by itself. -/
def ofEvent (e : Event) : Summary where
  rows := (e.rowKey?.map fun key => (key, Row.ofOperation e)).toList
  actorsStarted := e.isStart.toNat
  actorsFailed := e.isLoss.toNat
  aborted := e.abortReason?

theorem inOrder_ofEvent (e : Event) : InOrder (ofEvent e).rows := by
  rw [ofEvent]
  cases e.rowKey? with
  | none => exact List.Pairwise.nil
  | some key => exact List.pairwise_singleton _ _

theorem record_eq_add (s : Summary) (e : Event) : s.record e = s.add (ofEvent e) := by
  have hrows : (s.record e).rows = addRows s.rows (ofEvent e).rows := by
    rw [rows_record, ofEvent]
    cases e.rowKey? with
    | none => rfl
    | some key => exact congrArg (updateRow key · s.rows) (funext fun row => (row.add_ofOperation e).symm)
  have haborted : (s.record e).aborted = s.aborted.or (ofEvent e).aborted := by
    cases e with
    | runAborted reason => rfl
    | actorFinished _ _ success => cases success <;> exact Option.or_none.symm
    | actorStarted | operationCompleted | operationFailed | error => exact Option.or_none.symm
  rw [add, ← hrows, ← haborted]
  cases e with
  | actorFinished _ _ success => cases success <;> rfl
  | actorStarted | operationCompleted | operationFailed | runAborted | error => rfl

theorem ofEvents_singleton (e : Event) : ofEvents [e] = ofEvent e :=
  (record_eq_add {} e).trans (empty_add (inOrder_ofEvent e))

/-- What is recorded after a summary is added to it. -/
theorem foldl_record (h : InOrder s.rows) (events : List Event) : events.foldl record s = s.add (ofEvents events) := by
  induction events using List.reverseRecOn with
  | nil => exact s.add_empty.symm
  | append_singleton events e ih =>
    calc
      (events ++ [e]).foldl record s = (s.add (ofEvents events)).add (ofEvent e) := by
        rw [List.foldl_concat, ih, record_eq_add]
      _ = s.add ((ofEvents events).add (ofEvent e)) :=
        Summary.add_assoc h (inOrder_ofEvents events) (inOrder_ofEvent e)
      _ = s.add (ofEvents (events ++ [e])) := by
        rw [ofEvents_concat, record_eq_add]

theorem ofEvents_append (events events' : List Event) :
    ofEvents (events ++ events') = (ofEvents events).add (ofEvents events') :=
  List.foldl_append.trans (foldl_record (inOrder_ofEvents events) events')

theorem ofEvents_cons (e : Event) (events : List Event) : ofEvents (e :: events) = (ofEvent e).add (ofEvents events) :=
  (ofEvents_append [e] events).trans (congrArg (add · (ofEvents events)) (ofEvents_singleton e))

/-- Two events next to each other may be recorded in either order, and so may all. -/
theorem counts_of_perm (h : events.Perm events') : (ofEvents events).counts = (ofEvents events').counts := by
  induction h with
  | nil => rfl
  | cons e h ih => rw [ofEvents_cons, ofEvents_cons, counts_add, counts_add, ih]
  -- Both events are put together before what follows them, and exchanged there.
  | swap e e' events =>
    have hlater := inOrder_ofEvents events
    rw [ofEvents_cons, ofEvents_cons, ofEvents_cons, ofEvents_cons,
      ← Summary.add_assoc (inOrder_ofEvent e') (inOrder_ofEvent e) hlater,
      ← Summary.add_assoc (inOrder_ofEvent e) (inOrder_ofEvent e') hlater, counts_add,
      counts_add_comm (inOrder_ofEvent e') (inOrder_ofEvent e), ← counts_add]
  | trans h h' ih ih' => exact ih.trans ih'

theorem aborted_foldl_record (events : List Event) (s : Summary) :
    (events.foldl record s).aborted = s.aborted.or (events.filterMap Event.abortReason?).head? := by
  induction events generalizing s with
  | nil => exact Option.or_none.symm
  | cons e events ih =>
    have hrecord : (s.record e).aborted = s.aborted.or e.abortReason? := congrArg aborted (s.record_eq_add e)
    rw [List.foldl_cons, ih, hrecord, Option.or_assoc]
    cases hreason : e.abortReason? <;> simp [hreason]

/-- The counts of a summary are the same for events in any order, and the summary of two sequences is the sum of
theirs, row by row, so what single events count for decides it. The reason of an abort depends on the aborts only,
being that of the first of them. -/
theorem order_immaterial (events events' : List Event) :
    let s := ofEvents events
    let s' := ofEvents events'
    let both := ofEvents (events ++ events')
    (events.Perm events' → s.rows = s'.rows ∧ s.actorsStarted = s'.actorsStarted ∧
      s.actorsFailed = s'.actorsFailed ∧ s.totalCompleted = s'.totalCompleted ∧ s.totalFailed = s'.totalFailed) ∧
    (both = s.add s' ∧ (∀ k, both.rows.lookup k = Option.merge Row.add (s.rows.lookup k) (s'.rows.lookup k)) ∧
      both.totalCompleted = s.totalCompleted + s'.totalCompleted ∧
      both.totalFailed = s.totalFailed + s'.totalFailed) ∧
    (∀ e, ofEvents [e] = ofEvent e) ∧
    s.aborted = (events.filterMap Event.abortReason?).head? := by
  intro s s' both
  refine ⟨fun hperm => ?_, ?_, ofEvents_singleton, aborted_foldl_record events {}⟩
  · obtain ⟨hrows, hstarted, hfailed, -, -⟩ := Summary.mk.inj (counts_of_perm hperm)
    have hcompleted : s.totalCompleted = s'.totalCompleted := by rw [totalCompleted, hrows, totalCompleted]
    have hfailures : s.totalFailed = s'.totalFailed := by rw [totalFailed, hrows, totalFailed]
    exact ⟨hrows, hstarted, hfailed, hcompleted, hfailures⟩
  · have hboth : both = s.add s' := ofEvents_append events events'
    rw [hboth]
    exact ⟨rfl, lookup_addRows (inOrder_ofEvents events) (inOrder_ofEvents events'), totals_add s s'⟩

/-- Two threads report on one operation and the run is aborted twice, and then all of it the other way round. -/
theorem order_immaterial_reversed :
    let events : List Event := [.actorStarted "A" 0, .operationCompleted "A" 0 "Write" ⟨1, 5, 2⟩, .runAborted "first",
      .operationFailed "A" 1 "Write" ⟨1, 7, 4⟩ "refused", .error "late" none,
      .operationCompleted "A" 1 "Read" ⟨3, 9, 1⟩, .actorFinished "A" 1 false, .runAborted "second"]
    events.Perm events.reverse ∧
      (ofEvents events.reverse).rows = [("A.Read", ⟨1, 0, ⟨3, 9, 1⟩⟩), ("A.Write", ⟨1, 1, ⟨2, 12, 6⟩⟩)] ∧
      (ofEvents events.reverse).totalFailed = 1 ∧ (ofEvents events.reverse).aborted = some "second" := by
  intro events
  have hperm : events.Perm events.reverse := events.reverse_perm.symm
  obtain ⟨hrows, -, -, -, hfailed⟩ := (order_immaterial events events.reverse).1 hperm
  have haborted := (order_immaterial events.reverse events).2.2.2
  refine ⟨hperm, hrows.symm.trans ?_, hfailed.symm.trans ?_, haborted.trans rfl⟩
  · decide
  · decide

end Summary

end PhasedWorkload.Telemetry
