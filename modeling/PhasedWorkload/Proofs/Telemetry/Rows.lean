import Mathlib.Algebra.GroupWithZero.Nat
import Mathlib.Data.List.Basic
import Mathlib.Data.String.Basic
import PhasedWorkload.Proofs.Keyed
import PhasedWorkload.Telemetry.Summary

/-! # Rows of a summary

The row of a key is made of the events that report an operation under that key: their number, those that
failed among them, and the sums of what they measured. None of this depends on the order of the events, and a
key that no event reports has no row.
-/
namespace PhasedWorkload.Telemetry

open Keyed

namespace Event

/-- The key of the row that an event counts in. -/
def rowKey? : Event → Option String
  | .operationCompleted actor _ operation _ | .operationFailed actor _ operation _ _ =>
    some (Summary.key actor operation)
  | _ => none

def hasFailed : Event → Bool
  | .operationFailed .. => true
  | _ => false

def measured : Event → Measure
  | .operationCompleted _ _ _ m | .operationFailed _ _ _ m _ => m
  | _ => {}

def isStart : Event → Bool
  | .actorStarted .. => true
  | _ => false

def isLoss : Event → Bool
  | .actorFinished _ _ success => !success
  | _ => false

def countIn (e : Event) (r : Row) : Row :=
  if e.hasFailed then r.addFailed e.measured else r.addCompleted e.measured

end Event

/-- The row that counts all these operations. -/
def Row.ofOperations (events : List Event) : Row where
  completed := (events.map fun e => (!e.hasFailed).toNat).sum
  failed := (events.map fun e => e.hasFailed.toNat).sum
  measure := ⟨(events.map fun e => e.measured.documents).sum, (events.map fun e => e.measured.bytes).sum,
    (events.map fun e => e.measured.micros).sum⟩

theorem Row.ofOperations_append (events : List Event) (e : Event) :
    ofOperations (events ++ [e]) = e.countIn (ofOperations events) := by
  cases he : e.hasFailed <;>
    simp [ofOperations, Event.countIn, he, Row.addFailed, Row.addCompleted, Measure.add]

namespace Summary

variable {events : List Event} {k : String}

/-- The rows are in the order of their keys. -/
def InOrder (rows : List (String × Row)) : Prop := rows.Pairwise fun r r' => r.1 < r'.1

theorem mem_updateRow {key : String} {change : Row → Row} {rows : List (String × Row)} {r : String × Row}
    (h : r ∈ updateRow key change rows) : r.1 = key ∨ r ∈ rows := by
  induction rows with
  | nil => exact .inl (congrArg Prod.fst (List.mem_singleton.mp h))
  | cons first rest ih =>
    simp only [updateRow] at h
    split at h
    · next heq =>
      rcases List.mem_cons.mp h with rfl | h
      · exact .inl heq.symm
      · exact .inr (List.mem_cons_of_mem _ h)
    · split at h
      · rcases List.mem_cons.mp h with rfl | h
        · exact .inl rfl
        · exact .inr h
      · rcases List.mem_cons.mp h with rfl | h
        · exact .inr List.mem_cons_self
        · exact (ih h).imp id (List.mem_cons_of_mem _)

theorem InOrder.updateRow {rows : List (String × Row)} (h : InOrder rows) (key : String) (change : Row → Row) :
    InOrder (updateRow key change rows) := by
  induction rows with
  | nil => exact List.pairwise_singleton _ _
  | cons first rest ih =>
    obtain ⟨hfirst, hrest⟩ := List.pairwise_cons.mp h
    simp only [Summary.updateRow]
    split
    · next heq => exact List.pairwise_cons.mpr ⟨hfirst, hrest⟩
    · next hne =>
      split
      · next hlt =>
        refine List.pairwise_cons.mpr ⟨fun r hr => ?_, h⟩
        rcases List.mem_cons.mp hr with rfl | hr
        · exact hlt
        · exact hlt.trans (hfirst r hr)
      · next hle =>
        have hgt : first.1 < key := lt_of_le_of_ne (not_lt.mp hle) (Ne.symm hne)
        refine List.pairwise_cons.mpr ⟨fun r hr => ?_, ih hrest⟩
        rcases mem_updateRow hr with hr | hr
        · rw [hr]
          exact hgt
        · exact hfirst r hr

/-- The row of the key is changed, and no other. -/
theorem lookup_updateRow {rows : List (String × Row)} (h : InOrder rows) (key : String) (change : Row → Row)
    (k : String) : (Summary.updateRow key change rows).lookup k =
      if k = key then some (change ((rows.lookup k).getD {})) else rows.lookup k := by
  induction rows with
  | nil => exact lookup_cons k (key, change {}) []
  | cons first rest ih =>
    obtain ⟨hfirst, hrest⟩ := List.pairwise_cons.mp h
    simp only [Summary.updateRow]
    split
    · next heq =>
      rw [lookup_cons, lookup_cons]
      by_cases hk : k = key
      · simp [hk, heq]
      · simp [hk, ← heq]
    · next hne =>
      split
      · next hlt =>
        rw [lookup_cons]
        by_cases hk : k = key
        -- The key comes before all others, so it has no row yet.
        · have hnone : (first :: rest).lookup k = none := by
            refine lookup_eq_none fun r hr => ?_
            rcases List.mem_cons.mp hr with rfl | hr
            · exact hk ▸ hlt.ne'
            · exact hk ▸ (hlt.trans (hfirst r hr)).ne'
          rw [if_pos hk, if_pos hk, hnone]
          rfl
        · rw [if_neg hk, if_neg hk]
      · rw [lookup_cons, lookup_cons, ih hrest]
        by_cases hk : k = first.1
        · have hother : k ≠ key := hk ▸ Ne.symm hne
          rw [if_pos hk, if_pos hk, if_neg hother]
        · rw [if_neg hk, if_neg hk]

theorem rows_record (s : Summary) (e : Event) :
    (s.record e).rows = e.rowKey?.elim s.rows fun key => updateRow key e.countIn s.rows := by
  cases e <;> try rfl
  simp only [record]
  split <;> rfl

theorem ofEvents_concat (events : List Event) (e : Event) :
    ofEvents (events ++ [e]) = (ofEvents events).record e :=
  List.foldl_concat ..

theorem inOrder_ofEvents (events : List Event) : InOrder (ofEvents events).rows := by
  induction events using List.reverseRecOn with
  | nil => exact List.Pairwise.nil
  | append_singleton events e ih =>
    rw [ofEvents_concat, rows_record]
    cases e.rowKey? with
    | none => exact ih
    | some key => exact ih.updateRow key _

theorem lookup_ofEvents (events : List Event) (k : String) :
    let mine := events.filter fun e => e.rowKey? = some k
    (ofEvents events).rows.lookup k = if mine = [] then none else some (.ofOperations mine) := by
  induction events using List.reverseRecOn with
  | nil => rfl
  | append_singleton events e ih =>
    dsimp only at ih ⊢
    rw [ofEvents_concat, rows_record, List.filter_append]
    by_cases hkey : e.rowKey? = some k
    · rw [hkey, Option.elim_some, lookup_updateRow (inOrder_ofEvents events), if_pos rfl, ih]
      have hmine : [e].filter (fun e => e.rowKey? = some k) = [e] := by simp [hkey]
      rw [hmine, Row.ofOperations_append]
      by_cases hnone : events.filter (fun e => e.rowKey? = some k) = []
      · simp [hnone]
        rfl
      · simp [hnone]
    · have hmine : [e].filter (fun e => e.rowKey? = some k) = [] := by simp [hkey]
      rw [hmine, List.append_nil, ← ih]
      cases hkey' : e.rowKey? with
      | none => rfl
      | some key =>
        have hne : k ≠ key := by
          rintro rfl
          exact hkey hkey'
        rw [Option.elim_some, lookup_updateRow (inOrder_ofEvents events), if_neg hne]

/-- Where all operations under a key are sums, so are the parts of its row. -/
theorem sum_operations (h : Event → ℕ) (events : List Event) (k : String) :
    ((events.filter fun e => e.rowKey? = some k).map h).sum =
      (events.map fun e => if e.rowKey? = some k then h e else 0).sum := by
  induction events with
  | nil => rfl
  | cons e events ih => by_cases he : e.rowKey? = some k <;> simp [he, ih]

theorem row_ofEvents (events : List Event) (k : String) :
    (ofEvents events).row k = .ofOperations (events.filter fun e => e.rowKey? = some k) := by
  rw [row, lookup_ofEvents]
  split
  · next hnone =>
    rw [hnone]
    rfl
  · rfl

/-- A quantity of rows that grows by the same in every row that is changed grows by that over all rows. -/
theorem sum_updateRow {M : Type} [AddCommMonoid M] {f : Row → M} {change : Row → Row} {more : M} (hempty : f {} = 0)
    (hchange : ∀ row, f (change row) = f row + more) (key : String) (rows : List (String × Row)) :
    ((updateRow key change rows).map fun r => f r.2).sum = (rows.map fun r => f r.2).sum + more := by
  induction rows with
  | nil => simp [updateRow, hchange, hempty]
  | cons first rest ih =>
    simp only [updateRow]
    split
    · simp only [List.map_cons, List.sum_cons, hchange]
      exact add_right_comm _ _ _
    · split
      · simp only [List.map_cons, List.sum_cons, hchange, hempty, zero_add]
        exact add_comm _ _
      · simp only [List.map_cons, List.sum_cons, ih]
        exact (add_assoc _ _ _).symm

/-- What the operations bring to their rows is in the rows together. -/
theorem sum_rows_ofEvents {M : Type} [AddCommMonoid M] {f : Row → M} {g : Event → M} (hempty : f {} = 0)
    (hcount : ∀ e row, f (e.countIn row) = f row + g e) (events : List Event) :
    ((ofEvents events).rows.map fun r => f r.2).sum =
      ((events.filter fun e => e.rowKey?.isSome).map g).sum := by
  induction events using List.reverseRecOn with
  | nil => rfl
  | append_singleton events e ih =>
    rw [ofEvents_concat, rows_record, List.filter_append]
    cases hkey : e.rowKey? with
    | none => simp [hkey, ih]
    | some key => simp [hkey, ih, sum_updateRow hempty (hcount e)]

theorem totals (s : Summary) : s.totalCompleted = (s.rows.map fun r => r.2.completed).sum ∧
    s.totalFailed = (s.rows.map fun r => r.2.failed).sum := by
  have hfoldr : ∀ (f : Row → ℕ) (rows : List (String × Row)),
      rows.foldr (fun r n => f r.2 + n) 0 = (rows.map fun r => f r.2).sum := by
    intro f rows
    induction rows with
    | nil => rfl
    | cons r rows ih => rw [List.foldr_cons, ih, List.map_cons, List.sum_cons]
  exact ⟨hfoldr Row.completed s.rows, hfoldr Row.failed s.rows⟩

theorem actors_ofEvents (events : List Event) :
    (ofEvents events).actorsStarted = (events.map fun e => e.isStart.toNat).sum ∧
      (ofEvents events).actorsFailed = (events.map fun e => e.isLoss.toNat).sum := by
  induction events using List.reverseRecOn with
  | nil => exact ⟨rfl, rfl⟩
  | append_singleton events e ih =>
    obtain ⟨hstarted, hfailed⟩ := ih
    rw [ofEvents_concat]
    simp only [List.map_append, List.sum_append, ← hstarted, ← hfailed]
    cases e with
    | actorFinished _ _ success => cases success <;> exact ⟨rfl, rfl⟩
    | actorStarted | operationCompleted | operationFailed | runAborted | error => exact ⟨rfl, rfl⟩

end Summary

end PhasedWorkload.Telemetry
