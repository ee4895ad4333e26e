import PhasedWorkload.Proofs.Telemetry.Rows

/-! # Rows and pairs of names

The key of a row is the name of an actor and that of an operation with a full stop between them, so a name with a
full stop in it may be split at another place: several pairs of names can have one key. The row of a key is made of
the operations of all these pairs. It is the row of one of them if and only if no operation of another is reported.
-/
namespace PhasedWorkload.Telemetry

def Event.pair? : Event → Option (String × String)
  | .operationCompleted actor _ operation _ | .operationFailed actor _ operation _ _ => some (actor, operation)
  | _ => none

theorem Event.rowKey?_eq_map (e : Event) : e.rowKey? = e.pair?.map fun pair => Summary.key pair.1 pair.2 := by
  cases e <;> rfl

namespace Summary

variable {events : List Event} {actor actor' operation operation' : String}

/-- Both pairs of names have one key, and it is split at an earlier full stop for the first. -/
def SplitsBefore (actor' operation' actor operation : String) : Prop :=
  ∃ between, actor = key actor' between ∧ operation' = key between operation

theorem toList_key (actor operation : String) :
    (key actor operation).toList = actor.toList ++ '.' :: operation.toList := by
  simp [key]

theorem splitsBefore_of_toList {between : List Char} (ha : actor.toList = actor'.toList ++ '.' :: between)
    (ho : operation'.toList = between ++ '.' :: operation.toList) :
    SplitsBefore actor' operation' actor operation := by
  refine ⟨String.ofList between, String.toList_inj.mp ?_, String.toList_inj.mp ?_⟩
  · rw [toList_key, String.toList_ofList, ha]
  · rw [toList_key, String.toList_ofList, ho]

theorem SplitsBefore.key_eq (h : SplitsBefore actor' operation' actor operation) :
    key actor' operation' = key actor operation := by
  obtain ⟨between, rfl, rfl⟩ := h
  simp [key, String.append_assoc]

/-- Two pairs of names have one key if and only if they are the same or split at different full stops. -/
theorem key_eq_key : key actor' operation' = key actor operation ↔
    (actor' = actor ∧ operation' = operation) ∨ SplitsBefore actor' operation' actor operation ∨
      SplitsBefore actor operation actor' operation' := by
  constructor
  · intro h
    have hchars := congrArg String.toList h
    rw [toList_key, toList_key, List.append_eq_append_iff] at hchars
    rcases hchars with ⟨more, ha, ho⟩ | ⟨more, ha, ho⟩
    · cases more with
      | nil =>
        refine .inl ⟨String.toList_inj.mp ?_, String.toList_inj.mp ?_⟩
        · simpa using ha.symm
        · simpa using ho
      | cons c between =>
        rw [List.cons_append, List.cons.injEq] at ho
        obtain ⟨rfl, ho⟩ := ho
        exact .inr (.inl (splitsBefore_of_toList ha ho))
    · cases more with
      | nil =>
        refine .inl ⟨String.toList_inj.mp ?_, String.toList_inj.mp ?_⟩
        · simpa using ha
        · simpa using ho.symm
      | cons c between =>
        rw [List.cons_append, List.cons.injEq] at ho
        obtain ⟨rfl, ho⟩ := ho
        exact .inr (.inr (splitsBefore_of_toList ha ho))
  · rintro (⟨rfl, rfl⟩ | h | h)
    · rfl
    · exact h.key_eq
    · exact h.key_eq.symm

theorem SplitsBefore.mem_toList (h : SplitsBefore actor' operation' actor operation) :
    '.' ∈ actor.toList ∧ '.' ∈ operation'.toList := by
  obtain ⟨between, rfl, rfl⟩ := h
  simp [toList_key]

def ofPair (events : List Event) (actor operation : String) : List Event :=
  events.filter fun e => e.pair? = some (actor, operation)

/-- The operations of all pairs of names with a key. -/
def ofKey (events : List Event) (k : String) : List Event := events.filter fun e => e.rowKey? = some k

theorem rowKey?_of_pair? {e : Event} (h : e.pair? = some (actor, operation)) :
    e.rowKey? = some (key actor operation) := by
  rw [Event.rowKey?_eq_map, h]
  rfl

theorem ofPair_eq_filter (events : List Event) (actor operation : String) :
    ofPair events actor operation =
      (ofKey events (key actor operation)).filter fun e => e.pair? = some (actor, operation) := by
  rw [ofPair, ofKey, List.filter_filter]
  refine List.filter_congr fun e _ => ?_
  by_cases h : e.pair? = some (actor, operation)
  · simp [h, rowKey?_of_pair? h]
  · simp [h]

theorem length_of_ofOperations (events : List Event) :
    (Row.ofOperations events).completed + (Row.ofOperations events).failed = events.length := by
  induction events with
  | nil => rfl
  | cons e events ih =>
    simp only [Row.ofOperations] at ih
    cases he : e.hasFailed <;> simp [Row.ofOperations, he] <;> omega

theorem ofOperations_ofKey_iff (events : List Event) (actor operation : String) :
    Row.ofOperations (ofKey events (key actor operation)) = .ofOperations (ofPair events actor operation) ↔
      ∀ e ∈ ofKey events (key actor operation), e.pair? = some (actor, operation) := by
  rw [ofPair_eq_filter]
  constructor
  · intro h e he
    have hlength := length_of_ofOperations (ofKey events (key actor operation))
    rw [h, length_of_ofOperations] at hlength
    have hsame := List.filter_sublist.eq_of_length hlength
    rw [← hsame] at he
    simpa using List.of_mem_filter he
  · intro h
    rw [List.filter_eq_self.mpr fun e he => by simpa using h e he]

/-- The row of a pair of names counts the operations of all pairs with its key, which are the ones that are split at
another full stop. It is the row of this pair's own operations if and only if there are no others. -/
theorem row_of_pair (events : List Event) {actor operation : String}
    (h : ∃ e ∈ events, e.pair? = some (actor, operation)) :
    let k := key actor operation
    (ofEvents events).rows.lookup k = some (.ofOperations (ofKey events k)) ∧
      (∀ e, e ∈ ofKey events k ↔ e ∈ events ∧ ∃ actor' operation', e.pair? = some (actor', operation') ∧
        ((actor' = actor ∧ operation' = operation) ∨ SplitsBefore actor' operation' actor operation ∨
          SplitsBefore actor operation actor' operation')) ∧
      ((ofEvents events).rows.lookup k = some (.ofOperations (ofPair events actor operation)) ↔
        ∀ e ∈ ofKey events k, e.pair? = some (actor, operation)) := by
  intro k
  have hrow : (ofEvents events).rows.lookup k = some (.ofOperations (ofKey events k)) := by
    obtain ⟨e, he, hpair⟩ := h
    have hmem : e ∈ ofKey events k := List.mem_filter.mpr ⟨he, by simpa using rowKey?_of_pair? hpair⟩
    rw [lookup_ofEvents]
    exact if_neg (List.ne_nil_of_mem hmem)
  refine ⟨hrow, fun e => ?_, ?_⟩
  · rw [ofKey, List.mem_filter, decide_eq_true_eq, Event.rowKey?_eq_map, Option.map_eq_some_iff]
    refine and_congr_right fun _ => ⟨?_, ?_⟩
    · rintro ⟨⟨actor', operation'⟩, hpair, hkey⟩
      exact ⟨actor', operation', hpair, key_eq_key.mp hkey⟩
    · rintro ⟨actor', operation', hpair, hsplit⟩
      exact ⟨(actor', operation'), hpair, key_eq_key.mpr hsplit⟩
  · rw [hrow, Option.some.injEq]
    exact ofOperations_ofKey_iff events actor operation

/-- A failed operation of a pair counts in the row of another pair that has the same key. -/
theorem row_of_pair_shared :
    let events : List Event :=
      [.operationCompleted "a.b" 0 "c" ⟨1, 5, 2⟩, .actorStarted "a.b" 0,
       .operationFailed "a" 1 "b.c" ⟨1, 7, 4⟩ "refused"]
    (∃ e ∈ events, e.pair? = some ("a.b", "c")) ∧
      (ofEvents events).rows.lookup "a.b.c" = some ⟨1, 1, ⟨2, 12, 6⟩⟩ := by
  intro events
  have h : ∃ e ∈ events, e.pair? = some ("a.b", "c") := ⟨_, List.mem_cons_self, rfl⟩
  exact ⟨h, (row_of_pair events h).1.trans (by decide)⟩

/-- The row of a pair of names may count more than its own operations. -/
theorem row_counts_another_pair :
    let m : Measure := ⟨1, 5, 2⟩
    let events : List Event := [.operationCompleted "a.b" 1 "c" m, .operationCompleted "a" 2 "b.c" m]
    (ofEvents events).rows.lookup (key "a.b" "c") = some ⟨2, 0, ⟨2, 10, 4⟩⟩ ∧
      Row.ofOperations (ofPair events "a.b" "c") = ⟨1, 0, m⟩ := by
  decide

/-- Where no operation has a full stop in its name, each pair of names has a row of its own. -/
theorem row_of_plain_names {events : List Event} (hplain : ∀ e ∈ events, ∀ pair, e.pair? = some pair →
    '.' ∉ pair.2.toList) (hoperation : '.' ∉ operation.toList) :
    (ofEvents events).row (key actor operation) = .ofOperations (ofPair events actor operation) := by
  refine (row_ofEvents events _).trans ((ofOperations_ofKey_iff events actor operation).mpr fun e he => ?_)
  obtain ⟨he, hkey⟩ := List.mem_filter.mp he
  rw [decide_eq_true_eq, Event.rowKey?_eq_map, Option.map_eq_some_iff] at hkey
  obtain ⟨⟨actor', operation'⟩, hpair, hkey⟩ := hkey
  rcases key_eq_key.mp hkey with ⟨rfl, rfl⟩ | hsplit | hsplit
  · exact hpair
  · exact absurd hsplit.mem_toList.2 (hplain e he _ hpair)
  · exact absurd hsplit.mem_toList.2 hoperation

end Summary

end PhasedWorkload.Telemetry
