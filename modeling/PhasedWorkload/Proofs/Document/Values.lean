import Mathlib.Data.String.Basic
import PhasedWorkload.Document.Node

/-! # Values that come from trees

The members of an object stand in the order of their keys, integers are in the range that a reader accepts, and
doubles are finite. A value of this kind is the value of the tree that it is read from.
-/
namespace PhasedWorkload

namespace Members

variable {members members' : Members} {key : String} {value : Value}

def InOrder (members : Members) : Prop := members.Pairwise fun m m' => m.1 < m'.1

theorem InOrder.eq_of_perm (h : members.InOrder) (h' : members'.InOrder) (hperm : members.Perm members') :
    members = members' :=
  hperm.eq_of_pairwise (fun _ _ _ _ hlt hgt => absurd hlt hgt.not_gt) h h'

theorem mem_put {m : String × Value} (h : m ∈ put key value members) : m = (key, value) ∨ m ∈ members := by
  induction members with
  | nil => exact .inl (List.mem_singleton.mp h)
  | cons first rest ih =>
    unfold put at h
    split at h
    · exact (List.mem_cons.mp h).imp_right (List.mem_cons_of_mem _)
    · split at h
      · exact List.mem_cons.mp h
      · rcases List.mem_cons.mp h with rfl | h
        · exact .inr List.mem_cons_self
        · exact (ih h).imp_right (List.mem_cons_of_mem _)

theorem InOrder.put (h : members.InOrder) (key : String) (value : Value) : (put key value members).InOrder := by
  induction members with
  | nil => exact List.pairwise_singleton _ _
  | cons first rest ih =>
    obtain ⟨hfirst, hrest⟩ := List.pairwise_cons.mp h
    unfold Members.put
    split
    · next heq => exact List.pairwise_cons.mpr ⟨fun m hm => heq ▸ hfirst m hm, hrest⟩
    · next hne =>
      split
      · next hlt =>
        refine List.pairwise_cons.mpr ⟨fun m hm => ?_, h⟩
        rcases List.mem_cons.mp hm with rfl | hm
        · exact hlt
        · exact hlt.trans (hfirst m hm)
      · next hle =>
        have hgt : first.1 < key := lt_of_le_of_ne (not_lt.mp hle) (Ne.symm hne)
        refine List.pairwise_cons.mpr ⟨fun m hm => ?_, ih hrest⟩
        rcases mem_put hm with rfl | hm
        · exact hgt
        · exact hfirst m hm

theorem put_perm (h : ∀ m ∈ members, m.1 ≠ key) : (put key value members).Perm ((key, value) :: members) := by
  induction members with
  | nil => exact .refl _
  | cons first rest ih =>
    unfold put
    rw [if_neg (Ne.symm (h first List.mem_cons_self))]
    split
    · exact .refl _
    · exact ((ih fun m hm => h m (List.mem_cons_of_mem _ hm)).cons first).trans (.swap ..)

theorem foldl_put_inOrder (h : members.InOrder) (more : List (String × Value)) :
    InOrder (more.foldl (fun sorted m => put m.1 m.2 sorted) members) := by
  induction more generalizing members with
  | nil => exact h
  | cons m more ih => exact ih (h.put m.1 m.2)

theorem foldl_put_perm (members : Members) (more : List (String × Value))
    (hkeys : ((more ++ members).map Prod.fst).Nodup) :
    (more.foldl (fun sorted m => put m.1 m.2 sorted) members).Perm (more ++ members) := by
  induction more generalizing members with
  | nil => exact .refl _
  | cons m more ih =>
    rw [List.cons_append, List.map_cons, List.nodup_cons] at hkeys
    have hput : (put m.1 m.2 members).Perm (m :: members) := put_perm fun n hn heq =>
      hkeys.1 (heq ▸ List.mem_map_of_mem (List.mem_append_right _ hn))
    have hmoved : (more ++ put m.1 m.2 members).Perm (m :: (more ++ members)) :=
      (hput.append_left more).trans List.perm_middle
    have hnodup : ((more ++ put m.1 m.2 members).map Prod.fst).Nodup :=
      (hmoved.map Prod.fst).nodup_iff.mpr (List.nodup_cons.mpr hkeys)
    exact (ih _ hnodup).trans hmoved

theorem mem_foldl_put {m : String × Value} {more : List (String × Value)}
    (h : m ∈ more.foldl (fun sorted m => put m.1 m.2 sorted) members) : m ∈ more ∨ m ∈ members := by
  induction more generalizing members with
  | nil => exact .inr h
  | cons first more ih =>
    rcases ih h with h | h
    · exact .inl (List.mem_cons_of_mem _ h)
    · rcases mem_put h with rfl | h
      · exact .inl List.mem_cons_self
      · exact .inr h

theorem inOrder_ofList (members : List (String × Value)) : (ofList members).InOrder :=
  foldl_put_inOrder .nil members

theorem ofList_perm (hkeys : (members.map Prod.fst).Nodup) : (ofList members).Perm members := by
  have hperm := foldl_put_perm [] members (by rwa [List.append_nil])
  rwa [List.append_nil] at hperm

theorem mem_of_mem_ofList {m : String × Value} (h : m ∈ ofList members) : m ∈ members :=
  (mem_foldl_put h).resolve_right List.not_mem_nil

theorem InOrder.nodup (h : members.InOrder) : (members.map Prod.fst).Nodup :=
  List.pairwise_map.mpr (h.imp fun hlt => hlt.ne)

theorem InOrder.ofList_eq (h : members.InOrder) : ofList members = members :=
  (inOrder_ofList members).eq_of_perm h (ofList_perm h.nodup)

end Members

namespace Value

/-- What a reader makes of a tree whose integers are in range. -/
inductive Proper : Value → Prop where
  | null : Proper .null
  | bool (b : Bool) : Proper (.bool b)
  | int (n : ℤ) (low : minSigned ≤ n) (high : n < wordBound) : Proper (.int n)
  | float (x : Binary64) (finite : x.isFinite = true) : Proper (.float x)
  | text (s : String) : Proper (.text s)
  | list (items : List Value) (proper : ∀ v ∈ items, Proper v) : Proper (.list items)
  | object (members : Members) (order : members.InOrder) (proper : ∀ m ∈ members, Proper m.2) :
    Proper (.object members)

def isNull : Value → Bool
  | .null => true
  | _ => false

/-- The doubles in a value. -/
def doubles : Value → List Binary64
  | .float x => [x]
  | .list items => ofItems items
  | .object members => ofMembers members
  | _ => []
where
  ofItems : List Value → List Binary64
    | [] => []
    | v :: vs => doubles v ++ ofItems vs
  ofMembers : List (String × Value) → List Binary64
    | [] => []
    | (_, v) :: vs => doubles v ++ ofMembers vs

/-- How many lists and objects are open inside each other. -/
def depth : Value → ℕ
  | .list items => ofItems items + 1
  | .object members => ofMembers members + 1
  | _ => 0
where
  ofItems : List Value → ℕ
    | [] => 0
    | v :: vs => max (depth v) (ofItems vs)
  ofMembers : List (String × Value) → ℕ
    | [] => 0
    | (_, v) :: vs => max (depth v) (ofMembers vs)

theorem mem_doubles_list {items : List Value} {v : Value} {x : Binary64} (hv : v ∈ items) (hx : x ∈ v.doubles) :
    x ∈ (list items).doubles := by
  rw [doubles]
  induction items with
  | nil => cases hv
  | cons w items ih =>
    rw [doubles.ofItems]
    rcases List.mem_cons.mp hv with rfl | hv
    · exact List.mem_append_left _ hx
    · exact List.mem_append_right _ (ih hv)

theorem mem_doubles_object {members : Members} {m : String × Value} {x : Binary64} (hm : m ∈ members)
    (hx : x ∈ m.2.doubles) : x ∈ (object members).doubles := by
  rw [doubles]
  induction members with
  | nil => cases hm
  | cons n members ih =>
    rw [doubles.ofMembers]
    rcases List.mem_cons.mp hm with rfl | hm
    · exact List.mem_append_left _ hx
    · exact List.mem_append_right _ (ih hm)

theorem depth_lt_list {items : List Value} {v : Value} (hv : v ∈ items) : v.depth < (list items).depth := by
  rw [depth, Nat.lt_succ_iff]
  induction items with
  | nil => cases hv
  | cons w items ih =>
    rw [depth.ofItems]
    rcases List.mem_cons.mp hv with rfl | hv
    · exact Nat.le_max_left _ _
    · exact (ih hv).trans (Nat.le_max_right _ _)

theorem depth_lt_object {members : Members} {m : String × Value} (hm : m ∈ members) :
    m.2.depth < (object members).depth := by
  rw [depth, Nat.lt_succ_iff]
  induction members with
  | nil => cases hm
  | cons n members ih =>
    rw [depth.ofMembers]
    rcases List.mem_cons.mp hm with rfl | hm
    · exact Nat.le_max_left _ _
    · exact (ih hm).trans (Nat.le_max_right _ _)

theorem sameItems_self {items : List Value} (h : ∀ v ∈ items, v.same v = true) : same.sameItems items items = true := by
  induction items with
  | nil => rfl
  | cons v items ih =>
    rw [same.sameItems, h v List.mem_cons_self, ih fun w hw => h w (List.mem_cons_of_mem _ hw)]
    rfl

theorem sameMembers_self {members : Members} (h : ∀ m ∈ members, m.2.same m.2 = true) :
    same.sameMembers members members = true := by
  induction members with
  | nil => rfl
  | cons m members ih =>
    rw [same.sameMembers, h m List.mem_cons_self, ih fun n hn => h n (List.mem_cons_of_mem _ hn)]
    simp

theorem Proper.same_self {v : Value} (h : v.Proper) : v.same v = true := by
  induction h with
  | null => rfl
  | bool | int | float | text => simp [same]
  | list items _ ih => exact sameItems_self ih
  | object members _ _ ih => exact sameMembers_self ih

end Value

namespace Node

/-- All integers of a tree are in the range that a reader accepts. -/
inductive InRange : Node → Prop where
  | null : InRange .null
  | bool (b : Bool) : InRange (.bool b)
  | int (n : ℤ) (low : minSigned ≤ n) (high : n < wordBound) : InRange (.int n)
  | float (x : Binary64) : InRange (.float x)
  | text (s : String) : InRange (.text s)
  | list (items : List Node) (closed : Bool) (ranges : ∀ n ∈ items, InRange n) : InRange (.list items closed)
  | table (members : List (String × Node)) (closed : Bool) (ranges : ∀ m ∈ members, InRange m.2) :
    InRange (.table members closed)
  | broken : InRange .broken

/-! ## Values of trees -/

variable {v : Value}

theorem itemValues_ofItems {items : List Value} (h : ∀ v ∈ items, (ofValue v).toValue? = some v) :
    toValue?.itemValues (ofValue.ofItems items) = some items := by
  induction items with
  | nil => rfl
  | cons v items ih =>
    rw [ofValue.ofItems, toValue?.itemValues, h v List.mem_cons_self, ih fun w hw => h w (List.mem_cons_of_mem _ hw)]
    rfl

theorem memberValues_ofMembers {members : Members} (h : ∀ m ∈ members, (ofValue m.2).toValue? = some m.2) :
    toValue?.memberValues (ofValue.ofMembers members) = some members := by
  induction members with
  | nil => rfl
  | cons m members ih =>
    rw [ofValue.ofMembers, toValue?.memberValues, h m List.mem_cons_self,
      ih fun n hn => h n (List.mem_cons_of_mem _ hn)]
    rfl

theorem toValue?_ofValue (h : v.Proper) : (ofValue v).toValue? = some v := by
  induction h with
  | null | bool | int | text => rfl
  | float x finite => rw [ofValue, toValue?, if_pos finite]
  | list items _ ih =>
    rw [ofValue, toValue?, if_pos rfl, itemValues_ofItems ih]
    rfl
  | object members order _ ih =>
    rw [ofValue, toValue?, if_pos rfl, memberValues_ofMembers ih, Option.map_some, order.ofList_eq]

theorem mem_itemValues {nodes : List Node} {items : List Value} (h : toValue?.itemValues nodes = some items)
    (hv : v ∈ items) : ∃ n ∈ nodes, n.toValue? = some v := by
  induction nodes generalizing items with
  | nil =>
    obtain rfl := Option.some.inj h
    cases hv
  | cons n nodes ih =>
    simp only [toValue?.itemValues, Option.bind_eq_bind, Option.bind_eq_some_iff, Option.pure_def,
      Option.some.injEq] at h
    obtain ⟨first, hfirst, rest, hrest, rfl⟩ := h
    rcases List.mem_cons.mp hv with rfl | hv
    · exact ⟨n, List.mem_cons_self, hfirst⟩
    · obtain ⟨m, hm, hvalue⟩ := ih hrest hv
      exact ⟨m, List.mem_cons_of_mem _ hm, hvalue⟩

theorem mem_memberValues {nodes : List (String × Node)} {members : List (String × Value)} {m : String × Value}
    (h : toValue?.memberValues nodes = some members) (hm : m ∈ members) :
    ∃ n ∈ nodes, n.1 = m.1 ∧ n.2.toValue? = some m.2 := by
  induction nodes generalizing members with
  | nil =>
    obtain rfl := Option.some.inj h
    cases hm
  | cons n nodes ih =>
    simp only [toValue?.memberValues, Option.bind_eq_bind, Option.bind_eq_some_iff, Option.pure_def,
      Option.some.injEq] at h
    obtain ⟨first, hfirst, rest, hrest, rfl⟩ := h
    rcases List.mem_cons.mp hm with rfl | hm
    · exact ⟨n, List.mem_cons_self, rfl, hfirst⟩
    · obtain ⟨k, hk, hvalue⟩ := ih hrest hm
      exact ⟨k, List.mem_cons_of_mem _ hk, hvalue⟩

theorem InRange.proper {n : Node} (h : n.InRange) (hv : n.toValue? = some v) : v.Proper := by
  induction h generalizing v with
  | null =>
    obtain rfl := Option.some.inj hv
    exact .null
  | bool b =>
    obtain rfl := Option.some.inj hv
    exact .bool b
  | int n low high =>
    obtain rfl := Option.some.inj hv
    exact .int n low high
  | float x =>
    obtain rfl := Option.some.inj hv
    split
    · next finite => exact .float x finite
    · exact .null
  | text s =>
    obtain rfl := Option.some.inj hv
    exact .text s
  | list items closed _ ih =>
    cases closed with
    | false => cases hv
    | true =>
      obtain ⟨values, hvalues, rfl⟩ := Option.map_eq_some_iff.mp hv
      refine .list values fun w hw => ?_
      obtain ⟨n, hn, hvalue⟩ := mem_itemValues hvalues hw
      exact ih n hn hvalue
  | table members closed _ ih =>
    cases closed with
    | false => cases hv
    | true =>
      obtain ⟨values, hvalues, rfl⟩ := Option.map_eq_some_iff.mp hv
      refine .object _ (Members.inOrder_ofList values) fun m hm => ?_
      obtain ⟨n, hn, _, hvalue⟩ := mem_memberValues hvalues (Members.mem_of_mem_ofList hm)
      exact ih n hn hvalue
  | broken => cases hv

end Node

end PhasedWorkload
