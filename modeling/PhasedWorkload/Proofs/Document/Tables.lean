import PhasedWorkload.Document.Reader
import PhasedWorkload.Plan.Printing
import PhasedWorkload.Proofs.Document.Values

/-! # Records read from tables

The members of a printed table stand in the order of their keys, so those with a field of their own and those that
are only kept are mixed. A field does not depend on what is kept, so the first can be read as if they stood alone, and
the others be kept after them.
-/
namespace PhasedWorkload

namespace Node

theorem ofMembers_eq_map (members : Members) :
    ofValue.ofMembers members = members.map fun m => (m.1, ofValue m.2) := by
  induction members with
  | nil => rfl
  | cons m members ih => rw [ofValue.ofMembers, ih, List.map_cons]

theorem ofItems_eq_map (items : List Value) : ofValue.ofItems items = items.map ofValue := by
  induction items with
  | nil => rfl
  | cons v items ih => rw [ofValue.ofItems, ih, List.map_cons]

theorem ofValue_ne_null {v : Value} (h : v.isNull = false) : ofValue v ≠ .null := by
  cases v with
  | null => cases h
  | bool | int | float | text | list | object => rw [ofValue]; exact Node.noConfusion

end Node

namespace Reader

variable {α σ : Type} {v : Value} {known : String → Bool} {keep : σ → String → Value → σ}
  {field : σ → String → Node → Except ReadFault σ}

theorem value_ofValue (h : v.Proper) : value (Node.ofValue v) = .ok v := by
  rw [value, Node.toValue?_ofValue h]

theorem list_ofValue {read : Reader α} {toValue : α → Value} {items : List α}
    (h : ∀ a ∈ items, read (Node.ofValue (toValue a)) = .ok a) :
    list read (Node.ofValue (.list (items.map toValue))) = .ok items := by
  have hitems : (Node.ofValue.ofItems (items.map toValue)).mapM read = .ok items := by
    rw [Node.ofItems_eq_map]
    induction items with
    | nil => rfl
    | cons a items ih =>
      rw [List.map_cons, List.map_cons, List.mapM_cons, h a List.mem_cons_self,
        ih fun b hb => h b (List.mem_cons_of_mem _ hb)]
      rfl
  rw [Node.ofValue, list, hitems]
  rfl

/-- Reads values as the members of a table. -/
def readAll (field : σ → String → Node → Except ReadFault σ) (s : σ) (members : Members) : Except ReadFault σ :=
  members.foldlM (fun s m => field s m.1 (Node.ofValue m.2)) s

theorem readAll_cons (s : σ) (m : String × Value) (members : Members) :
    readAll field s (m :: members) = (field s m.1 (Node.ofValue m.2)).bind fun s => readAll field s members := rfl

theorem readAll_append_ok {s s' s'' : σ} {first second : Members} (h : readAll field s first = .ok s')
    (h' : readAll field s' second = .ok s'') : readAll field s (first ++ second) = .ok s'' := by
  rw [readAll, List.foldlM_append]
  exact (congrArg (Except.bind · fun s => readAll field s second) h).trans h'

theorem readAll_singleton {s s' : σ} {key : String} {v : Value} (h : field s key (Node.ofValue v) = .ok s') :
    readAll field s [(key, v)] = .ok s' := by
  rw [readAll_cons, h]
  rfl

theorem optional_of_ne_null {read : Reader α} {n : Node} (h : n ≠ .null) : optional read n = (read n).map some := by
  cases n <;> first | rfl | exact absurd rfl h

theorem once_ok {name : String} {read : Reader α} {n : Node} {a : α} (h : read n = .ok a) :
    once name none read n = .ok (some a) := by
  rw [once, h]
  rfl

theorem join_map_some (a : Option α) : (a.map some).join = a := by
  cases a <;> rfl

theorem keys_memberOf? (key : String) (toValue : α → Value) (a : Option α) :
    ((memberOf? key toValue a).map Prod.fst).Sublist [key] := by
  cases a with
  | none => exact List.nil_sublist _
  | some x => exact .refl _

theorem proper_memberOf? {key : String} {toValue : α → Value} {a : Option α}
    (h : ∀ x, a = some x → (toValue x).Proper) : ∀ m ∈ memberOf? key toValue a, m.2.Proper := by
  cases a with
  | none => exact List.forall_mem_nil _
  | some x => exact List.forall_mem_singleton.mpr (h x rfl)

/-- A member that is there only if there is a value for it is read as it was. -/
theorem readAll_memberOf? (field : σ → String → Node → Except ReadFault σ) (key name : String) (toValue : α → Value)
    (read : Reader α) (a : Option α) (set : Option (Option α) → σ)
    (hfield : ∀ n, field (set none) key n = (once name none (optional read) n).bind fun x => .ok (set x))
    (hread : ∀ x, a = some x → Node.ofValue (toValue x) ≠ .null ∧ read (Node.ofValue (toValue x)) = .ok x) :
    readAll field (set none) (memberOf? key toValue a) = .ok (set (a.map some)) := by
  cases a with
  | none => rfl
  | some x =>
    obtain ⟨hnull, hx⟩ := hread x rfl
    have hoptional : optional read (Node.ofValue (toValue x)) = .ok (some x) := by
      rw [optional_of_ne_null hnull, hx]
      rfl
    refine readAll_singleton ?_
    rw [hfield, once_ok hoptional]
    rfl

/-- Members with fields of their own are told from those that are only kept by their keys. -/
structure Separates (known : String → Bool) (keep : σ → String → Value → σ)
    (field : σ → String → Node → Except ReadFault σ) : Prop where
  keeps : ∀ s key n, known key = false → field s key n = (value n).map (keep s key)
  commutes : ∀ s kept v key n, known key = true → field (keep s kept v) key n = (field s key n).map (keep · kept v)

theorem Separates.readAll_keep (h : Separates known keep field) (s : σ) (kept : String) (v : Value) {members : Members}
    (hknown : ∀ m ∈ members, known m.1 = true) :
    readAll field (keep s kept v) members = (readAll field s members).map (keep · kept v) := by
  induction members generalizing s with
  | nil => rfl
  | cons m members ih =>
    rw [readAll_cons, readAll_cons, h.commutes s kept v m.1 _ (hknown m List.mem_cons_self)]
    cases field s m.1 (Node.ofValue m.2) with
    | error fault => rfl
    | ok s' => exact ih s' fun n hn => hknown n (List.mem_cons_of_mem _ hn)

/-- What is only kept may be kept at the end. -/
theorem Separates.readAll_eq (h : Separates known keep field) (s : σ) {members : Members}
    (hproper : ∀ m ∈ members, known m.1 = false → m.2.Proper) :
    readAll field s members = (readAll field s (members.filter fun m => known m.1)).map fun s =>
      (members.filter fun m => !known m.1).foldl (fun s m => keep s m.1 m.2) s := by
  induction members generalizing s with
  | nil => rfl
  | cons m members ih =>
    have hrest := fun s => ih s fun n hn => hproper n (List.mem_cons_of_mem _ hn)
    cases hm : known m.1 with
    | true =>
      simp only [List.filter_cons, hm, Bool.not_true, Bool.false_eq_true, if_true, if_false, readAll_cons]
      cases field s m.1 (Node.ofValue m.2) with
      | error fault => rfl
      | ok s' => exact hrest s'
    | false =>
      have hvalue := value_ofValue (hproper m List.mem_cons_self hm)
      have hknown : ∀ n ∈ members.filter fun m => known m.1, known n.1 = true := fun n hn => (List.mem_filter.mp hn).2
      simp only [List.filter_cons, hm, Bool.not_false, Bool.false_eq_true, if_true, if_false]
      rw [readAll_cons, h.keeps s m.1 _ hm, hvalue]
      -- what is kept here has to move behind the fields that are still to come
      change readAll field (keep s m.1 m.2) members = _
      rw [hrest, h.readAll_keep s m.1 m.2 hknown]
      cases readAll field s (members.filter fun m => known m.1) <;> rfl

theorem proper_object (own : Members) {extra : Members} (hown : ∀ m ∈ own, m.2.Proper)
    (hextra : ∀ m ∈ extra, m.2.Proper) : (Value.object (Members.ofList (own ++ extra))).Proper :=
  .object _ (Members.inOrder_ofList _) fun m hm =>
    (List.mem_append.mp (Members.mem_of_mem_ofList hm)).elim (hown m) (hextra m)

/-- Members without fields of their own, as they are kept. -/
structure Kept (known : String → Bool) (members : Members) : Prop where
  order : members.InOrder
  unknown : ∀ m ∈ members, known m.1 = false
  proper : ∀ m ∈ members, m.2.Proper

theorem Kept.nil : Kept known [] := ⟨.nil, List.forall_mem_nil _, List.forall_mem_nil _⟩

theorem Kept.put {members : Members} {key : String} (h : Kept known members) (hkey : known key = false)
    (hv : v.Proper) : Kept known (members.put key v) := by
  refine ⟨h.order.put key v, fun m hm => ?_, fun m hm => ?_⟩
  · rcases Members.mem_put hm with rfl | hm
    · exact hkey
    · exact h.unknown m hm
  · rcases Members.mem_put hm with rfl | hm
    · exact hv
    · exact h.proper m hm

theorem foldl_keep {set : Members → σ} (h : ∀ kept key v, keep (set kept) key v = set (kept.put key v))
    (kept more : Members) : more.foldl (fun s m => keep s m.1 m.2) (set kept) =
      set (more.foldl (fun kept m => kept.put m.1 m.2) kept) := by
  induction more generalizing kept with
  | nil => rfl
  | cons m more ih => rw [List.foldl_cons, h, ih, List.foldl_cons]

/-- A printed table is read as its own members are in the order of their keys, with all others kept. -/
theorem Separates.table_ofValue (h : Separates known keep field) (expected : String) {start : σ} (set : Members → σ)
    {own sorted extra : Members} (keys : List String)
    (hset : ∀ kept key v, keep (set kept) key v = set (kept.put key v)) (hown : sorted.Perm own)
    (hkeys : (sorted.map Prod.fst).Sublist keys) (hfields : ∀ key ∈ keys, known key = true)
    (horder : keys.Pairwise (· < ·)) (hextra : Kept known extra)
    (hread : readAll field start sorted = .ok (set [])) :
    table expected start field (Node.ofValue (.object (Members.ofList (own ++ extra)))) = .ok (set extra) := by
  have hsorted : sorted.InOrder := List.pairwise_map.mp (horder.sublist hkeys)
  have hknown : ∀ m ∈ own, known m.1 = true := fun m hm =>
    hfields _ (hkeys.subset (List.mem_map_of_mem (hown.mem_iff.mpr hm)))
  have hnodup : ((own ++ extra).map Prod.fst).Nodup := by
    rw [List.map_append]
    refine List.nodup_append.mpr ⟨(hown.map Prod.fst).nodup_iff.mp hsorted.nodup, hextra.order.nodup, ?_⟩
    intro key hkey key' hkey' heq
    obtain ⟨m, hm, rfl⟩ := List.mem_map.mp hkey
    obtain ⟨n, hn, rfl⟩ := List.mem_map.mp hkey'
    have htrue := hknown m hm
    rw [heq, hextra.unknown n hn] at htrue
    cases htrue
  have hperm := Members.ofList_perm hnodup
  have hall := Members.inOrder_ofList (own ++ extra)
  have hfirst : (Members.ofList (own ++ extra)).filter (fun m => known m.1) = sorted := by
    have hfilter : (own ++ extra).filter (fun m => known m.1) = own := by
      rw [List.filter_append, List.filter_eq_self.mpr hknown,
        List.filter_eq_nil_iff.mpr fun m hm => by simp [hextra.unknown m hm], List.append_nil]
    have hsame := (hperm.filter _).trans ((List.Perm.of_eq hfilter).trans hown.symm)
    exact Members.InOrder.eq_of_perm (hall.filter _) hsorted hsame
  have hsecond : (Members.ofList (own ++ extra)).filter (fun m => !known m.1) = extra := by
    have hfilter : (own ++ extra).filter (fun m => !known m.1) = extra := by
      rw [List.filter_append, List.filter_eq_nil_iff.mpr fun m hm => by simp [hknown m hm],
        List.filter_eq_self.mpr fun m hm => by simp [hextra.unknown m hm], List.nil_append]
    exact Members.InOrder.eq_of_perm (hall.filter _) hextra.order ((hperm.filter _).trans (.of_eq hfilter))
  have hproper : ∀ m ∈ Members.ofList (own ++ extra), known m.1 = false → m.2.Proper := fun m hm hfalse =>
    hextra.proper m (hsecond ▸ List.mem_filter.mpr ⟨hm, by simp [hfalse]⟩)
  have hreadAll : readAll field start (Members.ofList (own ++ extra)) = .ok (set extra) := by
    rw [h.readAll_eq start hproper, hfirst, hsecond, hread, Except.map, foldl_keep hset]
    exact congrArg (Except.ok ∘ set) hextra.order.ofList_eq
  have hmembers : (Node.ofValue.ofMembers (Members.ofList (own ++ extra))).foldlM
      (fun s m => field s m.1 m.2) start = readAll field start (Members.ofList (own ++ extra)) := by
    rw [Node.ofMembers_eq_map, List.foldlM_map]
    rfl
  rw [Node.ofValue, table, hmembers, hreadAll]
  rfl

end Reader

end PhasedWorkload
