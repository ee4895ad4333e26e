import PhasedWorkload.Json.Reading
import PhasedWorkload.Proofs.Json.Lexing

/-! # Trees of printed values

The tokens of a value are folded from wherever a value is expected to where its tree has been placed. So the parts of a
list or a table are folded one after another, each with the open list or table and what is open around it left alone.
-/
namespace PhasedWorkload.Json

namespace Builder

variable {frames : List Frame} {expectation : Expectation} {root : Option Node} {v : Value}

/-- Whether a value may be placed: a table has to have a key for it. -/
def accepts : List Frame → Bool
  | .table _ none :: _ => false
  | _ => true

/-- What the grammar allows next is settled by where a value is placed. -/
theorem place_eq (haccepts : accepts frames = true) (n : Node) :
    place ⟨frames, expectation, root, false⟩ n = place ⟨frames, .value, root, false⟩ n := by
  rcases frames with _ | ⟨_ | ⟨members, _ | key⟩, frames⟩
  · rfl
  · rfl
  · cases haccepts
  · rfl

/-- The tokens of a value build its tree, wherever a value is expected and as deep as lists and tables may be. -/
def BuildsWell (v : Value) : Prop :=
  ∀ frames expectation root, expectation = .value ∨ expectation = .valueOrClose → accepts frames = true →
    frames.length + v.depth ≤ maxDepth →
      (tokensOf v).foldl step ⟨frames, expectation, root, false⟩ = place ⟨frames, .value, root, false⟩ (Node.ofValue v)

theorem step_value (hexpectation : expectation = .value ∨ expectation = .valueOrClose) {t : Token}
    (ht : t ≠ .closeList) : step ⟨frames, expectation, root, false⟩ t = value ⟨frames, expectation, root, false⟩ t := by
  rcases hexpectation with rfl | rfl
  · rfl
  · cases t <;> first | rfl | exact absurd rfl ht

theorem ofItems_cons_cons (v w : Value) (items : List Value) :
    tokensOf.ofItems (v :: w :: items) = tokensOf v ++ .comma :: tokensOf.ofItems (w :: items) := by
  simp [tokensOf.ofItems]

theorem ofMembers_cons_cons (m n : String × Value) (members : Members) :
    tokensOf.ofMembers (m :: n :: members) =
      (.text m.1 :: .colon :: tokensOf m.2) ++ .comma :: tokensOf.ofMembers (n :: members) := by
  simp [tokensOf.ofMembers]

theorem foldl_items {items : List Value} (done : List Node) (root : Option Node) (h : ∀ v ∈ items, BuildsWell v)
    (hitems : items ≠ []) (hdepth : ∀ v ∈ items, frames.length + 1 + v.depth ≤ maxDepth)
    (hexpectation : expectation = .value ∨ expectation = .valueOrClose) :
    (tokensOf.ofItems items).foldl step ⟨.list done :: frames, expectation, root, false⟩ =
      ⟨.list ((Node.ofValue.ofItems items).reverse ++ done) :: frames, .commaOrClose, root, false⟩ := by
  -- after the first item a comma puts the builder back where a value is expected
  induction items generalizing done expectation with
  | nil => exact absurd rfl hitems
  | cons v items ih =>
    have hv := h v List.mem_cons_self (.list done :: frames) expectation root hexpectation rfl
      (hdepth v List.mem_cons_self)
    cases items with
    | nil => exact hv
    | cons w items =>
      have hrest := ih (Node.ofValue v :: done) (fun u hu => h u (List.mem_cons_of_mem _ hu))
        (List.cons_ne_nil _ _) (fun u hu => hdepth u (List.mem_cons_of_mem _ hu)) (.inl rfl)
      rw [ofItems_cons_cons, List.foldl_append, hv, Node.ofValue.ofItems, List.reverse_cons, List.append_assoc]
      exact hrest

theorem foldl_members {members : Members} (done : List (String × Node)) (root : Option Node)
    (h : ∀ m ∈ members, BuildsWell m.2) (hmembers : members ≠ [])
    (hdepth : ∀ m ∈ members, frames.length + 1 + m.2.depth ≤ maxDepth)
    (hexpectation : expectation = .key ∨ expectation = .keyOrClose) :
    (tokensOf.ofMembers members).foldl step ⟨.table done none :: frames, expectation, root, false⟩ =
      ⟨.table ((Node.ofValue.ofMembers members).reverse ++ done) none :: frames, .commaOrClose, root, false⟩ := by
  induction members generalizing done expectation with
  | nil => exact absurd rfl hmembers
  | cons m members ih =>
    have hkey : step (step ⟨.table done none :: frames, expectation, root, false⟩ (.text m.1)) .colon =
        ⟨.table done (some m.1) :: frames, .value, root, false⟩ := by
      rcases hexpectation with rfl | rfl <;> rfl
    have hm := h m List.mem_cons_self (.table done (some m.1) :: frames) .value root (.inl rfl) rfl
      (hdepth m List.mem_cons_self)
    have hmember : (Token.text m.1 :: .colon :: tokensOf m.2).foldl step
        ⟨.table done none :: frames, expectation, root, false⟩ =
          ⟨.table ((m.1, Node.ofValue m.2) :: done) none :: frames, .commaOrClose, root, false⟩ := by
      rw [List.foldl_cons, List.foldl_cons, hkey, hm]
      rfl
    cases members with
    | nil => exact hmember
    | cons n members =>
      have hrest := ih ((m.1, Node.ofValue m.2) :: done) (fun k hk => h k (List.mem_cons_of_mem _ hk))
        (List.cons_ne_nil _ _) (fun k hk => hdepth k (List.mem_cons_of_mem _ hk)) (.inl rfl)
      rw [ofMembers_cons_cons, List.foldl_append, hmember, Node.ofValue.ofMembers, List.reverse_cons, List.append_assoc]
      exact hrest

theorem buildsWell_of_proper (h : v.Proper) : BuildsWell v := by
  induction h with
  | null | bool | int | float | text =>
    intro frames expectation root hexpectation haccepts _
    rcases hexpectation with rfl | rfl <;> exact place_eq haccepts _
  | list items _ ih =>
    intro frames expectation root hexpectation haccepts hdepth
    have hparts : ∀ v ∈ items, frames.length + 1 + v.depth ≤ maxDepth := fun v hv => by
      have hlt := Value.depth_lt_list hv
      omega
    have hroom : frames.length < maxDepth := by
      rw [Value.depth] at hdepth
      omega
    have hopen : step ⟨frames, expectation, root, false⟩ .openList =
        ⟨.list [] :: frames, .valueOrClose, root, false⟩ := by
      rw [step_value hexpectation (by decide), value, openFrame, if_pos hroom]
    rw [tokensOf, List.cons_append, List.foldl_cons, hopen]
    by_cases hempty : items = []
    · subst hempty
      exact place_eq haccepts _
    · have hfold := foldl_items [] root ih hempty hparts (.inr rfl)
      rw [List.foldl_append, hfold, List.append_nil, List.foldl_cons, List.foldl_nil]
      simp only [step, close, List.reverse_reverse]
      exact place_eq haccepts _
  | object members _ _ ih =>
    intro frames expectation root hexpectation haccepts hdepth
    have hparts : ∀ m ∈ members, frames.length + 1 + m.2.depth ≤ maxDepth := fun m hm => by
      have hlt := Value.depth_lt_object hm
      omega
    have hroom : frames.length < maxDepth := by
      rw [Value.depth] at hdepth
      omega
    have hopen : step ⟨frames, expectation, root, false⟩ .openTable =
        ⟨.table [] none :: frames, .keyOrClose, root, false⟩ := by
      rw [step_value hexpectation (by decide), value, openFrame, if_pos hroom]
    rw [tokensOf, List.cons_append, List.foldl_cons, hopen]
    by_cases hempty : members = []
    · subst hempty
      exact place_eq haccepts _
    · have hfold := foldl_members [] root ih hempty hparts (.inr rfl)
      rw [List.foldl_append, hfold, List.append_nil, List.foldl_cons, List.foldl_nil]
      simp only [step, close, List.reverse_reverse]
      exact place_eq haccepts _

end Builder

/-- Reading the text of a value gives its tree, with nothing after it. -/
theorem read_render {v : Value} (h : v.Proper) (hdoubles : ∀ x ∈ v.doubles, x.IsLegible) (hdepth : v.depth ≤ maxDepth) :
    read (render v) = ⟨Node.ofValue v, false⟩ := by
  have hbuilt := Builder.buildsWell_of_proper h [] .value none (.inl rfl) rfl (by simpa using hdepth)
  rw [read, ofTokens, tokens_render h hdoubles, hbuilt]
  rfl

end PhasedWorkload.Json
