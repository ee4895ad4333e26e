import PhasedWorkload.Proofs.Json.Ranges
import PhasedWorkload.Proofs.Plan.Printing
import PhasedWorkload.Proofs.Toml.Ranges

/-! # Plans as they are read

Whatever a field is read from, what is kept of it is in range: the tables of a text hold integers in range, and the
readers of quantities refuse all others.
-/
namespace PhasedWorkload

open Reader (Kept)

theorem ok_of_bind {α β ε : Type} {x : Except ε α} {f : α → Except ε β} {b : β} (h : x >>= f = .ok b) :
    ∃ a, x = .ok a ∧ f a = .ok b := by
  cases x with
  | error e => cases h
  | ok a => exact ⟨a, rfl, h⟩

theorem ok_of_map {α β ε : Type} {x : Except ε α} {f : α → β} {b : β} (h : x.map f = .ok b) :
    ∃ a, x = .ok a ∧ f a = b := by
  cases x with
  | error e => cases h
  | ok a => exact ⟨a, rfl, Except.ok.inj h⟩

namespace Reader

variable {α σ : Type} {read : Reader α} {n : Node} {P : α → Prop}

theorem of_once {name : String} {seen x : Option α} (h : ∀ a, read n = .ok a → P a)
    (hx : once name seen read n = .ok x) : ∀ a, x = some a → P a := by
  unfold once at hx
  split at hx
  · cases hx
  · obtain ⟨a, ha, rfl⟩ := ok_of_map hx
    rintro b heq
    exact Option.some.inj heq ▸ h a ha

theorem of_optional {x : Option α} (h : ∀ a, read n = .ok a → P a) (hx : optional read n = .ok x) :
    ∀ a, x = some a → P a := by
  by_cases hnull : n = .null
  · subst hnull
    cases hx
    exact fun _ heq => by cases heq
  · rw [optional_of_ne_null hnull] at hx
    obtain ⟨a, ha, rfl⟩ := ok_of_map hx
    exact fun b heq => Option.some.inj heq ▸ h a ha

/-- A field that may be absent. -/
theorem of_once_optional {name : String} {seen x : Option (Option α)} (h : ∀ a, read n = .ok a → P a)
    (hx : once name seen (optional read) n = .ok x) : ∀ a, x = some (some a) → P a := fun a heq =>
  of_once (P := fun y => ∀ a, y = some a → P a) (fun _ hy => of_optional h hy) hx _ heq a rfl

theorem of_mapM {nodes : List Node} {items : List α} (h : ∀ n ∈ nodes, ∀ a, read n = .ok a → P a)
    (hitems : nodes.mapM read = .ok items) : ∀ a ∈ items, P a := by
  induction nodes generalizing items with
  | nil =>
    cases hitems
    exact List.forall_mem_nil _
  | cons n nodes ih =>
    obtain ⟨hn, hnodes⟩ := List.forall_mem_cons.mp h
    rw [List.mapM_cons] at hitems
    obtain ⟨a, ha, hitems⟩ := ok_of_bind hitems
    obtain ⟨more, hmore, hitems⟩ := ok_of_bind hitems
    cases hitems
    exact List.forall_mem_cons.mpr ⟨hn a ha, ih hnodes hmore⟩

theorem of_list {items : List α} (h : ∀ n, n.InRange → ∀ a, read n = .ok a → P a) (hn : n.InRange)
    (hitems : list read n = .ok items) : ∀ a ∈ items, P a := by
  cases hn with
  | list nodes closed ranges =>
    obtain ⟨values, hvalues, hclosed⟩ := ok_of_bind hitems
    split at hclosed
    · obtain rfl := Except.ok.inj hclosed
      exact of_mapM (fun n hn => h n (ranges n hn)) hvalues
    · cases hclosed
  | null | bool | int | float | text | table | broken => cases hitems

variable {S : σ → Prop} {start final : σ} {field : σ → String → Node → Except ReadFault σ}

theorem of_foldlM {members : List (String × Node)}
    (hfield : ∀ s key n s', S s → n.InRange → field s key n = .ok s' → S s') (hstart : S start)
    (hmembers : ∀ m ∈ members, m.2.InRange)
    (hfinal : members.foldlM (fun s m => field s m.1 m.2) start = .ok final) : S final := by
  induction members generalizing start with
  | nil =>
    cases hfinal
    exact hstart
  | cons m members ih =>
    obtain ⟨hm, hmembers⟩ := List.forall_mem_cons.mp hmembers
    rw [List.foldlM_cons] at hfinal
    obtain ⟨next, hnext, hfinal⟩ := ok_of_bind hfinal
    exact ih (hfield start m.1 m.2 next hstart hm hnext) hmembers hfinal

/-- What every field keeps holds of the record that is read. -/
theorem of_table {expected : String} (hfield : ∀ s key n s', S s → n.InRange → field s key n = .ok s' → S s')
    (hstart : S start) (hn : n.InRange) (hfinal : table expected start field n = .ok final) : S final := by
  cases hn with
  | table members closed ranges =>
    obtain ⟨s, hfold, hclosed⟩ := ok_of_bind hfinal
    split at hclosed
    · obtain rfl := Except.ok.inj hclosed
      exact of_foldlM hfield hstart ranges hfold
    · cases hclosed
  | null | bool | int | float | text | list | broken => cases hfinal

theorem mismatch_ne_ok (expected : String) (n : Node) (a : α) : mismatch expected n ≠ .ok a := by
  intro h
  cases n <;> cases h

theorem lt_wordBound_of_word {k : ℕ} (h : word n = .ok k) : k < wordBound := by
  obtain ⟨i, hi, rfl⟩ := ok_of_map h
  unfold integer at hi
  split at hi
  · split at hi
    · next hrange =>
      cases hi
      omega
    · cases hi
  · exact absurd hi (mismatch_ne_ok _ _ _)

theorem proper_of_rate {r : Rate} (h : rate n = .ok r) : r.Proper := by
  obtain ⟨s, _, hparse⟩ := ok_of_bind h
  exact Rate.proper_of_parse (ok_of_mapError hparse)

theorem proper_of_value {v : Value} (hn : n.InRange) (h : value n = .ok v) : v.Proper := by
  unfold value at h
  split at h
  · next hvalue =>
    cases h
    exact hn.proper hvalue
  · cases h

end Reader

namespace Block

namespace Fields

structure Proper (f : Fields) : Prop where
  phase : ∀ n, f.phase = some (some n) → n < wordBound
  rate : ∀ r, f.rate = some (some r) → r.Proper
  operation : ∀ v, f.operation = some (some v) → v.Proper
  extra : Kept isField f.extra

theorem Proper.field {f f' : Fields} {key : String} {n : Node} (h : f.Proper) (hn : n.InRange)
    (hfield : f.field key n = .ok f') : f'.Proper := by
  unfold Fields.field at hfield
  split at hfield
  all_goals
    obtain ⟨x, hx, heq⟩ := ok_of_bind hfield
    obtain rfl := Except.ok.inj heq
  case h_1 =>
    exact ⟨Reader.of_once_optional (fun _ hk => Reader.lt_wordBound_of_word hk) hx, h.rate, h.operation, h.extra⟩
  case h_4 => exact ⟨h.phase, Reader.of_once_optional (fun _ hr => Reader.proper_of_rate hr) hx, h.operation, h.extra⟩
  case h_11 => exact ⟨h.phase, h.rate, Reader.of_once_optional (fun _ hv => Reader.proper_of_value hn hv) hx, h.extra⟩
  case h_12 =>
    have hkey : isField key = false := by simp_all [isField]
    exact ⟨h.phase, h.rate, h.operation, h.extra.put hkey (Reader.proper_of_value hn hx)⟩
  all_goals exact ⟨h.phase, h.rate, h.operation, h.extra⟩

theorem Proper.block {f : Fields} (h : f.Proper) : f.block.Proper where
  phase n hn := h.phase n (Option.join_eq_some_iff.mp hn)
  rate r hr := h.rate r (Option.join_eq_some_iff.mp hr)
  operation v hv := h.operation v (Option.join_eq_some_iff.mp hv)
  extra := h.extra

theorem Proper.start : Proper {} where
  phase _ h := by cases h
  rate _ h := by cases h
  operation _ h := by cases h
  extra := .nil

end Fields

theorem proper_of_reader {n : Node} {b : Block} (hn : n.InRange) (h : reader n = .ok b) : b.Proper := by
  obtain ⟨f, hf, rfl⟩ := ok_of_map h
  exact (Reader.of_table (fun _ _ _ _ hs hn => hs.field hn) Fields.Proper.start hn hf).block

end Block

namespace Entry

namespace Fields

structure Proper (f : Fields) : Prop where
  blocks : ∀ blocks, f.blocks = some blocks → ∀ b ∈ blocks, b.Proper
  extra : Kept isField f.extra

theorem Proper.start : Proper {} where
  blocks _ h := by cases h
  extra := .nil

theorem Proper.field {f f' : Fields} {key : String} {n : Node} (h : f.Proper) (hn : n.InRange)
    (hfield : f.field key n = .ok f') : f'.Proper := by
  unfold Fields.field at hfield
  split at hfield
  all_goals
    obtain ⟨x, hx, heq⟩ := ok_of_bind hfield
    obtain rfl := Except.ok.inj heq
  case h_4 =>
    exact ⟨Reader.of_once (fun _ => Reader.of_list (fun _ hn _ => Block.proper_of_reader hn) hn) hx, h.extra⟩
  case h_5 =>
    have hkey : isField key = false := by simp_all [isField]
    exact ⟨h.blocks, h.extra.put hkey (Reader.proper_of_value hn hx)⟩
  all_goals exact ⟨h.blocks, h.extra⟩

theorem Proper.entry {f : Fields} {e : Entry} (h : f.Proper) (he : f.entry = .ok e) : e.Proper := by
  obtain ⟨type, _, heq⟩ := ok_of_bind he
  obtain rfl := Except.ok.inj heq
  refine ⟨fun b hb => ?_, h.extra⟩
  cases hblocks : f.blocks with
  | none =>
    rw [hblocks] at hb
    cases hb
  | some blocks =>
    rw [hblocks] at hb
    exact h.blocks blocks hblocks b hb

end Fields

theorem proper_of_reader {n : Node} {e : Entry} (hn : n.InRange) (h : reader n = .ok e) : e.Proper := by
  obtain ⟨f, hf, he⟩ := ok_of_bind h
  exact (Reader.of_table (fun _ _ _ _ hs hn => hs.field hn) Fields.Proper.start hn hf).entry he

end Entry

namespace Plan

namespace Fields

structure Proper (f : Fields) : Prop where
  entries : ∀ entries, f.entries = some entries → ∀ e ∈ entries, e.Proper
  extra : Kept isField f.extra

theorem Proper.start : Proper {} where
  entries _ h := by cases h
  extra := .nil

theorem Proper.field {f f' : Fields} {key : String} {n : Node} (h : f.Proper) (hn : n.InRange)
    (hfield : f.field key n = .ok f') : f'.Proper := by
  unfold Fields.field at hfield
  split at hfield
  all_goals
    obtain ⟨x, hx, heq⟩ := ok_of_bind hfield
    obtain rfl := Except.ok.inj heq
  case h_1 => exact ⟨h.entries, h.extra⟩
  case h_2 =>
    exact ⟨Reader.of_once (fun _ => Reader.of_list (fun _ hn _ => Entry.proper_of_reader hn) hn) hx, h.extra⟩
  case h_3 =>
    have hkey : isField key = false := by simp_all [isField]
    exact ⟨h.entries, h.extra.put hkey (Reader.proper_of_value hn hx)⟩

theorem Proper.plan {f : Fields} {p : Plan} (h : f.Proper) (hp : f.plan = .ok p) : p.Proper := by
  obtain ⟨schema, _, hp⟩ := ok_of_bind hp
  obtain ⟨entries, hentries, heq⟩ := ok_of_bind hp
  obtain rfl := Except.ok.inj heq
  refine ⟨fun e he => ?_, h.extra⟩
  cases hsome : f.entries with
  | none =>
    rw [hsome] at hentries
    cases hentries
  | some entries' =>
    rw [hsome] at hentries
    obtain rfl := Except.ok.inj hentries
    exact h.entries _ hsome e he

end Fields

theorem proper_of_reader {n : Node} {p : Plan} (hn : n.InRange) (h : reader n = .ok p) : p.Proper := by
  obtain ⟨f, hf, hp⟩ := ok_of_bind h
  exact (Reader.of_table (fun _ _ _ _ hs hn => hs.field hn) Fields.Proper.start hn hf).plan hp

theorem inRange_document (format : FileFormat) (s : String) : (format.document s).root.InRange := by
  cases format with
  | json => exact Json.inRange_read s
  | toml => exact Toml.inRange_read s

/-- Every plan that is read is proper, whatever its text. -/
theorem proper_of_read {format : FileFormat} {s : String} {p : Plan} (h : read format s = .ok p) : p.Proper := by
  obtain ⟨q, hq, htrailing⟩ := ok_of_bind h
  split at htrailing
  · cases htrailing
  · obtain rfl := Except.ok.inj htrailing
    exact proper_of_reader (inRange_document format s) hq

end Plan

end PhasedWorkload
