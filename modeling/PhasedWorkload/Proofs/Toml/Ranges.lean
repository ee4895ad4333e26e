import PhasedWorkload.Proofs.Document.Values
import PhasedWorkload.Proofs.Keyed
import PhasedWorkload.Toml.Reading

/-! # Ranges of integers in TOML text

An integer is scanned only if it is in the signed range, and the tables of a file are made of what is scanned.
-/
namespace PhasedWorkload.Toml

open Text (Scan)

/-! ## Scanners -/

variable {cs rest : List Char} {n : Node}

theorem inRange_integerOf? {i : ℤ} (h : integerOf? i = some n) : n.InRange := by
  unfold integerOf? at h
  split at h
  · next hrange =>
    cases h
    have hword : maxSigned < wordBound := by decide
    exact .int i hrange.1 (hrange.2.trans_lt hword)
  · cases h

theorem inRange_doubleOf? {negative : Bool} {whole fraction : List Char} {power : ℤ}
    (h : doubleOf? negative whole fraction power = some n) : n.InRange := by
  unfold doubleOf? at h
  dsimp only at h
  split at h
  · cases h
  · cases h
    exact .float _

theorem inRange_decimal? (h : decimal? cs = some (n, rest)) : n.InRange := by
  unfold decimal? at h
  simp only [Option.bind_eq_bind, Option.bind_eq_some_iff, Option.pure_def] at h
  obtain ⟨⟨whole, afterWhole⟩, _, h⟩ := h
  split at h
  · simp only [Option.bind_eq_some_iff, Option.some.injEq] at h
    obtain ⟨_, _, number, hnumber, heq⟩ := h
    obtain ⟨rfl, _⟩ := Prod.mk.inj heq
    exact inRange_doubleOf? hnumber
  · split at h
    · obtain ⟨number, hnumber, heq⟩ := Option.bind_eq_some_iff.mp h
      cases heq
      exact inRange_doubleOf? hnumber
    · obtain ⟨number, hnumber, heq⟩ := Option.bind_eq_some_iff.mp h
      cases heq
      exact inRange_integerOf? hnumber

theorem inRange_based? {base : ℕ} {isDigit : Char → Bool} (h : based? base isDigit cs = some (n, rest)) :
    n.InRange := by
  unfold based? at h
  simp only [Option.bind_eq_bind, Option.bind_eq_some_iff, Option.pure_def, Option.some.injEq] at h
  obtain ⟨_, _, number, hnumber, heq⟩ := h
  obtain ⟨rfl, _⟩ := Prod.mk.inj heq
  exact inRange_integerOf? hnumber

theorem inRange_number? (h : number? cs = some (n, rest)) : n.InRange := by
  unfold number? at h
  split at h
  · exact inRange_based? h
  · exact inRange_based? h
  · exact inRange_based? h
  · dsimp only at h
    rcases Option.or_eq_some_iff.mp h with h | ⟨_, h⟩
    · unfold special? at h
      split at h
      · cases h
        exact .float _
      · cases h
        exact .float _
      · cases h
    · exact inRange_decimal? h

theorem inRange_dateNode (s : String) : (dateNode s).InRange :=
  .table _ _ (List.forall_mem_singleton.mpr (.text s))

theorem inRange_dateTime? (h : dateTime? cs = some (n, rest)) : n.InRange := by
  unfold dateTime? at h
  split at h
  all_goals
    obtain ⟨_, _, heq⟩ := Option.map_eq_some_iff.mp h
    obtain ⟨rfl, _⟩ := Prod.mk.inj heq
    exact inRange_dateNode _

/-! ## Tables -/

/-- All integers in what a key holds are in range. -/
inductive Item.InRange : Item → Prop where
  | leaf (value : Node) (range : value.InRange) : InRange (.leaf value)
  | table (isImplicit isDotted : Bool) (entries : Entries) (ranges : ∀ e ∈ entries, InRange e.2) :
    InRange (.table isImplicit isDotted entries)
  | tables (sections : List Entries) (ranges : ∀ entries ∈ sections, ∀ e ∈ entries, InRange e.2) :
    InRange (.tables sections)

def Entries.InRange (entries : Entries) : Prop := ∀ e ∈ entries, e.2.InRange

namespace Item

theorem entryNodes_eq_map (entries : Entries) : toNode.entryNodes entries = entries.map fun e => (e.1, e.2.toNode) := by
  induction entries with
  | nil => rfl
  | cons e entries ih => rw [toNode.entryNodes, ih, List.map_cons]

theorem sectionNodes_eq_map (sections : List Entries) :
    toNode.sectionNodes sections = sections.map fun entries => .table (toNode.entryNodes entries) true := by
  induction sections with
  | nil => rfl
  | cons entries sections ih => rw [toNode.sectionNodes, ih, List.map_cons]

theorem inRange_entryNodes {entries : Entries} (h : ∀ e ∈ entries, e.2.toNode.InRange) :
    (Node.table (toNode.entryNodes entries) true).InRange := by
  rw [entryNodes_eq_map]
  exact .table _ _ (List.forall_mem_map.mpr h)

theorem InRange.toNode {item : Item} (h : item.InRange) : item.toNode.InRange := by
  induction h with
  | leaf value range => exact range
  | table isImplicit isDotted entries _ ih => exact inRange_entryNodes ih
  | tables sections _ ih =>
    rw [Item.toNode, sectionNodes_eq_map]
    exact .list _ _ (List.forall_mem_map.mpr fun entries hentries => inRange_entryNodes (ih entries hentries))

theorem InRange.entries {isImplicit isDotted : Bool} {entries : Entries}
    (h : Item.InRange (.table isImplicit isDotted entries)) : entries.InRange := by
  cases h with
  | table _ _ _ ranges => exact ranges

/-- The last of a list of tables may be changed. -/
theorem InRange.last {sections : List Entries} {entries : Entries} (h : Item.InRange (.tables sections))
    (hlast : sections.getLast? = some entries) :
    entries.InRange ∧
      ∀ entries' : Entries, entries'.InRange → Item.InRange (.tables (sections.dropLast ++ [entries'])) := by
  cases h with
  | tables _ ranges =>
    refine ⟨ranges entries (List.mem_of_mem_getLast? hlast), fun entries' h' => .tables _ ?_⟩
    exact List.forall_mem_append.mpr ⟨fun inner hinner => ranges inner (List.dropLast_subset _ hinner),
      List.forall_mem_singleton.mpr h'⟩

end Item

namespace Entries

variable {entries entries' : Entries} {key : String} {item : Item} {value : Node} {path : List String}
  {assignments : List Assignment}

theorem inRange_nil : InRange [] := List.forall_mem_nil _

theorem InRange.toNode (h : entries.InRange) : entries.toNode.InRange := Item.InRange.toNode (.table _ _ _ h)

theorem InRange.lookup (h : entries.InRange) (hitem : entries.lookup key = some item) : item.InRange :=
  h _ (Keyed.mem_of_lookup hitem)

theorem InRange.add (h : entries.InRange) (key : String) (hitem : item.InRange) : InRange (entries ++ [(key, item)]) :=
  List.forall_mem_append.mpr ⟨h, List.forall_mem_singleton.mpr hitem⟩

theorem InRange.remove (h : entries.InRange) (key : String) : (remove entries key).InRange := fun e he =>
  h e (List.mem_of_mem_filter he)

theorem InRange.replace (h : entries.InRange) (key : String) (hitem : item.InRange) :
    (replace entries key item).InRange := by
  refine List.forall_mem_map.mpr fun e he => ?_
  split
  · exact hitem
  · exact h e he

theorem InRange.put (hvalue : value.InRange) (h : entries.InRange) (hput : put key value path entries = some entries') :
    entries'.InRange := by
  induction path generalizing entries entries' with
  | nil =>
    unfold Entries.put at hput
    split at hput
    · cases hput
    · cases hput
      exact h.add key (.leaf value hvalue)
  | cons part path ih =>
    unfold Entries.put at hput
    split at hput
    · obtain ⟨inner, hinner, rfl⟩ := Option.map_eq_some_iff.mp hput
      exact h.add part (.table _ _ _ (ih inRange_nil hinner))
    · cases hput
    · next hlookup =>
      split at hput
      · cases hput
      · obtain ⟨inner, hinner, rfl⟩ := Option.map_eq_some_iff.mp hput
        exact h.replace part (.table _ _ _ (ih (h.lookup hlookup).entries hinner))
    · next hlookup =>
      split at hput
      · cases hput
      · next last hlast =>
        obtain ⟨hold, hnew⟩ := (h.lookup hlookup).last hlast
        split at hput
        · cases hput
        · obtain ⟨inner, hinner, rfl⟩ := Option.map_eq_some_iff.mp hput
          exact h.replace part (hnew inner (ih hold hinner))

theorem InRange.at? {change : Entries → Option Entries}
    (hchange : ∀ entries entries', entries.InRange → change entries = some entries' → entries'.InRange)
    (h : entries.InRange) (hat : at? change path entries = some entries') : entries'.InRange := by
  induction path generalizing entries entries' with
  | nil => exact hchange entries entries' h hat
  | cons part path ih =>
    unfold Entries.at? at hat
    split at hat
    · obtain ⟨inner, hinner, rfl⟩ := Option.map_eq_some_iff.mp hat
      exact h.add part (.table _ _ _ (ih inRange_nil hinner))
    · cases hat
    · next hlookup =>
      obtain ⟨inner, hinner, rfl⟩ := Option.map_eq_some_iff.mp hat
      exact h.replace part (.table _ _ _ (ih (h.lookup hlookup).entries hinner))
    · next hlookup =>
      split at hat
      · cases hat
      · next last hlast =>
        obtain ⟨hold, hnew⟩ := (h.lookup hlookup).last hlast
        obtain ⟨inner, hinner, rfl⟩ := Option.map_eq_some_iff.mp hat
        exact h.replace part (hnew inner (ih hold hinner))

theorem InRange.assign (hassignments : ∀ a ∈ assignments, a.value.InRange) (h : entries.InRange)
    (hassign : assign entries assignments = some entries') : entries'.InRange := by
  induction assignments generalizing entries with
  | nil =>
    cases hassign
    exact h
  | cons a assignments ih =>
    obtain ⟨ha, hrest⟩ := List.forall_mem_cons.mp hassignments
    rw [Entries.assign, List.foldlM_cons] at hassign
    obtain ⟨inner, hinner, hassign⟩ := Option.bind_eq_some_iff.mp hassign
    exact ih hrest (h.put ha hinner) hassign

theorem InRange.define (hassignments : ∀ a ∈ assignments, a.value.InRange) (h : entries.InRange)
    (hdefine : define key assignments entries = some entries') : entries'.InRange := by
  unfold Entries.define at hdefine
  obtain ⟨start, hstart, hdefine⟩ := Option.bind_eq_some_iff.mp hdefine
  obtain ⟨inner, hinner, rfl⟩ := Option.map_eq_some_iff.mp hdefine
  have hrange : Entries.InRange start := by
    split at hstart
    · cases hstart
      exact inRange_nil
    · next hlookup =>
      cases hstart
      exact (h.lookup hlookup).entries
    · cases hstart
  exact (h.remove key).add key (.table _ _ _ (hrange.assign hassignments hinner))

theorem InRange.extend (hassignments : ∀ a ∈ assignments, a.value.InRange) (h : entries.InRange)
    (hextend : extend key assignments entries = some entries') : entries'.InRange := by
  unfold Entries.extend at hextend
  split at hextend
  · obtain ⟨inner, hinner, rfl⟩ := Option.map_eq_some_iff.mp hextend
    exact h.add key (.tables _ (List.forall_mem_singleton.mpr (inRange_nil.assign hassignments hinner)))
  · next sections hlookup =>
    obtain ⟨inner, hinner, rfl⟩ := Option.map_eq_some_iff.mp hextend
    have hinner' := inRange_nil.assign hassignments hinner
    cases h.lookup hlookup with
    | tables _ ranges =>
      exact h.replace key (.tables _ (List.forall_mem_append.mpr ⟨ranges, List.forall_mem_singleton.mpr hinner'⟩))
  · cases hextend

end Entries

/-! ## Values -/

theorem inRange_member? {value : Scan Node} (hvalue : ∀ cs n rest, value cs = some (n, rest) → n.InRange)
    {a : Entries.Assignment} (h : member? value cs = some (a, rest)) : a.value.InRange := by
  unfold member? at h
  simp only [Option.bind_eq_bind, Option.bind_eq_some_iff, Option.pure_def, Option.some.injEq] at h
  obtain ⟨_, _, _, _, ⟨n, _⟩, hn, heq⟩ := h
  obtain ⟨rfl, _⟩ := Prod.mk.inj heq
  exact hvalue _ _ _ hn

/-- What is scanned within a bound of steps is in range. -/
structure ScansInRange (fuel : ℕ) : Prop where
  value : ∀ depth cs n rest, value? fuel depth cs = some (n, rest) → n.InRange
  items : ∀ depth first cs items rest, items? fuel depth first cs = some (items, rest) → ∀ n ∈ items, n.InRange
  members : ∀ depth first cs assignments rest, members? fuel depth first cs = some (assignments, rest) →
    ∀ a ∈ assignments, a.value.InRange

theorem ScansInRange.zero : ScansInRange 0 where
  value _ _ _ _ h := by cases h
  items _ _ _ _ _ h := by cases h
  members _ _ _ _ _ h := by cases h

theorem ScansInRange.succ_value {fuel depth : ℕ} (ih : ScansInRange fuel)
    (h : value? (fuel + 1) depth cs = some (n, rest)) : n.InRange := by
  unfold value? at h
  split at h
  · cases h
  · obtain ⟨_, _, heq⟩ := Option.map_eq_some_iff.mp h
    cases heq
    exact .text _
  · obtain ⟨_, _, heq⟩ := Option.map_eq_some_iff.mp h
    cases heq
    exact .text _
  · split at h
    · cases h
    · obtain ⟨⟨items, _⟩, hitems, heq⟩ := Option.map_eq_some_iff.mp h
      cases heq
      exact .list _ _ (ih.items _ _ _ _ _ hitems)
  · split at h
    · cases h
    · simp only [Option.bind_eq_bind, Option.bind_eq_some_iff, Option.pure_def, Option.some.injEq] at h
      obtain ⟨⟨assignments, _⟩, hmembers, entries, hentries, heq⟩ := h
      cases heq
      exact (Entries.inRange_nil.assign (ih.members _ _ _ _ _ hmembers) hentries).toNode
  · cases h
    exact .bool true
  · cases h
    exact .bool false
  · rcases Option.or_eq_some_iff.mp h with h | ⟨_, h⟩
    · exact inRange_dateTime? h
    · exact inRange_number? h

theorem ScansInRange.succ_items {fuel depth : ℕ} {first : Bool} {items : List Node} (ih : ScansInRange fuel)
    (h : items? (fuel + 1) depth first cs = some (items, rest)) : ∀ n ∈ items, n.InRange := by
  have hitem : ∀ cs, ((value? fuel depth cs).bind fun item => (items? fuel depth false item.2).bind fun more =>
      some (item.1 :: more.1, more.2)) = some (items, rest) → ∀ n ∈ items, n.InRange := by
    intro cs h
    simp only [Option.bind_eq_some_iff, Option.some.injEq] at h
    obtain ⟨⟨item, _⟩, hitem, ⟨more, _⟩, hmore, heq⟩ := h
    cases heq
    exact List.forall_mem_cons.mpr ⟨ih.value _ _ _ _ hitem, ih.items _ _ _ _ _ hmore⟩
  unfold items? at h
  split at h
  · cases h
    exact List.forall_mem_nil _
  · split at h
    · cases h
    · split at h
      · cases h
        exact List.forall_mem_nil _
      · exact hitem _ h
  · split at h
    · cases h
    · exact hitem _ h

theorem ScansInRange.succ_members {fuel depth : ℕ} {first : Bool} {assignments : List Entries.Assignment}
    (ih : ScansInRange fuel) (h : members? (fuel + 1) depth first cs = some (assignments, rest)) :
    ∀ a ∈ assignments, a.value.InRange := by
  have hmember : ∀ cs, ((member? (value? fuel depth) cs).bind fun member =>
      (members? fuel depth false member.2).bind fun more => some (member.1 :: more.1, more.2)) =
        some (assignments, rest) → ∀ a ∈ assignments, a.value.InRange := by
    intro cs h
    simp only [Option.bind_eq_some_iff, Option.some.injEq] at h
    obtain ⟨⟨assignment, _⟩, hassignment, ⟨more, _⟩, hmore, heq⟩ := h
    cases heq
    exact List.forall_mem_cons.mpr ⟨inRange_member? (ih.value depth) hassignment, ih.members _ _ _ _ _ hmore⟩
  unfold members? at h
  split at h
  · cases h
    exact List.forall_mem_nil _
  · split at h
    · cases h
    · exact hmember _ h
  · split at h
    · cases h
    · exact hmember _ h

theorem scansInRange (fuel : ℕ) : ScansInRange fuel := by
  induction fuel with
  | zero => exact .zero
  | succ fuel ih =>
    constructor
    case value => exact fun _ _ _ _ h => ih.succ_value h
    case items => exact fun _ _ _ _ _ h => ih.succ_items h
    case members => exact fun _ _ _ _ _ h => ih.succ_members h

/-! ## Files -/

theorem inRange_line? {a : Entries.Assignment} (h : line? cs = some (.assignment a, rest)) : a.value.InRange := by
  unfold line? at h
  simp only [Option.bind_eq_bind, Option.pure_def] at h
  split at h
  · simp only [Option.bind_eq_some_iff, Option.some.injEq] at h
    obtain ⟨_, _, _, _, _, _, _, _, heq⟩ := h
    cases heq
  · simp only [Option.bind_eq_some_iff, Option.some.injEq] at h
    obtain ⟨_, _, _, _, _, _, heq⟩ := h
    cases heq
  · split at h
    · cases h
    · simp only [Option.bind_eq_some_iff, Option.some.injEq] at h
      obtain ⟨_, hmember, _, _, heq⟩ := h
      cases heq
      exact inRange_member? ((scansInRange _).value _) hmember

theorem inRange_lines? {fuel : ℕ} {lines : List Line} {a : Entries.Assignment} (h : lines? fuel cs = some lines)
    (ha : .assignment a ∈ lines) : a.value.InRange := by
  induction fuel generalizing cs lines with
  | zero => cases h
  | succ fuel ih =>
    cases cs with
    | nil =>
      cases h
      cases ha
    | cons c cs =>
      simp only [lines?, Option.bind_eq_bind, Option.bind_eq_some_iff, Option.pure_def, Option.some.injEq] at h
      obtain ⟨⟨line, _⟩, hline, more, hmore, rfl⟩ := h
      rcases List.mem_cons.mp ha with rfl | ha
      · exact inRange_line? hline
      · exact ih hmore ha

namespace Sections

structure InRange (s : Sections) : Prop where
  assignments : ∀ a ∈ s.assignments, a.value.InRange
  entries : s.entries.InRange

variable {s s' : Sections} {entries : Entries} {line : Line}

theorem InRange.finish (h : s.InRange) (hfinish : s.finish = some entries) : entries.InRange := by
  have hassignments : ∀ a ∈ s.assignments.reverse, a.value.InRange := fun a ha =>
    h.assignments a (List.mem_reverse.mp ha)
  unfold Sections.finish at hfinish
  split at hfinish
  · exact h.entries.assign hassignments hfinish
  · exact h.entries.at? (fun _ _ h h' => h.define hassignments h') hfinish
  · exact h.entries.at? (fun _ _ h h' => h.extend hassignments h') hfinish

theorem InRange.next (h : s.InRange) {header : Header} (hnext : s.next header = some s') : s'.InRange := by
  obtain ⟨entries, hentries, rfl⟩ := Option.map_eq_some_iff.mp hnext
  exact ⟨List.forall_mem_nil _, h.finish hentries⟩

theorem InRange.step (h : s.InRange) (hline : ∀ a, line = .assignment a → a.value.InRange)
    (hstep : s.step line = some s') : s'.InRange := by
  cases line with
  | blank =>
    cases hstep
    exact h
  | assignment a =>
    cases hstep
    exact ⟨List.forall_mem_cons.mpr ⟨hline a rfl, h.assignments⟩, h.entries⟩
  | tableHeader path key => exact h.next hstep
  | listHeader path key => exact h.next hstep

theorem InRange.foldlM (h : s.InRange) {lines : List Line} (hlines : ∀ a, .assignment a ∈ lines → a.value.InRange)
    (hfold : lines.foldlM Sections.step s = some s') : s'.InRange := by
  induction lines generalizing s with
  | nil =>
    cases hfold
    exact h
  | cons line lines ih =>
    rw [List.foldlM_cons] at hfold
    obtain ⟨next, hnext, hfold⟩ := Option.bind_eq_some_iff.mp hfold
    have hfirst := h.step (fun a heq => hlines a (heq ▸ List.mem_cons_self)) hnext
    exact ih hfirst (fun a ha => hlines a (List.mem_cons_of_mem _ ha)) hfold

end Sections

theorem inRange_readChars? (h : readChars? cs = some n) : n.InRange := by
  unfold readChars? at h
  simp only [Option.bind_eq_bind, Option.bind_eq_some_iff, Option.pure_def, Option.some.injEq] at h
  obtain ⟨lines, hlines, s, hfold, entries, hfinish, rfl⟩ := h
  have hstart : Sections.InRange {} := ⟨List.forall_mem_nil _, Entries.inRange_nil⟩
  exact ((hstart.foldlM (fun _ ha => inRange_lines? hlines ha) hfold).finish hfinish).toNode

theorem inRange_read (s : String) : (read s).root.InRange := by
  rw [read]
  cases h : readChars? (dropMark s.toList) with
  | none => exact .broken
  | some n => exact inRange_readChars? h

end PhasedWorkload.Toml
