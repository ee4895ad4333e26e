import PhasedWorkload.Plan.Reading
import PhasedWorkload.Proofs.Document.Tables
import PhasedWorkload.Proofs.Quantity.Printing

/-! # Plans printed and read again

The members of a printed block, entry or plan are its fields, as far as they have a value, and what is kept besides
them. Read in the order of their keys, they give the record back.
-/
namespace PhasedWorkload

open Reader (Kept Separates readAll)

namespace Reader

theorem word_ofValue {n : ℕ} (h : n < wordBound) : word (Node.ofValue (.int n)) = .ok n := by
  have hrange : (0 : ℤ) ≤ n ∧ (n : ℤ) ≤ wordBound - 1 := by omega
  rw [Node.ofValue, word, integer, if_pos hrange]
  rfl

theorem count_ofValue {n : Count} (h : n.IsPortable) : count (Node.ofValue (.int n.value)) = .ok n := by
  have hread : Count.ofScalar (if minSigned ≤ (n.value : ℤ) ∧ (n.value : ℤ) ≤ maxSigned then .int n.value
      else .float (Binary64.ofInt n.value)) = .ok n := by
    by_cases hshort : (n.value : ℤ) ≤ maxSigned
    · have hrange : minSigned ≤ (n.value : ℤ) ∧ (n.value : ℤ) ≤ maxSigned := by
        unfold minSigned
        omega
      rw [if_pos hrange, Count.ofScalar_int]
    · rw [if_neg fun hrange => hshort hrange.2, Count.ofScalar, h.ofBinary64? hshort]
      rfl
  rw [Node.ofValue, count]
  simp only [scalar, bind, Except.bind, hread]
  rfl

theorem timeSpan_ofValue {t : TimeSpan} (h : t.nanos < wordBound) :
    timeSpan (Node.ofValue (.text t.render)) = .ok t := by
  have hread : TimeSpan.ofScalar (.text t.render) = .ok t := TimeSpan.parse_render h
  rw [Node.ofValue, timeSpan]
  simp only [scalar, bind, Except.bind, hread]
  rfl

theorem rate_ofValue {r : Rate} (h : r.Proper) : rate (Node.ofValue (.text r.render)) = .ok r := by
  rw [Node.ofValue, rate]
  simp only [text, textAs, bind, Except.bind, Rate.parse_render h]
  rfl

end Reader

namespace Block

variable {b : Block}

def isField (key : String) : Bool :=
  ["Phase", "Repeat", "Duration", "Rate", "RateLimiterName", "SkipFirstLoop", "Nop", "nop", "NoOp", "noop",
    "Operation"].contains key

namespace Fields

def keep (f : Fields) (key : String) (v : Value) : Fields := { f with extra := f.extra.put key v }

theorem separates : Separates isField keep field where
  keeps f key n h := by
    unfold field
    split
    case h_12 => cases Reader.value n <;> rfl
    all_goals cases h
  commutes f kept v key n h := by
    unfold field
    split
    case h_12 => simp_all [isField]
    all_goals
      simp only [keep, bind, Except.bind, Except.map, pure, Except.pure]
      split <;> rfl

end Fields

/-- What a reader makes of a block. -/
structure Proper (b : Block) : Prop where
  phase : ∀ n, b.phase = some n → n < wordBound
  rate : ∀ r, b.rate = some r → r.Proper
  operation : ∀ v, b.operation = some v → v.Proper
  extra : Kept isField b.extra

/-- A block that is read as it was printed: its span of time fits 64 bits, its count is kept, and its operation is
not nothing. -/
structure IsPortable (b : Block) : Prop where
  repeats : ∀ n ∈ b.repeats, n.IsPortable
  duration : ∀ t ∈ b.duration, t.nanos < wordBound
  operation : ∀ v ∈ b.operation, v.isNull = false

instance (b : Block) : Decidable b.IsPortable :=
  decidable_of_iff ((∀ n ∈ b.repeats, n.IsPortable) ∧ (∀ t ∈ b.duration, t.nanos < wordBound) ∧
    ∀ v ∈ b.operation, v.isNull = false) ⟨fun h => ⟨h.1, h.2.1, h.2.2⟩, fun h => ⟨h.repeats, h.duration, h.operation⟩⟩

/-- The members of the fields, as they are printed. -/
def own (b : Block) : Members :=
  memberOf? "Phase" (fun (n : ℕ) => .int n) b.phase ++
  memberOf? "Repeat" (fun (n : Count) => .int n.value) b.repeats ++
  memberOf? "Duration" (fun t => .text t.render) b.duration ++
  memberOf? "Rate" (fun r => .text r.render) b.rate ++
  memberOf? "RateLimiterName" .text b.limiterName ++
  [("SkipFirstLoop", .bool b.skipFirst)] ++
  memberOf? "Nop" .bool b.nop ++
  memberOf? "Operation" id b.operation

/-- The same members in the order of their keys. -/
def sorted (b : Block) : Members :=
  memberOf? "Duration" (fun t => .text t.render) b.duration ++
  memberOf? "Nop" .bool b.nop ++
  memberOf? "Operation" id b.operation ++
  memberOf? "Phase" (fun (n : ℕ) => .int n) b.phase ++
  memberOf? "Rate" (fun r => .text r.render) b.rate ++
  memberOf? "RateLimiterName" .text b.limiterName ++
  memberOf? "Repeat" (fun (n : Count) => .int n.value) b.repeats ++
  [("SkipFirstLoop", .bool b.skipFirst)]

theorem sorted_perm (b : Block) : b.sorted.Perm b.own := by
  classical
  refine List.perm_iff_count.mpr fun m => ?_
  simp only [sorted, own, List.count_append]
  omega

theorem keys_sorted (b : Block) : (b.sorted.map Prod.fst).Sublist
    ["Duration", "Nop", "Operation", "Phase", "Rate", "RateLimiterName", "Repeat", "SkipFirstLoop"] := by
  simp only [sorted, List.map_append]
  exact (((((((Reader.keys_memberOf? _ _ _).append
    (Reader.keys_memberOf? _ _ _)).append
    (Reader.keys_memberOf? _ _ _)).append
    (Reader.keys_memberOf? _ _ _)).append
    (Reader.keys_memberOf? _ _ _)).append
    (Reader.keys_memberOf? _ _ _)).append
    (Reader.keys_memberOf? _ _ _)).append (.refl _)

/-- The fields of a printed block that have been read, with some of what is kept. -/
def fields (b : Block) (kept : Members) : Fields where
  phase := b.phase.map some
  repeats := b.repeats.map some
  duration := b.duration.map some
  rate := b.rate.map some
  limiterName := b.limiterName.map some
  skipFirst := some b.skipFirst
  nop := b.nop.map some
  operation := b.operation.map some
  extra := kept

theorem block_fields (b : Block) : (b.fields b.extra).block = b := by
  simp only [Fields.block, fields, Reader.join_map_some]
  rfl

theorem toValue_eq (b : Block) : b.toValue = .object (Members.ofList (b.own ++ b.extra)) := rfl

theorem readAll_sorted (h : b.Proper) (hportable : b.IsPortable) :
    readAll Fields.field {} b.sorted = .ok (b.fields []) := by
  -- the fields that have been read before each of the members
  let f₁ : Fields := { duration := b.duration.map some }
  let f₂ : Fields := { f₁ with nop := b.nop.map some }
  let f₃ : Fields := { f₂ with operation := b.operation.map some }
  let f₄ : Fields := { f₃ with phase := b.phase.map some }
  let f₅ : Fields := { f₄ with rate := b.rate.map some }
  let f₆ : Fields := { f₅ with limiterName := b.limiterName.map some }
  let f₇ : Fields := { f₆ with repeats := b.repeats.map some }
  have hduration := Reader.readAll_memberOf? Fields.field "Duration" "Duration" (fun t : TimeSpan => .text t.render)
    Reader.timeSpan b.duration (fun x => { duration := x }) (fun n => rfl)
    fun t ht => ⟨by simp [Node.ofValue], Reader.timeSpan_ofValue (hportable.duration t ht)⟩
  have hnop := Reader.readAll_memberOf? Fields.field "Nop" "Nop" .bool Reader.bool b.nop
    (fun x => { f₁ with nop := x }) (fun n => rfl)
    fun flag _ => ⟨by simp [Node.ofValue], rfl⟩
  have hoperation := Reader.readAll_memberOf? Fields.field "Operation" "Operation" id Reader.value b.operation
    (fun x => { f₂ with operation := x }) (fun n => rfl)
    fun v hv => ⟨Node.ofValue_ne_null (hportable.operation v hv), Reader.value_ofValue (h.operation v hv)⟩
  have hphase := Reader.readAll_memberOf? Fields.field "Phase" "Phase" (fun n : ℕ => .int n) Reader.word b.phase
    (fun x => { f₃ with phase := x }) (fun n => rfl)
    fun n hn => ⟨by simp [Node.ofValue], Reader.word_ofValue (h.phase n hn)⟩
  have hrate := Reader.readAll_memberOf? Fields.field "Rate" "Rate" (fun r : Rate => .text r.render) Reader.rate b.rate
    (fun x => { f₄ with rate := x }) (fun n => rfl)
    fun r hr => ⟨by simp [Node.ofValue], Reader.rate_ofValue (h.rate r hr)⟩
  have hname := Reader.readAll_memberOf? Fields.field "RateLimiterName" "RateLimiterName" .text Reader.text
    b.limiterName (fun x => { f₅ with limiterName := x }) (fun n => rfl)
    fun s _ => ⟨by simp [Node.ofValue], rfl⟩
  have hrepeats := Reader.readAll_memberOf? Fields.field "Repeat" "Repeat" (fun n : Count => .int n.value) Reader.count
    b.repeats (fun x => { f₆ with repeats := x }) (fun n => rfl)
    fun n hn => ⟨by simp [Node.ofValue], Reader.count_ofValue (hportable.repeats n hn)⟩
  have hskip : readAll Fields.field f₇ [("SkipFirstLoop", .bool b.skipFirst)] = .ok (b.fields []) :=
    Reader.readAll_singleton rfl
  exact Reader.readAll_append_ok (Reader.readAll_append_ok (Reader.readAll_append_ok (Reader.readAll_append_ok
    (Reader.readAll_append_ok (Reader.readAll_append_ok (Reader.readAll_append_ok hduration hnop) hoperation) hphase)
    hrate) hname) hrepeats) hskip

theorem reader_toValue (h : b.Proper) (hportable : b.IsPortable) : reader (Node.ofValue b.toValue) = .ok b := by
  have htable := Fields.separates.table_ofValue "struct PhaseNode" b.fields
    ["Duration", "Nop", "Operation", "Phase", "Rate", "RateLimiterName", "Repeat", "SkipFirstLoop"] (fun _ _ _ => rfl)
    b.sorted_perm b.keys_sorted (by decide) (by decide) h.extra (readAll_sorted h hportable)
  rw [reader, toValue_eq, htable, Except.map, block_fields]

theorem proper_toValue (h : b.Proper) (hportable : b.IsPortable) : b.toValue.Proper := by
  refine Reader.proper_object b.own ?_ h.extra.proper
  simp only [own, List.forall_mem_append, and_assoc]
  have hphase := fun n hn => Value.Proper.int (n : ℕ) (by unfold minSigned; omega) (Int.ofNat_lt.mpr (h.phase n hn))
  have hrepeats := fun (n : Count) hn =>
    Value.Proper.int n.value (by unfold minSigned; omega) (Int.ofNat_lt.mpr (hportable.repeats n hn).lt_wordBound)
  exact ⟨Reader.proper_memberOf? hphase, Reader.proper_memberOf? hrepeats, Reader.proper_memberOf? fun t _ => .text _,
    Reader.proper_memberOf? fun r _ => .text _, Reader.proper_memberOf? fun s _ => .text s,
    List.forall_mem_singleton.mpr (.bool _), Reader.proper_memberOf? fun flag _ => .bool flag,
    Reader.proper_memberOf? h.operation⟩

end Block

namespace Entry

variable {e : Entry}

def isField (key : String) : Bool := ["Name", "Type", "Threads", "Phases"].contains key

namespace Fields

def keep (f : Fields) (key : String) (v : Value) : Fields := { f with extra := f.extra.put key v }

theorem separates : Separates isField keep field where
  keeps f key n h := by
    unfold field
    split
    case h_5 => cases Reader.value n <;> rfl
    all_goals cases h
  commutes f kept v key n h := by
    unfold field
    split
    case h_5 => simp_all [isField]
    all_goals
      simp only [keep, bind, Except.bind, Except.map, pure, Except.pure]
      split <;> rfl

end Fields

structure Proper (e : Entry) : Prop where
  blocks : ∀ b ∈ e.blocks, b.Proper
  extra : Kept isField e.extra

structure IsPortable (e : Entry) : Prop where
  threads : e.threads.IsPortable
  blocks : ∀ b ∈ e.blocks, b.IsPortable

instance (e : Entry) : Decidable e.IsPortable :=
  decidable_of_iff (e.threads.IsPortable ∧ ∀ b ∈ e.blocks, b.IsPortable)
    ⟨fun h => ⟨h.1, h.2⟩, fun h => ⟨h.threads, h.blocks⟩⟩

def own (e : Entry) : Members :=
  memberOf? "Name" .text e.givenName ++
  [("Type", .text e.type), ("Threads", .int e.threads.value), ("Phases", .list (e.blocks.map Block.toValue))]

def sorted (e : Entry) : Members :=
  memberOf? "Name" .text e.givenName ++
  [("Phases", .list (e.blocks.map Block.toValue)), ("Threads", .int e.threads.value), ("Type", .text e.type)]

theorem sorted_perm (e : Entry) : e.sorted.Perm e.own :=
  (List.reverse_perm _).symm.append_left _

theorem keys_sorted (e : Entry) : (e.sorted.map Prod.fst).Sublist ["Name", "Phases", "Threads", "Type"] := by
  rw [sorted, List.map_append]
  exact (Reader.keys_memberOf? _ _ _).append (.refl _)

def fields (e : Entry) (kept : Members) : Fields where
  name := e.givenName.map some
  type := some e.type
  threads := some e.threads
  blocks := some e.blocks
  extra := kept

theorem entry_fields (e : Entry) : (e.fields e.extra).entry = .ok e := by
  simp only [Fields.entry, fields, Reader.join_map_some]
  rfl

theorem toValue_eq (e : Entry) : e.toValue = .object (Members.ofList (e.own ++ e.extra)) := rfl

theorem readAll_sorted (h : e.Proper) (hportable : e.IsPortable) :
    readAll Fields.field {} e.sorted = .ok (e.fields []) := by
  let f₁ : Fields := { name := e.givenName.map some }
  let f₂ : Fields := { f₁ with blocks := some e.blocks }
  let f₃ : Fields := { f₂ with threads := some e.threads }
  have hname := Reader.readAll_memberOf? Fields.field "Name" "Name" .text Reader.text e.givenName
    (fun x => { name := x }) (fun n => rfl) fun s _ => ⟨Node.ofValue_ne_null rfl, rfl⟩
  have hblocks : Fields.field f₁ "Phases" (Node.ofValue (.list (e.blocks.map Block.toValue))) = .ok f₂ := by
    have hread := Reader.list_ofValue fun b hb => Block.reader_toValue (h.blocks b hb) (hportable.blocks b hb)
    simp only [Fields.field, f₁, Reader.once_ok hread]
    rfl
  have hthreads : Fields.field f₂ "Threads" (Node.ofValue (.int e.threads.value)) = .ok f₃ := by
    simp only [Fields.field, f₂, f₁, Reader.once_ok (Reader.count_ofValue hportable.threads)]
    rfl
  have htype : Fields.field f₃ "Type" (Node.ofValue (.text e.type)) = .ok (e.fields []) := rfl
  refine Reader.readAll_append_ok hname ?_
  exact Reader.readAll_append_ok (Reader.readAll_singleton hblocks)
    (Reader.readAll_append_ok (Reader.readAll_singleton hthreads) (Reader.readAll_singleton htype))

theorem reader_toValue (h : e.Proper) (hportable : e.IsPortable) : reader (Node.ofValue e.toValue) = .ok e := by
  have htable := Fields.separates.table_ofValue "struct ActorConfig" e.fields ["Name", "Phases", "Threads", "Type"]
    (fun _ _ _ => rfl) e.sorted_perm e.keys_sorted (by decide) (by decide) h.extra (readAll_sorted h hportable)
  rw [reader, toValue_eq, htable, Except.bind, entry_fields]

theorem proper_toValue (h : e.Proper) (hportable : e.IsPortable) : e.toValue.Proper := by
  refine Reader.proper_object e.own ?_ h.extra.proper
  have hthreads := Value.Proper.int e.threads.value (by unfold minSigned; omega)
    (Int.ofNat_lt.mpr hportable.threads.lt_wordBound)
  have hblocks := Value.Proper.list (e.blocks.map Block.toValue) (List.forall_mem_map.mpr fun b hb =>
    Block.proper_toValue (h.blocks b hb) (hportable.blocks b hb))
  simp only [own, List.forall_mem_append, List.forall_mem_cons]
  exact ⟨Reader.proper_memberOf? fun s _ => .text s, .text _, hthreads, hblocks, List.forall_mem_nil _⟩

end Entry

namespace Plan

variable {p : Plan}

def isField (key : String) : Bool := ["SchemaVersion", "Actors"].contains key

namespace Fields

def keep (f : Fields) (key : String) (v : Value) : Fields := { f with extra := f.extra.put key v }

theorem separates : Separates isField keep field where
  keeps f key n h := by
    unfold field
    split
    case h_3 => cases Reader.value n <;> rfl
    all_goals cases h
  commutes f kept v key n h := by
    unfold field
    split
    case h_3 => simp_all [isField]
    all_goals
      simp only [keep, bind, Except.bind, Except.map, pure, Except.pure]
      split <;> rfl

end Fields

structure Proper (p : Plan) : Prop where
  entries : ∀ e ∈ p.entries, e.Proper
  extra : Kept isField p.extra

def own (p : Plan) : Members :=
  [("SchemaVersion", .text p.schema), ("Actors", .list (p.entries.map Entry.toValue))]

def sorted (p : Plan) : Members :=
  [("Actors", .list (p.entries.map Entry.toValue)), ("SchemaVersion", .text p.schema)]

def fields (p : Plan) (kept : Members) : Fields where
  schema := some p.schema
  entries := some p.entries
  extra := kept

theorem toValue_eq (p : Plan) : p.toValue = .object (Members.ofList (p.own ++ p.extra)) := rfl

theorem readAll_sorted (h : p.Proper) (hportable : ∀ e ∈ p.entries, e.IsPortable) :
    readAll Fields.field {} p.sorted = .ok (p.fields []) := by
  let f₁ : Fields := { entries := some p.entries }
  have hentries : Fields.field {} "Actors" (Node.ofValue (.list (p.entries.map Entry.toValue))) = .ok f₁ := by
    have hread := Reader.list_ofValue fun e he => Entry.reader_toValue (h.entries e he) (hportable e he)
    simp only [Fields.field, f₁, Reader.once_ok hread]
    rfl
  have hschema : Fields.field f₁ "SchemaVersion" (Node.ofValue (.text p.schema)) = .ok (p.fields []) := rfl
  exact Reader.readAll_append_ok (Reader.readAll_singleton hentries) (Reader.readAll_singleton hschema)

theorem reader_toValue (h : p.Proper) (hportable : ∀ e ∈ p.entries, e.IsPortable) :
    reader (Node.ofValue p.toValue) = .ok p := by
  have htable := Fields.separates.table_ofValue "struct WorkloadConfig" p.fields ["Actors", "SchemaVersion"]
    (fun _ _ _ => rfl) (List.Perm.swap ..) (.refl _) (by decide) (by decide) h.extra (readAll_sorted h hportable)
  rw [reader, toValue_eq]
  exact (congrArg (Except.bind · Fields.plan) htable).trans rfl

theorem proper_toValue (h : p.Proper) (hportable : ∀ e ∈ p.entries, e.IsPortable) : p.toValue.Proper := by
  refine Reader.proper_object p.own ?_ h.extra.proper
  have hentries := Value.Proper.list (p.entries.map Entry.toValue) (List.forall_mem_map.mpr fun e he =>
    Entry.proper_toValue (h.entries e he) (hportable e he))
  simp only [own, List.forall_mem_cons]
  exact ⟨.text _, hentries, List.forall_mem_nil _⟩

end Plan

end PhasedWorkload
