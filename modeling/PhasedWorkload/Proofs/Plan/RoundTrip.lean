import PhasedWorkload.Plan.RoundTrip
import PhasedWorkload.Proofs.Json.Building
import PhasedWorkload.Proofs.Plan.Reading

/-! # Round trips of plans

A plan that was read, in either format, is printed as JSON text, which is read as the same plan unless a part of the
plan has no such text: a span of time or a count that JSON text cannot hold, a double whose text is rounded to another
one, an operation that is printed as nothing, or more levels than the reader takes.
-/
namespace PhasedWorkload

theorem Json.read_ofList (cs : List Char) :
    read (String.ofList cs) = ofTokens (tokensWithin (cs.length + 1) cs) := by
  rw [read, tokens, String.toList_ofList, String.length_ofList]

namespace Plan

variable {format : FileFormat} {s : String} {p : Plan}

/-- A plan all of whose parts are read as they were printed. -/
structure IsPortable (p : Plan) : Prop where
  entries : ∀ e ∈ p.entries, e.IsPortable
  doubles : ∀ x ∈ p.toValue.doubles, x.IsLegible
  depth : p.toValue.depth ≤ Json.maxDepth

instance (p : Plan) : Decidable p.IsPortable :=
  decidable_of_iff ((∀ e ∈ p.entries, e.IsPortable) ∧ (∀ x ∈ p.toValue.doubles, x.IsLegible) ∧
    p.toValue.depth ≤ Json.maxDepth) ⟨fun h => ⟨h.1, h.2.1, h.2.2⟩, fun h => ⟨h.entries, h.doubles, h.depth⟩⟩

theorem exists_of_check (format : FileFormat) (s : String) (check : Plan → Bool) (flag : Bool)
    (h : ((read format s).map check).toOption = some flag) : ∃ p, read format s = .ok p ∧ check p = flag := by
  cases hread : read format s with
  | error fault =>
    rw [hread] at h
    cases h
  | ok p =>
    rw [hread] at h
    exact ⟨p, rfl, Option.some.inj h⟩

/-- Whether a plan is read from its printed characters as one that is printed with the same ones. -/
def isReprinted (p : Plan) : Bool :=
  let cs := Json.renderChars p.toValue
  match Reader.document reader (Json.ofTokens (Json.tokensWithin (cs.length + 1) cs)) with
  | .ok q => Json.renderChars q.toValue == cs
  | .error _ => false

theorem isReprinted_of_read (h : read .json p.render = .ok p) : p.isReprinted = true := by
  have hread : Reader.document reader (Json.read (Json.render p.toValue)) = .ok p := h
  rw [Json.render, Json.read_ofList] at hread
  simp only [isReprinted, hread, BEq.rfl]

theorem lost_of_check (h : ((read format s).map isReprinted).toOption = some false) :
    ∃ p, read format s = .ok p ∧ read .json p.render ≠ .ok p := by
  obtain ⟨p, hread, hcheck⟩ := exists_of_check _ _ isReprinted false h
  refine ⟨p, hread, fun hsame => ?_⟩
  rw [isReprinted_of_read hsame] at hcheck
  cases hcheck

/-- The same for a text that is given by its characters. -/
theorem lost_of_chars {cs : List Char}
    (h : ((Reader.document reader ⟨(Toml.readChars? (Toml.dropMark cs)).getD .broken, false⟩).map
      isReprinted).toOption = some false) : ∃ p, read .toml (String.ofList cs) = .ok p ∧ read .json p.render ≠ .ok p := by
  refine lost_of_check ?_
  rwa [read, FileFormat.document, Toml.read, String.toList_ofList]

theorem read_render_of_proper (h : p.Proper) (hportable : p.IsPortable) : read .json p.render = .ok p := by
  have htree := Json.read_render (proper_toValue h hportable.entries) hportable.doubles hportable.depth
  rw [read, FileFormat.document, render, htree, Reader.document]
  exact congrArg (· >>= fun p => if false then .error .grammar else .ok p) (reader_toValue h hportable.entries)

/-- Printing is undone by reading: the plan of a text in either format, if it is portable, is read from its printed form
as the same plan, which is printed the same. -/
theorem reads_as_printed (h : read format s = .ok p) (hportable : p.IsPortable) :
    read .json p.render = .ok p ∧ (read .json p.render).map render = .ok p.render ∧ p.survivesPrinting = .ok true := by
  have hproper := proper_of_read h
  have hread := read_render_of_proper hproper hportable
  have hsame := (proper_toValue hproper hportable.entries).same_self
  refine ⟨hread, ?_, ?_⟩
  · rw [hread]
    rfl
  · rw [survivesPrinting, hread, Except.map, hsame]

def mixedText : String :=
  "SchemaVersion = '2018-07-01'\n[[Actors]]\nType = 'X'\nThreads = '1e3'\nSeed = -7\n" ++
  "[[Actors.Phases]]\nDuration = '90 m'\nRate = '5 per 2 s'\nOperation = ['find', 0.25]\n"

theorem reads_as_printed_mixed : ∃ p, read .toml mixedText = .ok p ∧ p.IsPortable ∧ read .json p.render = .ok p ∧
    (read .json p.render).map render = .ok p.render ∧ p.survivesPrinting = .ok true := by
  obtain ⟨p, hread, hcheck⟩ := exists_of_check .toml mixedText (fun p => decide p.IsPortable) true
    (by decide +kernel)
  have hportable : p.IsPortable := of_decide_eq_true hcheck
  exact ⟨p, hread, hportable, reads_as_printed hread hportable⟩

/-- A header of many parts over a list of many levels. -/
def deepChars : List Char :=
  "SchemaVersion = '2018-07-01'\nActors = []\n[".toList ++ (List.replicate 64 "a.".toList).flatten ++
    "a]\nx = ".toList ++ List.replicate 65 '[' ++ List.replicate 65 ']'

theorem lost_in_printing :
    (∃ p, read .json ("\x7b\"SchemaVersion\":\"2018-07-01\",\"Actors\":[\x7b\"Type\":\"X\"," ++
      "\"Phases\":[\x7b\"Duration\":9223372036854775807\x7d]\x7d]\x7d") = .ok p ∧ read .json p.render ≠ .ok p) ∧
    (∃ p, read .json ("\x7b\"SchemaVersion\":\"2018-07-01\",\"Actors\":[\x7b\"Type\":\"X\"," ++
      "\"Threads\":\"9223372036854775809\"\x7d]\x7d") = .ok p ∧ read .json p.render ≠ .ok p) ∧
    (∃ p, read .toml "SchemaVersion = '2018-07-01'\nActors = []\nx = 7.0e-30" = .ok p ∧ read .json p.render ≠ .ok p) ∧
    (∃ p, read .toml ("SchemaVersion = '2018-07-01'\n[[Actors]]\nType = 'X'\n" ++
      "[[Actors.Phases]]\nOperation = inf") = .ok p ∧ read .json p.render ≠ .ok p) ∧
    ∃ p, read .toml (String.ofList deepChars) = .ok p ∧ read .json p.render ≠ .ok p := by
  refine ⟨lost_of_check ?_, lost_of_check ?_, lost_of_check ?_, lost_of_check ?_, lost_of_chars ?_⟩
  all_goals decide +kernel

end Plan

end PhasedWorkload
