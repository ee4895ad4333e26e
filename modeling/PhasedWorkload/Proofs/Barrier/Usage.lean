import PhasedWorkload.Proofs.Barrier.Passage

/-! # Free use of the barrier

Any number of callers use one barrier as they like. There may be fewer or more of them than it requires, and
they may end a phase twice, or one that has not been started. Each section of a call is a step of its own; a
caller that waits may look again at any time, whether it was notified or not, and the time of a sleeping one
may be over at any time. More participants may be registered and further phases asked for in between.

What a section does is one of four things: its caller goes on waiting, comes back, arrives at the start while
no phase is running, or arrives at the end of a running one. The invariants of the barrier, the wakeups and
the finality of an abort are all read off from that.
-/
namespace PhasedWorkload

open Barrier

namespace Barrier

variable {b c : Barrier} {w : Wait} {call : Call} {caller : Option Wait} {v : Visit}

/-! ## Sections -/

def Call.MayWaitFor : Call → Wait → Prop
  | .start, .drained | .start, .started _ => True
  | .finish waits, .ended _ => waits = true
  | .advance phase, .advanced other => phase = other
  | .sleep _, .slept => True
  | _, _ => False

/-- What a call comes back with when the run has been aborted. -/
def Call.refusal : Call → Answer
  | .start => .aborted
  | _ => .went false

/-- The sections of a call: it is entered, its caller wakes from a wait, or its time is over. -/
inductive Section (b : Barrier) (call : Call) : Option Wait → Visit → Prop where
  | enter : Section b call none (b.enter call)
  | wake (w : Wait) (waits : call.MayWaitFor w) : Section b call (some w) (b.wake w)
  | expire (waits : call.MayWaitFor .slept) : Section b call (some .slept) b.settle

inductive Kind (b : Barrier) (call : Call) (caller : Option Wait) : Visit → Prop where
  | waits (w : Wait) (may : call.MayWaitFor w) (holds : b.holds w = true) : Kind b call caller ⟨b, .waiting w, false⟩
  | answers (answer : Answer) (refused : b.errored = true → answer = call.refusal) :
    Kind b call caller ⟨b, .answered answer, false⟩
  | starts (alive : b.errored = false) (idle : b.starts ≤ b.ends) (starts : call = .start) :
    Kind b call caller b.arriveAtStart
  | ends (waits : Bool) (alive : b.errored = false) (running : b.ends < b.starts) (ends : call = .finish waits)
    (entered : caller = none) : Kind b call caller (b.arriveAtEnd waits)

theorem kind_settle (b : Barrier) (caller : Option Wait) (hcall : call.refusal = .went false) :
    Kind b call caller b.settle := by
  apply Kind.answers
  intro hb
  rw [hcall, hb]
  rfl

theorem kind_startAfterDrain (caller : Option Wait) (hdrained : b.holds .drained = false) :
    Kind b .start caller b.startAfterDrain := by
  unfold startAfterDrain
  split
  · exact .answers _ fun _ => rfl
  · next hb =>
    have hb : b.errored = false := by simpa using hb
    have hidle : b.starts ≤ b.ends := by simpa [holds, isRunning, hb] using hdrained
    exact .starts hb hidle rfl

theorem kind_wake (b : Barrier) (caller : Option Wait) (h : call.MayWaitFor w) : Kind b call caller (b.wake w) := by
  cases hw : b.holds w with
  | true =>
    rw [wake_of_holds hw]
    exact .waits w h hw
  | false =>
    rw [wake_of_not_holds hw]
    cases call with
    | start =>
      cases w with
      | drained => exact kind_startAfterDrain caller hw
      | started generation =>
        simp only [leave]
        split
        · exact .answers _ fun _ => rfl
        · next hb => exact .answers _ fun hb' => absurd hb' hb
      | ended | advanced | slept => exact h.elim
    | finish waits =>
      cases w with
      | ended generation => exact kind_settle b caller rfl
      | drained | started | advanced | slept => exact h.elim
    | advance phase =>
      cases w with
      | advanced other => exact kind_settle b caller rfl
      | drained | started | ended | slept => exact h.elim
    | sleep span =>
      cases w with
      | slept => exact kind_settle b caller rfl
      | drained | started | ended | advanced => exact h.elim

theorem kind_enter (b : Barrier) (call : Call) :
    Kind b call none (b.enter call) ∨ call = .start ∧ Kind { b with started := true } call none (b.enter call) := by
  cases call with
  | start =>
    have hmay : Call.start.MayWaitFor .drained := trivial
    exact .inr ⟨rfl, kind_wake { b with started := true } none hmay⟩
  | finish waits =>
    left
    have hsettle : Kind b (.finish waits) none b.settle := kind_settle b none rfl
    cases hb : b.errored with
    | true => simpa [enter, hb] using hsettle
    | false =>
      by_cases hrun : b.ends < b.starts
      · rw [enter_finish_running waits hrun hb]
        exact .ends waits hb hrun rfl rfl
      · simpa [enter, hb, isRunning, hrun] using hsettle
  | advance phase =>
    have hmay : (Call.advance phase).MayWaitFor (.advanced phase) := rfl
    exact .inl (kind_wake b none hmay)
  | sleep span =>
    left
    by_cases hspan : span.nanos = 0
    · have hsettle : b.enter (.sleep span) = b.settle := if_pos hspan
      rw [hsettle]
      exact kind_settle b none rfl
    · have hmay : (Call.sleep span).MayWaitFor .slept := trivial
      have hwake : b.enter (.sleep span) = b.wake .slept := if_neg hspan
      rw [hwake]
      exact kind_wake b none hmay

/-- The first section of a call of the start also says that it was called. -/
theorem Section.kind (h : Section b call caller v) :
    Kind b call caller v ∨ call = .start ∧ Kind { b with started := true } call caller v := by
  cases h with
  | enter => exact kind_enter b call
  | wake w waits => exact .inl (kind_wake b _ waits)
  | expire waits =>
    left
    cases call with
    | sleep span => exact kind_settle b _ rfl
    | start | finish | advance => exact waits.elim

/-! ## What sections keep -/

theorem Sound.started (h : b.Sound) : Sound { b with started := true } :=
  ⟨h.ends_le, h.starts_le, h.running, h.idle, h.phase, h.aborted⟩

theorem Sound.abort (h : b.Sound) : b.abort.Sound :=
  ⟨h.ends_le, h.starts_le, h.running, h.idle, h.phase, rfl⟩

theorem Sound.reachPhase (h : b.Sound) (phase : ℕ) : (b.reachPhase phase).Sound :=
  ⟨h.ends_le, h.starts_le, h.running, h.idle, h.phase, h.aborted⟩

/-- More participants only leave more room for arrivals. -/
theorem Sound.register (h : b.Sound) (count : ℕ) : Sound { b with required := b.required + count } := by
  refine ⟨h.ends_le, h.starts_le, fun hrun => ?_, fun hidle => ?_, h.phase, h.aborted⟩
  · obtain ⟨hstart, hend⟩ := h.running hrun
    exact ⟨hstart, by dsimp only; omega⟩
  · obtain ⟨hend, hstart⟩ := h.idle hidle
    exact ⟨hend, by dsimp only; omega⟩

theorem Sound.kind (h : b.Sound) (hv : Kind b call caller v) : v.barrier.Sound := by
  cases hv with
  | waits | answers => exact h
  | starts _ idle _ => exact h.arriveAtStart idle
  | ends waits _ running => exact h.arriveAtEnd running waits

theorem Sound.section (h : b.Sound) (hv : Section b call caller v) : v.barrier.Sound := by
  rcases hv.kind with hv | ⟨_, hv⟩
  · exact h.kind hv
  · exact h.started.kind hv

/-- Nobody's wait depends on anything but the generations and the abort. -/
theorem holds_congr (hs : c.starts = b.starts) (he : c.ends = b.ends) (hb : c.errored = b.errored) (w : Wait) :
    c.holds w = b.holds w := by
  cases w <;> simp [holds, isRunning, hs, he, hb]

theorem Kind.holds_of_quiet (hv : Kind b call caller v) (hquiet : v.notifies = false) (w : Wait) :
    v.barrier.holds w = b.holds w := by
  cases hv with
  | waits | answers => rfl
  | starts =>
    by_cases hlast : b.required ≤ b.arrivedStart + 1
    · simp [arriveAtStart_last hlast] at hquiet
    · rw [arriveAtStart_early hlast]
      exact holds_congr rfl rfl rfl w
  | ends waits =>
    by_cases hlast : b.required ≤ b.arrivedEnd + 1
    · simp [arriveAtEnd_last waits hlast] at hquiet
    · rw [arriveAtEnd_early waits hlast]
      exact holds_congr rfl rfl rfl w

/-- A section that notifies nobody ends nobody's wait. -/
theorem Section.holds_of_quiet (hv : Section b call caller v) (hquiet : v.notifies = false) (w : Wait) :
    v.barrier.holds w = b.holds w := by
  rcases hv.kind with hv | ⟨_, hv⟩
  · exact hv.holds_of_quiet hquiet w
  · exact (hv.holds_of_quiet hquiet w).trans (holds_congr rfl rfl rfl w)

theorem Kind.holds_of_waiting (hv : Kind b call caller v) (hw : v.outcome = .waiting w) :
    call.MayWaitFor w ∧ v.barrier.holds w = true := by
  cases hv with
  | waits w' may holds =>
    cases hw
    exact ⟨may, holds⟩
  | answers => cases hw
  | starts alive idle starts =>
    subst starts
    by_cases hlast : b.required ≤ b.arrivedStart + 1
    · simp [arriveAtStart_last hlast] at hw
    · rw [arriveAtStart_early hlast] at hw ⊢
      cases hw
      exact ⟨trivial, by simp [holds, alive]⟩
  | ends waits alive running ends =>
    subst ends
    by_cases hlast : b.required ≤ b.arrivedEnd + 1
    · simp [arriveAtEnd_last waits hlast] at hw
    · rw [arriveAtEnd_early waits hlast] at hw ⊢
      cases waits with
      | false => cases hw
      | true =>
        cases hw
        exact ⟨rfl, by simp [holds, alive]⟩

/-- Who goes to sleep has something to wait for. -/
theorem Section.holds_of_waiting (hv : Section b call caller v) (hw : v.outcome = .waiting w) :
    call.MayWaitFor w ∧ v.barrier.holds w = true := by
  rcases hv.kind with hv | ⟨_, hv⟩
  · exact hv.holds_of_waiting hw
  · exact hv.holds_of_waiting hw

theorem Kind.refused (hv : Kind b call caller v) (hb : b.errored = true) :
    v = ⟨b, .answered call.refusal, false⟩ := by
  cases hv with
  | waits w _ holds => simp [holds_of_errored hb] at holds
  | answers answer refused => rw [refused hb]
  | starts alive => simp [hb] at alive
  | ends _ alive => simp [hb] at alive

end Barrier

/-! ## Callers -/

namespace Crowd

/-- The time of a sleeping caller is over. -/
def expire (c : Crowd) (i : ℕ) : Crowd × Option Answer :=
  match c.wait? i with
  | some .slept => (c.record i c.barrier.settle, answer? c.barrier.settle)
  | _ => (c, none)

theorem getElem?_notify (callers : List (Option Sleeper)) (i : ℕ) :
    (notify callers)[i]? = callers[i]?.map fun caller => caller.map fun s => { s with notified := true } :=
  List.getElem?_map ..

theorem callers_record_self {c : Crowd} {i : ℕ} (v : Visit) (hi : i < c.callers.length) :
    (c.record i v).callers[i]? = some ((waitOf v.outcome).map fun wait => { wait }) := by
  have hlen := length_record c i v
  simp only [record, List.length_set] at hlen
  simp only [record, List.getElem?_set_self (hlen ▸ hi)]
  cases v.outcome <;> rfl

theorem callers_record_ne {c : Crowd} {i j : ℕ} (v : Visit) (h : j ≠ i) :
    (c.record i v).callers[j]? = if v.notifies then (notify c.callers)[j]? else c.callers[j]? := by
  simp only [record, List.getElem?_set_ne h.symm]
  split <;> rfl

end Crowd

structure Return where
  who : ℕ
  call : Call
  answer : Answer
deriving DecidableEq, Repr

/-- Callers at a barrier, the call that each is inside, and what calls came back with, the latest first. -/
structure Gathering where
  crowd : Crowd
  calls : List (Option Call)
  past : List Return := []
deriving DecidableEq, Repr

namespace Gathering

inductive Action where
  | register (count : ℕ)
  | reach (phase : ℕ)
  | call (who : ℕ) (call : Call)
  | wake (who : ℕ)
  | expire (who : ℕ)
  | abort
deriving DecidableEq, Repr

def opening (callers : ℕ) : Gathering where
  crowd := { callers := List.replicate callers none }
  calls := List.replicate callers none

def barrier (g : Gathering) : Barrier := g.crowd.barrier

/-- Takes in a section of a call. -/
def record (g : Gathering) (who : ℕ) (call : Call) (result : Crowd × Option Answer) : Gathering where
  crowd := result.1
  calls := g.calls.set who (if result.2.isSome then none else some call)
  past := (result.2.map fun answer => ⟨who, call, answer⟩).toList ++ g.past

/-- Whoever is inside a call makes no other one, and only who is inside one wakes. -/
def step (g : Gathering) : Action → Gathering
  | .register count => { g with crowd := (g.crowd.addRequired count).toOption.getD g.crowd }
  | .reach phase => { g with crowd := g.crowd.reachPhase phase }
  | .call who call =>
    if g.crowd.callers[who]? = some none then g.record who call (g.crowd.enter who call) else g
  | .wake who => g.calls[who]?.join.elim g fun call => g.record who call (g.crowd.wake who)
  | .expire who => g.calls[who]?.join.elim g fun call => g.record who call (g.crowd.expire who)
  | .abort => { g with crowd := g.crowd.abort }

def run (g : Gathering) (actions : List Action) : Gathering := actions.foldl step g

variable {g h : Gathering} {a : Action} {who : ℕ} {call : Call} {v : Visit}

/-- What is known of a caller and the call that it is inside: whoever was not notified since it last looked
still has something to wait for. -/
def Fits (b : Barrier) : Option Sleeper → Option Call → Prop
  | none, none => True
  | some s, some call => call.MayWaitFor s.wait ∧ (s.notified = false → b.holds s.wait = true)
  | _, _ => False

theorem Fits.congr {b c : Barrier} {caller : Option Sleeper} {inside : Option Call} (h : Fits b caller inside)
    (hbc : ∀ w, c.holds w = b.holds w) : Fits c caller inside := by
  cases caller <;> cases inside
  · trivial
  · exact h
  · exact h
  · exact ⟨h.1, fun hn => (hbc _).trans (h.2 hn)⟩

theorem Fits.notified {b : Barrier} {caller : Option Sleeper} {inside : Option Call} (h : Fits b caller inside)
    (c : Barrier) : Fits c (caller.map fun s => { s with notified := true }) inside := by
  cases caller <;> cases inside
  · trivial
  · exact h
  · exact h
  · exact ⟨h.1, nofun⟩

structure Orderly (g : Gathering) : Prop where
  sound : g.barrier.Sound
  everybody : g.calls.length = g.crowd.callers.length
  fits : ∀ (who : ℕ) (caller : Option Sleeper) (inside : Option Call), g.crowd.callers[who]? = some caller →
    g.calls[who]? = some inside → Fits g.barrier caller inside

/-- What an action comes to. -/
inductive Changes (g : Gathering) : Action → Gathering → Prop where
  | nothing (a : Action) : Changes g a g
  | registers (count : ℕ) (early : g.barrier.started = false) : Changes g (.register count)
    { g with crowd.barrier := { g.barrier with required := g.barrier.required + count } }
  | reaches (phase : ℕ) : Changes g (.reach phase) { g with crowd := g.crowd.reachPhase phase }
  | visits (a : Action) (who : ℕ) (call : Call) (caller : Option Sleeper) (v : Visit)
    (visit : Section g.barrier call (caller.map Sleeper.wait) v) (stands : g.crowd.callers[who]? = some caller)
    (entered : caller = none → a = .call who call) :
    Changes g a (g.record who call (g.crowd.record who v, Crowd.answer? v))
  | aborts : Changes g .abort { g with crowd := g.crowd.abort }

theorem Orderly.exists_caller (h : g.Orderly) (hcall : g.calls[who]? = some (some call)) :
    ∃ s, g.crowd.callers[who]? = some (some s) ∧ call.MayWaitFor s.wait := by
  obtain ⟨hi, _⟩ := List.getElem?_eq_some_iff.mp hcall
  obtain ⟨caller, hcaller⟩ : ∃ caller, g.crowd.callers[who]? = some caller :=
    ⟨_, List.getElem?_eq_getElem (h.everybody ▸ hi)⟩
  have hfits := h.fits who caller _ hcaller hcall
  cases caller with
  | none => exact hfits.elim
  | some s => exact ⟨s, hcaller, hfits.1⟩

theorem Orderly.exists_call {s : Sleeper} (h : g.Orderly) (hs : g.crowd.callers[who]? = some (some s)) :
    ∃ call, g.calls[who]? = some (some call) ∧ call.MayWaitFor s.wait ∧
      (s.notified = false → g.barrier.holds s.wait = true) := by
  obtain ⟨hi, _⟩ := List.getElem?_eq_some_iff.mp hs
  obtain ⟨inside, hinside⟩ : ∃ inside, g.calls[who]? = some inside :=
    ⟨_, List.getElem?_eq_getElem (h.everybody.symm ▸ hi)⟩
  have hfits := h.fits who _ inside hs hinside
  cases inside with
  | none => exact hfits.elim
  | some call => exact ⟨call, hinside, hfits⟩

theorem record_same (hcall : g.calls[who]? = some (some call)) : g.record who call (g.crowd, none) = g := by
  have hset : g.calls.set who (some call) = g.calls := by
    obtain ⟨hi, hget⟩ := List.getElem?_eq_some_iff.mp hcall
    rw [← hget]
    exact List.set_getElem_self hi
  simp [record, hset]

theorem step_free (hfree : g.crowd.callers[who]? = some none) (call : Call) :
    g.step (.call who call) = g.record who call (g.crowd.enter who call) := if_pos hfree

theorem Orderly.changes (h : g.Orderly) (a : Action) : g.Changes a (g.step a) := by
  cases a with
  | register count =>
    cases hs : g.barrier.started with
    | true =>
      have hstep : g.step (.register count) = g := by
        have hs' : g.crowd.barrier.started = true := hs
        simp [step, Crowd.addRequired, addRequired, hs', Except.map, Except.toOption]
      rw [hstep]
      exact .nothing _
    | false =>
      have hstep : g.step (.register count) =
          { g with crowd.barrier := { g.barrier with required := g.barrier.required + count } } := by
        have hs' : g.crowd.barrier.started = false := hs
        simp [step, Crowd.addRequired, addRequired, hs', Except.map, Except.toOption, barrier]
      rw [hstep]
      exact .registers count hs
  | reach phase => exact .reaches phase
  | call who call =>
    by_cases hfree : g.crowd.callers[who]? = some none
    · rw [step_free hfree]
      exact .visits _ who call none _ .enter hfree fun _ => rfl
    · rw [step, if_neg hfree]
      exact .nothing _
  | wake who =>
    cases hcall : g.calls[who]?.join with
    | none =>
      rw [step, hcall]
      exact .nothing _
    | some call =>
      obtain ⟨s, hs, hmay⟩ := h.exists_caller (Option.join_eq_some_iff.mp hcall)
      have hwait : g.crowd.wait? who = some s.wait := by simp [Crowd.wait?, hs]
      rw [step, hcall, Option.elim_some, Crowd.wake_eq hwait]
      exact .visits _ who call (some s) _ (.wake s.wait hmay) hs (by simp)
  | expire who =>
    cases hcall : g.calls[who]?.join with
    | none =>
      rw [step, hcall]
      exact .nothing _
    | some call =>
      have hcall' := Option.join_eq_some_iff.mp hcall
      obtain ⟨s, hs, hmay⟩ := h.exists_caller hcall'
      have hwait : g.crowd.wait? who = some s.wait := by simp [Crowd.wait?, hs]
      rw [step, hcall, Option.elim_some, Crowd.expire, hwait]
      split
      -- Time runs out only for a caller that sleeps for a time; for others nothing happens.
      · next hslept =>
        rw [Option.some.inj hslept] at hmay
        have hsection : Section g.barrier call ((some s).map Sleeper.wait) g.barrier.settle := by
          rw [Option.map_some, Option.some.inj hslept]
          exact .expire hmay
        exact .visits _ who call (some s) _ hsection hs (by simp)
      · rw [record_same hcall']
        exact .nothing _
  | abort => exact .aborts

theorem orderly_opening (callers : ℕ) : (opening callers).Orderly := by
  refine ⟨⟨le_rfl, Nat.le_succ _, fun h => absurd h (lt_irrefl _), fun _ => ⟨rfl, Nat.zero_lt_one⟩, rfl, rfl⟩, ?_, ?_⟩
  · simp [opening]
  · intro who caller inside hcaller hinside
    obtain rfl := List.eq_of_mem_replicate (List.mem_of_getElem? hcaller)
    obtain rfl := List.eq_of_mem_replicate (List.mem_of_getElem? hinside)
    trivial

theorem Orderly.record (h : g.Orderly) {caller : Option Sleeper}
    (hsection : Section g.barrier call (caller.map Sleeper.wait) v) (hcaller : g.crowd.callers[who]? = some caller) :
    Orderly (g.record who call (g.crowd.record who v, Crowd.answer? v)) := by
  obtain ⟨hi, _⟩ := List.getElem?_eq_some_iff.mp hcaller
  refine ⟨h.sound.section hsection, ?_, ?_⟩
  · simp only [Gathering.record, List.length_set, Crowd.length_record]
    exact h.everybody
  · intro other caller' inside hcaller' hinside
    by_cases hother : other = who
    · subst hother
      simp only [Gathering.record] at hcaller' hinside
      rw [Crowd.callers_record_self v hi] at hcaller'
      rw [List.getElem?_set_self (h.everybody ▸ hi)] at hinside
      cases hcaller'
      cases hinside
      cases ho : v.outcome with
      | answered answer => simp [Fits, Crowd.answer?, Crowd.waitOf, ho]
      | waiting w =>
        obtain ⟨hmay, hholds⟩ := hsection.holds_of_waiting ho
        simp only [Crowd.answer?, Crowd.waitOf, ho]
        exact ⟨hmay, fun _ => hholds⟩
    · simp only [Gathering.record] at hcaller' hinside
      rw [List.getElem?_set_ne (Ne.symm hother)] at hinside
      rw [Crowd.callers_record_ne v hother] at hcaller'
      cases hn : v.notifies with
      | true =>
        rw [hn, if_pos rfl, Crowd.getElem?_notify] at hcaller'
        obtain ⟨before, hbefore, rfl⟩ := Option.map_eq_some_iff.mp hcaller'
        exact (h.fits other before _ hbefore hinside).notified v.barrier
      | false =>
        rw [hn] at hcaller'
        exact (h.fits other _ _ hcaller' hinside).congr (hsection.holds_of_quiet hn)

theorem Orderly.changed (h : g.Orderly) {g' : Gathering} (hg : g.Changes a g') : g'.Orderly := by
  cases hg with
  | nothing => exact h
  | registers count early =>
    refine ⟨h.sound.register count, h.everybody, fun who caller inside hc hi => ?_⟩
    exact (h.fits who caller inside hc hi).congr fun w => holds_congr rfl rfl rfl w
  | reaches phase =>
    refine ⟨h.sound.reachPhase phase, h.everybody, fun who caller inside hc hi => ?_⟩
    exact (h.fits who caller inside hc hi).congr fun w => holds_congr rfl rfl rfl w
  | visits _ who call caller v hsection hcaller _ => exact h.record hsection hcaller
  | aborts =>
    refine ⟨h.sound.abort, ?_, fun who caller inside hc hi => ?_⟩
    · exact h.everybody.trans (Crowd.length_notify _).symm
    · simp only [Crowd.abort, Crowd.getElem?_notify] at hc
      obtain ⟨before, hbefore, rfl⟩ := Option.map_eq_some_iff.mp hc
      exact (h.fits who before inside hbefore hi).notified _

theorem Orderly.step (h : g.Orderly) (a : Action) : (g.step a).Orderly := h.changed (h.changes a)

theorem Orderly.run (h : g.Orderly) (actions : List Action) : (g.run actions).Orderly := by
  induction actions generalizing g with
  | nil => exact h
  | cons a actions ih => exact ih (h.step a)

end Gathering

end PhasedWorkload
