import Mathlib.Data.Int.Notation
import Mathlib.Data.List.Basic
import Mathlib.Logic.Function.Iterate
import PhasedWorkload.Limiter.Race
import PhasedWorkload.Proofs.Cells

/-! # One order for all calls

Callers that share a limiter load its word and exchange it in any order, and an exchange may fail because of
others or for no reason. Yet the calls can be put in one order in which they get the same answers when they are
made one at a time: the order in which they come back. A call that takes a token comes back from the exchange
that takes it, and one that is refused from the read that shows it that no token is due; whatever it has read
before that does not matter.
-/
namespace PhasedWorkload.Limiter

/-- A call that has come back, with the word after it and the numbers of its first and of its last step. -/
structure Call where
  caller : ℕ
  reading : ℤ
  granted : Bool
  word : ℤ
  began : ℕ
  ended : ℕ
deriving DecidableEq, Repr

/-- The readings of the calls that have not come back. -/
def Caller.unanswered (c : Caller) : List ℤ := (c.attempt.map Attempt.reading).toList ++ c.readings

/-- A race, the number of its steps, the step in which each caller began its latest call, and the calls that have
come back, in this order. -/
structure Timeline where
  race : Race
  steps : ℕ := 0
  begun : ℕ → ℕ := fun _ => 0
  calls : List Call := []

namespace Timeline

/-- Notes the call of a caller that has come back in a step, if it has. -/
def returned (i : ℕ) (c next : Caller) (word : ℤ) (began now : ℕ) : List Call :=
  (next.results.drop c.results.length).map fun granted => ⟨i, c.unanswered.headD 0, granted, word, began, now⟩

/-- The step in which a caller that takes a step now began its call. -/
def began (t : Timeline) (i : ℕ) (c : Caller) : ℕ := if c.attempt.isNone then t.steps else t.begun i

def step (t : Timeline) (i : ℕ) (exchange : Exchange) : Timeline :=
  match t.race.callers[i]? with
  | none => { t with steps := t.steps + 1 }
  | some c =>
    let moved := t.race.stepCaller c exchange
    { race := t.race.step i exchange
      steps := t.steps + 1
      begun := Function.update t.begun i (t.began i c)
      calls := t.calls ++ returned i c moved.2 moved.1 (t.began i c) t.steps }

def run (t : Timeline) (schedule : List (ℕ × Exchange)) : Timeline :=
  schedule.foldl (fun t turn => t.step turn.1 turn.2) t

/-- Callers that are about to make calls with these readings, each its own in order. -/
def start (l : Limiter) (readings : List (List ℤ)) : Timeline where
  race := ⟨l.rate, l.lastEmptied, readings.map fun own => { readings := own }⟩

def callsOf (t : Timeline) (i : ℕ) : List Call := t.calls.filter fun call => call.caller = i

end Timeline

/-! ## One step of a caller -/

def setWord (l : Limiter) (word : ℤ) : Limiter := { l with lastEmptied := word }

theorem consumeAll_append (l : Limiter) (first second : List ℤ) :
    l.consumeAll (first ++ second) = (((l.consumeAll first).1.consumeAll second).1,
      (l.consumeAll first).2 ++ ((l.consumeAll first).1.consumeAll second).2) := by
  induction first generalizing l with
  | nil => rfl
  | cons now first ih =>
    simp only [List.cons_append, consumeAll]
    rw [ih]

namespace Race

variable {r : Race} {l : Limiter} {c : Caller} {exchange : Exchange} {reading : ℤ} {later : List ℤ}

/-- The call that a caller is in, or that it is about to make, found a token when it last looked. -/
def IsDue (r : Race) (c : Caller) : Prop := ∀ a, c.attempt = some a → ¬a.reading < r.next a.seen

/-- What comes of an atomic step of a caller: it still has the same calls to make, or one has got the answer that
it gets if it is made on its own now. -/
inductive Steps (l : Limiter) (r : Race) (c : Caller) : ℤ × Caller → Prop where
  | goesOn (d : Caller) (asks : d.unanswered = c.unanswered) (answers : d.results = c.results) (due : r.IsDue d) :
    Steps l r c (r.word, d)
  | returns (reading : ℤ) (later : List ℤ) (word : ℤ) (granted : Bool) (asks : c.unanswered = reading :: later)
    (alone : (l.setWord r.word).consume reading = (l.setWord word, granted)) :
    Steps l r c (word, ⟨none, later, c.results ++ [granted]⟩)

theorem due_setWord (hrate : r.rate = l.rate) (word : ℤ) : (l.setWord word).due = r.next word := by
  rw [next, hrate]
  rfl

theorem consume_refused (hrate : r.rate = l.rate) (h : reading < r.next r.word) :
    (l.setWord r.word).consume reading = (l.setWord r.word, false) := by
  rw [consume, due_setWord hrate, if_pos h]

theorem consume_granted (hrate : r.rate = l.rate) (h : ¬reading < r.next r.word) :
    (l.setWord r.word).consume reading = (l.setWord (r.next r.word), true) := by
  rw [consume, due_setWord hrate, if_neg h]
  rfl

theorem steps_look (hrate : r.rate = l.rate) {d : Caller} (hasks : c.unanswered = reading :: d.readings)
    (hanswers : d.results = c.results) : Steps l r c (r.word, r.look d reading) := by
  unfold look
  split
  · next hlt =>
    have hfinish : d.finish false = ⟨none, d.readings, c.results ++ [false]⟩ := by rw [Caller.finish, hanswers]
    rw [hfinish]
    exact .returns reading d.readings r.word false hasks (consume_refused hrate hlt)
  · next hdue =>
    refine .goesOn _ hasks.symm hanswers fun a ha => ?_
    cases ha
    exact hdue

theorem steps_stepCaller (hrate : r.rate = l.rate) (hdue : r.IsDue c) (exchange : Exchange) :
    Steps l r c (r.stepCaller c exchange) := by
  obtain ⟨attempt, readings, results⟩ := c
  cases attempt with
  | none =>
    cases readings with
    | nil => exact .goesOn _ rfl rfl hdue
    | cons reading later => exact steps_look hrate rfl rfl
  | some a =>
    simp only [stepCaller]
    split
    -- The word is the one that was seen, so the token that was due then is due now.
    · next hseen =>
      have hnow : ¬a.reading < r.next r.word := hseen.1 ▸ hdue a rfl
      exact .returns a.reading readings (r.next r.word) true rfl (consume_granted hrate hnow)
    · exact steps_look hrate rfl rfl

end Race

/-- The word after a number of tokens were taken. -/
def wordAfter (l : Limiter) (tokens : ℕ) : ℤ := (fun word => saturate (word + l.rate))^[tokens] l.lastEmptied

theorem wordAfter_succ (l : Limiter) (tokens : ℕ) :
    l.wordAfter (tokens + 1) = saturate (l.wordAfter tokens + l.rate) :=
  Function.iterate_succ_apply' _ _ _

theorem consume_word {l : Limiter} {word word' reading : ℤ} {granted : Bool}
    (h : (l.setWord word).consume reading = (l.setWord word', granted)) :
    word' = if granted then saturate (word + l.rate) else word := by
  unfold consume at h
  split at h
  · obtain ⟨hword, rfl⟩ := Prod.mk.inj h
    exact (congrArg lastEmptied hword).symm
  · obtain ⟨hword, rfl⟩ := Prod.mk.inj h
    exact (congrArg lastEmptied hword).symm

namespace Timeline

variable {l : Limiter} {readings : List (List ℤ)} {t : Timeline} {i j : ℕ} {c : Caller} {reading : ℤ}
  {later : List ℤ}

/-- The state of a race explained by the calls that have come back, in the order in which they did. -/
structure Sound (l : Limiter) (readings : List (List ℤ)) (t : Timeline) : Prop where
  rate : t.race.rate = l.rate
  due : ∀ c ∈ t.race.callers, t.race.IsDue c
  legal : l.consumeAll (t.calls.map Call.reading) = (l.setWord t.race.word, t.calls.map Call.granted)
  answers : ∀ i c, t.race.callers[i]? = some c → (t.callsOf i).map Call.granted = c.results
  asked : ∀ i c, t.race.callers[i]? = some c →
    readings[i]? = some ((t.callsOf i).map Call.reading ++ c.unanswered)
  all_answers : (t.race.callers.flatMap Caller.results).Perm (t.calls.map Call.granted)
  all_asked : readings.flatten.Perm (t.calls.map Call.reading ++ t.race.callers.flatMap Caller.unanswered)
  past : ∀ call ∈ t.calls, call.began ≤ call.ended ∧ call.ended < t.steps
  begun : ∀ i c, t.race.callers[i]? = some c → c.attempt.isSome →
    t.begun i ≤ t.steps ∧ ∀ call ∈ t.callsOf i, call.ended < t.begun i
  ordered : t.calls.Pairwise fun a b => a.ended < b.ended ∧ (a.caller = b.caller → a.ended < b.began)
  slots : (t.calls.filter Call.granted).map Call.word =
    (List.range (t.calls.countP Call.granted)).map fun k => l.wordAfter (k + 1)
  last : t.race.word = l.wordAfter (t.calls.countP Call.granted)

theorem sound_start (l : Limiter) (readings : List (List ℤ)) : (start l readings).Sound l readings where
  rate := rfl
  due c hc a ha := by
    obtain ⟨own, _, rfl⟩ := List.mem_map.mp hc
    cases ha
  legal := rfl
  answers i c hc := by
    obtain ⟨own, _, rfl⟩ := Option.map_eq_some_iff.mp ((List.getElem?_map ..).symm.trans hc)
    rfl
  asked i c hc := by
    obtain ⟨own, hown, rfl⟩ := Option.map_eq_some_iff.mp ((List.getElem?_map ..).symm.trans hc)
    exact hown
  all_answers := by simp [start, List.flatMap_map]
  all_asked := by simp [start, List.flatMap_map, Caller.unanswered]
  past call hcall := by cases hcall
  begun i c hc hattempt := by
    obtain ⟨own, _, rfl⟩ := Option.map_eq_some_iff.mp ((List.getElem?_map ..).symm.trans hc)
    cases hattempt
  ordered := .nil
  slots := rfl
  last := rfl

/-- A caller's earlier calls have ended before the one that it is in began. -/
theorem Sound.began (h : t.Sound l readings) (hc : t.race.callers[i]? = some c) :
    t.began i c ≤ t.steps ∧ ∀ call ∈ t.callsOf i, call.ended < t.began i c := by
  unfold Timeline.began
  split
  · exact ⟨Nat.le_refl _, fun call hcall => (h.past call (List.mem_of_mem_filter hcall)).2⟩
  · next hattempt => exact h.begun i c hc (Option.isSome_iff_ne_none.mpr (by simpa using hattempt))

theorem Sound.idle (h : t.Sound l readings) : Sound l readings { t with steps := t.steps + 1 } where
  __ := h
  past call hcall := ⟨(h.past call hcall).1, Nat.lt_succ_of_lt (h.past call hcall).2⟩
  begun i c hc hattempt := ⟨Nat.le_succ_of_le (h.begun i c hc hattempt).1, (h.begun i c hc hattempt).2⟩

theorem callsOf_append {ended : Option Call} (hcaller : ∀ call ∈ ended, call.caller = i) (race : Race) (steps : ℕ)
    (begun : ℕ → ℕ) (j : ℕ) :
    callsOf ⟨race, steps, begun, t.calls ++ ended.toList⟩ j = t.callsOf j ++ if j = i then ended.toList else [] := by
  rw [callsOf, List.filter_append, callsOf]
  cases ended with
  | none => simp
  | some call =>
    obtain rfl := hcaller call rfl
    by_cases hj : j = call.caller
    · simp [hj]
    · simp [hj, Ne.symm hj]

theorem word_eq {word word' : ℤ} {ended : Option Call}
    (h : (l.setWord word).consumeAll (ended.toList.map Call.reading) =
      (l.setWord word', ended.toList.map Call.granted)) :
    word' = if ended.any Call.granted then saturate (word + l.rate) else word := by
  cases ended with
  | none => exact (congrArg (fun answered => answered.1.lastEmptied) h).symm
  | some call =>
    simp only [Option.toList_some, List.map_cons, List.map_nil, consumeAll, Prod.mk.injEq, List.cons.injEq,
      and_true] at h
    exact consume_word (Prod.ext h.1 h.2)

/-- A step of a caller. If it ends a call, that call gets the answer that it gets on its own. -/
theorem Sound.acts (h : t.Sound l readings) (hc : t.race.callers[i]? = some c) (ended : Option Call)
    {d : Caller} {word : ℤ} (hasks : c.unanswered = ended.toList.map Call.reading ++ d.unanswered)
    (hanswers : d.results = c.results ++ ended.toList.map Call.granted) (hdue : t.race.IsDue d)
    (halone : (l.setWord t.race.word).consumeAll (ended.toList.map Call.reading) =
      (l.setWord word, ended.toList.map Call.granted))
    (hcall : ∀ call ∈ ended, (call.caller = i ∧ call.word = word ∧ call.began = t.began i c ∧ call.ended = t.steps) ∧
      d.attempt = none) :
    Sound l readings {
      race := ⟨t.race.rate, word, t.race.callers.set i d⟩
      steps := t.steps + 1
      begun := Function.update t.begun i (t.began i c)
      calls := t.calls ++ ended.toList } := by
  have hown := callsOf_append (t := t) fun call hmem => (hcall call hmem).1.1
  have hword := word_eq halone
  constructor
  case rate => exact h.rate
  case due =>
    intro e he
    rcases List.mem_or_eq_of_mem_set he with he | rfl
    · exact h.due e he
    · exact hdue
  case legal =>
    rw [List.map_append, consumeAll_append, h.legal, halone, List.map_append]
  case answers =>
    intro j e he
    rw [hown, List.map_append]
    rcases getElem?_set_cases he with ⟨rfl, rfl⟩ | ⟨hj, he⟩
    · rw [if_pos rfl, h.answers j c hc, hanswers]
    · rw [if_neg hj, h.answers j e he, List.map_nil, List.append_nil]
  case asked =>
    intro j e he
    rw [hown, List.map_append]
    rcases getElem?_set_cases he with ⟨rfl, rfl⟩ | ⟨hj, he⟩
    · rw [if_pos rfl, h.asked j c hc, hasks, List.append_assoc]
    · rw [if_neg hj, h.asked j e he, List.map_nil, List.append_nil]
  case all_answers =>
    have hmore : d.results.Perm (ended.toList.map Call.granted ++ c.results) := hanswers ▸ List.perm_append_comm
    refine (perm_set_flatMap Caller.results hc hmore).trans (List.perm_append_comm.trans ?_)
    rw [List.map_append]
    exact h.all_answers.append_right _
  case all_asked =>
    refine h.all_asked.trans ?_
    rw [List.map_append, List.append_assoc]
    exact (perm_flatMap_set Caller.unanswered hc (.of_eq hasks)).append_left _
  case past =>
    intro call hmem
    rcases List.mem_append.mp hmem with hmem | hmem
    · exact ⟨(h.past call hmem).1, Nat.lt_succ_of_lt (h.past call hmem).2⟩
    · obtain ⟨⟨_, _, hbegan, hended⟩, _⟩ := hcall call (Option.mem_toList.mp hmem)
      rw [hbegan, hended]
      exact ⟨(h.began hc).1, Nat.lt_succ_self _⟩
  case begun =>
    intro j e he hattempt
    rw [hown]
    rcases getElem?_set_cases he with ⟨rfl, rfl⟩ | ⟨hj, he⟩
    · cases ended with
      | some call => simp [(hcall call rfl).2] at hattempt
      | none =>
        simp only [Function.update_self, Option.toList_none, ite_self, List.append_nil]
        exact ⟨Nat.le_succ_of_le (h.began hc).1, (h.began hc).2⟩
    · simp only [Function.update_of_ne hj, if_neg hj, List.append_nil]
      exact ⟨Nat.le_succ_of_le (h.begun j e he hattempt).1, (h.begun j e he hattempt).2⟩
  case ordered =>
    refine List.pairwise_append.mpr ⟨h.ordered, by cases ended <;> simp, ?_⟩
    intro a ha b hb
    obtain ⟨⟨hcaller, _, hbegan, hended⟩, _⟩ := hcall b (Option.mem_toList.mp hb)
    rw [hended, hbegan, hcaller]
    exact ⟨(h.past a ha).2, fun hsame => (h.began hc).2 a (List.mem_filter.mpr ⟨ha, decide_eq_true hsame⟩)⟩
  case slots =>
    cases ended with
    | none => simpa using h.slots
    | some call =>
      obtain ⟨⟨_, hcallWord, _⟩, _⟩ := hcall call rfl
      cases hgranted : call.granted with
      | false => simpa [hgranted] using h.slots
      | true =>
        simp only [Option.any_some, hgranted, if_true] at hword
        simp [hgranted, List.range_succ, h.slots, hcallWord, hword, h.last, wordAfter_succ]
  case last =>
    cases ended with
    | none => simpa using hword.trans h.last
    | some call =>
      cases hgranted : call.granted with
      | false => simp [hword, hgranted, h.last]
      | true => simp [hword, hgranted, h.last, wordAfter_succ]

theorem step_eq (hc : t.race.callers[i]? = some c) (exchange : Exchange) :
    t.step i exchange = {
      race := ⟨t.race.rate, (t.race.stepCaller c exchange).1, t.race.callers.set i (t.race.stepCaller c exchange).2⟩
      steps := t.steps + 1
      begun := Function.update t.begun i (t.began i c)
      calls := t.calls ++ returned i c (t.race.stepCaller c exchange).2 (t.race.stepCaller c exchange).1
        (t.began i c) t.steps } := by
  simp only [step, Race.step, hc]

theorem returned_same (i : ℕ) {c next : Caller} (h : next.results = c.results) (word : ℤ) (began now : ℕ) :
    returned i c next word began now = [] := by
  simp [returned, h]

theorem race_step (t : Timeline) (i : ℕ) (exchange : Exchange) : (t.step i exchange).race = t.race.step i exchange := by
  unfold step
  split
  · next hc => simp only [Race.step, hc]
  · rfl

theorem race_run (t : Timeline) (schedule : List (ℕ × Exchange)) :
    (t.run schedule).race = schedule.foldl (fun r turn => r.step turn.1 turn.2) t.race := by
  induction schedule generalizing t with
  | nil => rfl
  | cons turn schedule ih =>
    rw [run, List.foldl_cons, ← run, ih, race_step, List.foldl_cons]

theorem Sound.step (h : t.Sound l readings) (i : ℕ) (exchange : Exchange) : (t.step i exchange).Sound l readings := by
  rcases hi : t.race.callers[i]? with _ | c
  · simpa only [Timeline.step, hi] using h.idle
  · rw [step_eq hi]
    have hsteps := Race.steps_stepCaller h.rate (h.due c (List.mem_of_getElem? hi)) exchange
    generalize t.race.stepCaller c exchange = moved at hsteps
    cases hsteps with
    | goesOn d asks answers due =>
      rw [returned_same i answers]
      exact h.acts hi none asks.symm (by simpa using answers) due rfl nofun
    | returns reading later word granted asks alone =>
      have hreturned : returned i c ⟨none, later, c.results ++ [granted]⟩ word (t.began i c) t.steps =
          (some (⟨i, reading, granted, word, t.began i c, t.steps⟩ : Call)).toList := by
        simp [returned, asks]
      rw [hreturned]
      refine h.acts hi _ asks rfl nofun (by simp [consumeAll, alone]) fun call hcall => ?_
      obtain rfl := Option.some.inj hcall
      exact ⟨⟨rfl, rfl, rfl, rfl⟩, rfl⟩

theorem Sound.run (h : t.Sound l readings) (schedule : List (ℕ × Exchange)) : (t.run schedule).Sound l readings := by
  induction schedule generalizing t with
  | nil => exact h
  | cons turn schedule ih => exact ih (h.step turn.1 turn.2)

/-! ## Any order of steps -/

theorem Sound.grants_eq (h : t.Sound l readings) : t.race.grants = (t.calls.map Call.granted).count true := by
  have hsum : ∀ callers : List Caller, callers.foldr (fun c n => c.results.count true + n) 0 =
      (callers.flatMap Caller.results).count true := by
    intro callers
    induction callers with
    | nil => rfl
    | cons c callers ih => rw [List.foldr_cons, List.flatMap_cons, List.count_append, ih]
  rw [Race.grants, hsum]
  exact h.all_answers.count_eq true

theorem Sound.readings_perm (h : t.Sound l readings) (hover : t.race.isOver = true) :
    readings.flatten.Perm (t.calls.map Call.reading) := by
  have hnone : t.race.callers.flatMap Caller.unanswered = [] := by
    refine List.flatMap_eq_nil_iff.mpr fun c hc => ?_
    have hc := List.all_eq_true.mp hover c hc
    simp only [Bool.and_eq_true, Option.isNone_iff_eq_none, List.isEmpty_iff] at hc
    simp [Caller.unanswered, hc.1, hc.2]
  simpa [hnone] using h.all_asked

/-- The calls that have come back can be made one at a time in this order: no caller's calls are exchanged, and
no call goes before one that had come back when it began. Each gets the same answer, the word ends the same, and
each token is the next one. -/
structure Linearizes (l : Limiter) (t : Timeline) (order : List Call) : Prop where
  complete : order.Perm t.calls
  program : ∀ i, order.filter (fun call => call.caller = i) = t.callsOf i
  realTime : order.Pairwise fun a b => ¬b.ended < a.began ∧ (a.caller = b.caller → a.ended < b.began)
  legal : l.consumeAll (order.map Call.reading) = (l.setWord t.race.word, order.map Call.granted)
  slots : (order.filter Call.granted).map Call.word =
    (List.range (order.countP Call.granted)).map fun k => l.wordAfter (k + 1)
  last : t.race.word = l.wordAfter (order.countP Call.granted)

theorem Sound.linearizes (h : t.Sound l readings) : t.Linearizes l t.calls where
  complete := .refl _
  program _ := rfl
  realTime := by
    refine h.ordered.imp_of_mem fun ha _ hab => ⟨?_, hab.2⟩
    have hbegan := (h.past _ ha).1
    omega
  legal := h.legal
  slots := h.slots
  last := h.last

/-- Whatever the order of the steps, and whichever exchanges fail: the calls that have come back have the answers
of calls made one at a time. If all are made at one reading, as many get a token as in a single row of calls. -/
theorem linearizable (l : Limiter) (readings : List (List ℤ)) (schedule : List (ℕ × Exchange)) :
    let t := (start l readings).run schedule
    t.race = schedule.foldl (fun r turn => r.step turn.1 turn.2) (start l readings).race ∧
      (∀ i c, t.race.callers[i]? = some c → c.results = (t.callsOf i).map Call.granted ∧
        readings[i]? = some ((t.callsOf i).map Call.reading ++ c.unanswered)) ∧
      (∃ order, t.Linearizes l order) ∧
      ∀ now, (∀ reading ∈ readings.flatten, reading = now) → t.race.isOver = true →
        t.race.grants = (l.consumeAll (List.replicate readings.flatten.length now)).2.count true := by
  intro t
  have h : t.Sound l readings := (sound_start l readings).run schedule
  refine ⟨race_run _ _, fun i c hc => ⟨(h.answers i c hc).symm, h.asked i c hc⟩, ⟨_, h.linearizes⟩,
    fun now hnow hover => ?_⟩
  have hperm := h.readings_perm hover
  have hreplicate : t.calls.map Call.reading = List.replicate readings.flatten.length now :=
    List.eq_replicate_iff.mpr ⟨hperm.length_eq.symm, fun reading hreading => hnow reading (hperm.mem_iff.mpr hreading)⟩
  rw [h.grants_eq, ← hreplicate, h.legal]

/-- Two callers find the same token due; the exchange of the first fails for no reason, and the second takes it. -/
theorem linearizable_contended :
    let t := (start ⟨⟨1, ⟨10⟩⟩, 90, 2⟩ [[105, 105], [105]]).run
      [(0, .done), (1, .done), (0, .spuriousFailure), (1, .done), (0, .done), (0, .done)]
    t.calls.map Call.granted = [true, false, false] ∧ (∃ order, t.Linearizes ⟨⟨1, ⟨10⟩⟩, 90, 2⟩ order) ∧
      t.race.grants = 1 := by
  intro t
  obtain ⟨_, _, horder, hgrants⟩ := linearizable ⟨⟨1, ⟨10⟩⟩, 90, 2⟩ [[105, 105], [105]]
    [(0, .done), (1, .done), (0, .spuriousFailure), (1, .done), (0, .done), (0, .done)]
  exact ⟨by decide +kernel, horder, (hgrants 105 (by decide) (by decide +kernel)).trans (by decide +kernel)⟩

end Timeline

end PhasedWorkload.Limiter
