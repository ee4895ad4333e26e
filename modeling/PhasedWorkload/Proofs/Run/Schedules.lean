import PhasedWorkload.Proofs.Cells
import PhasedWorkload.Proofs.Run.Script
import PhasedWorkload.Proofs.Run.Stall

/-! # Schedules

A run may be played in any order: at each step the conductor takes its next step, or a thread that has been
spawned takes one with the next move on its agenda, or the clock moves. Whatever the order, what has been done
and what is still owed make up the scripts of all actors. So a run that is over has done exactly its scripts,
and nobody has failed.
-/
namespace PhasedWorkload

open Barrier Telemetry

/-! ## Threads -/

namespace Thread

variable {a : Actor} {last k : ℕ} {b c : Barrier} {t : Thread Task} {agenda : List Move} {owed : List Effect}

/-- What a thread still owes of the script of its actor. -/
inductive Owes (a : Actor) (last : ℕ) (b : Barrier) (k : ℕ) (t : Thread Task) : List Move → List Effect → Prop where
  | launching (m : ℕ) (agenda : List Move) (owed : List Effect) (point : t.point = .launching)
    (performer : t.performer.OnScript a last b k m agenda owed) :
    Owes a last b k t agenda (.emit (.actorStarted a.name a.id) :: (owed ++ [a.finish]))
  | working (m : ℕ) (agenda : List Move) (owed : List Effect) (point : t.point = .working)
    (performer : t.performer.OnScript a last b k m agenda owed) : Owes a last b k t agenda (owed ++ [a.finish])
  | reporting (m : ℕ) (agenda : List Move) (point : t.point = .reporting true)
    (stands : t.performer.Stands b k m) (finished : t.performer.participant.finished = true) :
    Owes a last b k t agenda [a.finish]
  | departing (m : ℕ) (agenda : List Move) (point : t.point = .releasing false ∨ t.point = .ended false)
    (stands : t.performer.Stands b k m) (finished : t.performer.participant.finished = true) :
    Owes a last b k t agenda []

structure OnScript (a : Actor) (last : ℕ) (b : Barrier) (k : ℕ) (t : Thread Task) (agenda : List Move)
    (owed : List Effect) : Prop where
  scripted : a.IsScripted
  name : t.name = a.name
  id : t.id = a.id
  owes : t.Owes a last b k agenda owed

theorem Owes.later (h : t.Owes a last b k agenda owed) (hbc : Precedes b c) : t.Owes a last c k agenda owed := by
  cases h with
  | launching m agenda owed point performer =>
    exact .launching m agenda owed point ⟨performer.stands.later hbc, performer.untouched, performer.owes⟩
  | working m agenda owed point performer =>
    exact .working m agenda owed point ⟨performer.stands.later hbc, performer.untouched, performer.owes⟩
  | reporting m agenda point stands finished => exact .reporting m agenda point (stands.later hbc) finished
  | departing m agenda point stands finished => exact .departing m agenda point (stands.later hbc) finished

theorem OnScript.later (h : t.OnScript a last b k agenda owed) (hbc : Precedes b c) :
    t.OnScript a last c k agenda owed := ⟨h.scripted, h.name, h.id, h.owes.later hbc⟩

theorem Owes.ended (h : t.Owes a last b k agenda owed) (hended : t.hasEnded = true) :
    owed = [] ∧ t.point = .ended false ∧ t.performer.participant.finished = true ∧
      ∃ m, t.performer.Stands b k m := by
  unfold hasEnded at hended
  split at hended
  · next hpoint =>
    cases h with
    | launching _ _ _ point | working _ _ _ point | reporting _ _ point => cases hpoint.symm.trans point
    | departing m _ point stands finished =>
      rcases point with point | point
      · cases hpoint.symm.trans point
      · exact ⟨rfl, point, finished, m, stands⟩
  · cases hended

end Thread

/-! ## Schedules -/

namespace Playing

variable {q : Playing} {last i k : ℕ} {places : List ℕ} {dues : List (List Effect)}
  {done owed owed' rest : List Effect} {t t' : Thread Task} {a : Actor} {agenda agenda' : List Move}

inductive Action where
  | conduct
  /-- a thread takes a step; a jitter is added where it has to wait for a token -/
  | act (thread jitter : ℕ)
  | tick (nanos : ℕ)
deriving DecidableEq, Repr

/-- Follows an action; a thread that is not spawned yet does nothing. -/
def follow (q : Playing) : Action → Playing
  | .conduct => { q with run := q.run.conduct }
  | .act i jitter => if q.run.isSpawned i then q.step i jitter else q
  | .tick nanos => { q with run.world.now := q.run.world.now + nanos }

def after (q : Playing) (actions : List Action) : Playing := actions.foldl follow q

/-- A thread with its actor and agenda, with its place at the barrier and what it owes. -/
def Fits (q : Playing) (last : ℕ) (places : List ℕ) (dues : List (List Effect)) (i : ℕ) (t : Thread Task) : Prop :=
  ∃ a agenda k owed, q.actors[i]? = some a ∧ q.agendas[i]? = some agenda ∧ places[i]? = some k ∧
    dues[i]? = some owed ∧ t.OnScript a last q.run.world.barrier k agenda owed

def phases (threads last : ℕ) : ℕ := if threads = 0 then 0 else last + 1

/-- Every thread is on its script, the log and the counters say what has been done, and nobody has failed. -/
structure OnScript (q : Playing) (last : ℕ) (places : List ℕ) (dues : List (List Effect)) (done : List Effect) :
    Prop where
  tally : Tally q.run.world.barrier places
  alive : q.run.world.barrier.errored = false
  lastPhase : q.run.world.barrier.maxPhase = last
  placed : places.length = q.run.threads.length
  charged : dues.length = q.run.threads.length
  threads : ∀ (i : ℕ) (t : Thread Task), q.run.threads[i]? = some t → q.Fits last places dues i t
  logs : q.run.Logs done
  failure : q.run.failure = none
  /-- Without threads nobody starts a phase. -/
  unused : q.run.threads = [] → q.run.world.barrier.publishedPhase = 0
  joined : ∀ j, q.run.conductor = .joining j → ∀ (i : ℕ) (t : Thread Task), i < j → q.run.threads[i]? = some t →
    t.hasEnded = true
  concluded : ∀ result, q.run.conductor = .done result →
    result = .ok ⟨q.run.threads.length, phases q.run.threads.length last⟩ ∧ ∀ t ∈ q.run.threads, t.hasEnded = true

/-- A run goes on by its script: what is done from now on was owed before. -/
def Continues (q : Playing) (last : ℕ) (dues : List (List Effect)) (done : List Effect) : Prop :=
  ∃ places' dues' done', q.OnScript last places' dues' done' ∧ dues'.length = dues.length ∧
    (done' ++ dues'.flatten).Perm (done ++ dues.flatten)

/-! ## Steps of threads -/

/-- One thread pays a part of what it owes, or nothing, and the others stay where they are. -/
theorem OnScript.update (h : q.OnScript last places dues done) (paid : List Effect) (hi : q.run.threads[i]? = some t)
    (ha : q.actors[i]? = some a) (hk : places[i]? = some k) (hagenda : q.agendas[i]? = some agenda)
    (howed : dues[i]? = some (paid ++ rest)) {r : Run Task} {k' : ℕ}
    (hthreads : r.threads = q.run.threads.set i t') (hconductor : r.conductor = q.run.conductor)
    (hfailure : r.failure = none) (hv : Precedes q.run.world.barrier r.world.barrier)
    (hb : r.world.barrier.errored = false) (htally : Tally r.world.barrier (places.set i k'))
    (hscript : t'.OnScript a last r.world.barrier k' agenda' rest)
    (hended : t.hasEnded = true → t'.hasEnded = true) (hlogs : r.Logs (paid ++ done)) :
    Continues { q with run := r, agendas := q.agendas.set i agenda' } last dues done := by
  obtain ⟨hlt, hget⟩ := List.getElem?_eq_some_iff.mp hi
  obtain ⟨hagendaLt, _⟩ := List.getElem?_eq_some_iff.mp hagenda
  have hlength : r.threads.length = q.run.threads.length := by rw [hthreads, List.length_set]
  refine ⟨places.set i k', dues.set i rest, paid ++ done, ⟨htally, hb, hv.maxPhase_eq.trans h.lastPhase, ?_, ?_,
    ?_, hlogs, hfailure, ?_, ?_, ?_⟩, List.length_set, ?_⟩
  · rw [List.length_set, hlength, h.placed]
  · rw [List.length_set, hlength, h.charged]
  · intro j u hu
    rcases getElem?_set_cases (hthreads ▸ hu) with ⟨rfl, rfl⟩ | ⟨hj, hu⟩
    · exact ⟨a, agenda', k', rest, ha, List.getElem?_set_self hagendaLt,
        List.getElem?_set_self (h.placed.symm ▸ hlt), List.getElem?_set_self (h.charged.symm ▸ hlt), hscript⟩
    · obtain ⟨a', agenda', k', owed', ha', hagenda', hk', howed', hu'⟩ := h.threads j u hu
      exact ⟨a', agenda', k', owed', ha', (List.getElem?_set_ne (Ne.symm hj)).trans hagenda',
        (List.getElem?_set_ne (Ne.symm hj)).trans hk', (List.getElem?_set_ne (Ne.symm hj)).trans howed', hu'.later hv⟩
  · intro hnone
    dsimp only at hnone
    rw [← List.length_eq_zero_iff, hlength] at hnone
    omega
  · intro j hj l u hl hu
    have hjoined := h.joined j (hconductor ▸ hj)
    rcases getElem?_set_cases (hthreads ▸ hu) with ⟨rfl, rfl⟩ | ⟨_, hu⟩
    · exact hended (hjoined l t hl hi)
    · exact hjoined l u hl hu
  · intro result hresult
    obtain ⟨heq, hall⟩ := h.concluded result (hconductor ▸ hresult)
    dsimp only
    refine ⟨by rw [hlength]; exact heq, fun u hu => ?_⟩
    rw [hthreads] at hu
    rcases List.mem_or_eq_of_mem_set hu with hu | rfl
    · exact hall u hu
    · exact hended (hall t (List.mem_of_getElem? hi))
  · rw [List.append_assoc]
    refine (List.perm_append_comm_assoc paid done _).trans ?_
    exact (perm_flatten_set howed).append_left done

theorem step_eq (hi : q.run.threads[i]? = some t) (ha : q.actors[i]? = some a) (hagenda : q.agendas[i]? = some agenda)
    {jitter : ℕ} {r : Run Task} {report : Option Report}
    (hstep : q.run.step i t (agenda.headD (.leave .finished)) jitter = (r, report))
    (hthread : r.threads[i]? = some t') :
    q.step i jitter = { q with
      run := r
      agendas := q.agendas.set i
        (Performer.agendaAfter a t'.performer (if t.isDeciding then agenda.tail else agenda) report) } := by
  simp only [step, hi, ha, hagenda, hstep, hthread]
  cases report <;> rfl

theorem OnScript.perform (h : q.OnScript last places dues done) (hi : q.run.threads[i]? = some t)
    (ha : q.actors[i]? = some a) (hk : places[i]? = some k) (hagenda : q.agendas[i]? = some agenda)
    (howed : dues[i]? = some (owed ++ [a.finish])) (hthread : t.OnScript a last q.run.world.barrier k agenda owed')
    (hpoint : t.point = .working) {left : List Move} {r : World × Performer Task × Option Report}
    (hv : Precedes q.run.world.barrier r.1.barrier) (hb : r.1.barrier.errored = false)
    (hr : Performer.StaysOnScript a last i places left owed r) :
    Continues { q with
      run := { q.run with world := r.1 }.setThread i { t with performer := r.2.1 }
      agendas := q.agendas.set i (Performer.agendaAfter a r.2.1 left r.2.2) } last dues done := by
  obtain ⟨k', m', htally, hperformer⟩ := hr
  have hscript : Thread.OnScript a last r.1.barrier k' { t with performer := r.2.1 }
      (Performer.agendaAfter a r.2.1 left r.2.2) (owed ++ [a.finish]) :=
    ⟨hthread.scripted, hthread.name, hthread.id, .working m' _ owed hpoint hperformer⟩
  exact h.update [] hi ha hk hagenda howed rfl rfl h.failure hv hb htally hscript id (h.logs.congr rfl rfl)

theorem OnScript.goTo (h : q.OnScript last places dues done) (paid : List Effect) (hi : q.run.threads[i]? = some t)
    (ha : q.actors[i]? = some a) (hk : places[i]? = some k) (hagenda : q.agendas[i]? = some agenda)
    (howed : dues[i]? = some (paid ++ rest)) (hthread : t.OnScript a last q.run.world.barrier k agenda owed)
    {point : Thread.Point} (howes : Thread.Owes a last q.run.world.barrier k { t with point } agenda' rest)
    (hended : t.hasEnded = false) {r : Run Task} (hthreads : r.threads = q.run.threads.set i { t with point })
    (hconductor : r.conductor = q.run.conductor) (hfailure : r.failure = none)
    (hbarrier : r.world.barrier = q.run.world.barrier) (hlogs : r.Logs (paid ++ done)) :
    Continues { q with run := r, agendas := q.agendas.set i agenda' } last dues done := by
  have hv : Precedes q.run.world.barrier r.world.barrier := hbarrier ▸ .refl _
  have htally : Tally r.world.barrier (places.set i k) := by
    rw [hbarrier, set_same hk]
    exact h.tally
  have hscript : Thread.OnScript a last r.world.barrier k { t with point } agenda' rest :=
    ⟨hthread.scripted, hthread.name, hthread.id, hbarrier.symm ▸ howes⟩
  exact h.update paid hi ha hk hagenda howed hthreads hconductor hfailure hv (hbarrier ▸ h.alive) htally hscript
    (by simp [hended]) hlogs

theorem isDeciding_eq_false (hpoint : t.point ≠ .working) : t.isDeciding = false := by
  unfold Thread.isDeciding
  split
  · next hwork _ => exact absurd hwork hpoint
  · rfl

theorem getElem?_setThread {r : Run Task} (hi : r.threads[i]? = some t) (t' : Thread Task) :
    (r.setThread i t').threads[i]? = some t' := by
  obtain ⟨hlt, _⟩ := List.getElem?_eq_some_iff.mp hi
  exact List.getElem?_set_self hlt

theorem OnScript.goOn (h : q.OnScript last places dues done) (hi : q.run.threads[i]? = some t)
    (ha : q.actors[i]? = some a) (hk : places[i]? = some k) (hagenda : q.agendas[i]? = some agenda)
    (howed : dues[i]? = some (owed ++ [a.finish])) (hthread : t.OnScript a last q.run.world.barrier k agenda owed')
    (hpoint : t.point = .working) {m : ℕ} (hperformer : t.performer.OnScript a last q.run.world.barrier k m agenda owed)
    (hdeciding : t.isDeciding = false) (jitter : ℕ) : Continues (q.step i jitter) last dues done := by
  have hstep : q.run.step i t (agenda.headD (.leave .finished)) jitter =
      ({ q.run with world := (t.performer.step q.run.world jitter).1 }.setThread i
        { t with performer := (t.performer.step q.run.world jitter).2.1 },
        (t.performer.step q.run.world jitter).2.2) := by
    simp [Run.step, hpoint, hdeciding]
  rw [step_eq hi ha hagenda hstep (getElem?_setThread hi _), hdeciding]
  have hv := t.performer.precedes_step q.run.world jitter
  have hb := (t.performer.errored_step q.run.world jitter).trans h.alive
  refine h.perform hi ha hk hagenda howed hthread hpoint hv hb ?_
  cases hact : t.performer.activity with
  | resting => simp [Thread.isDeciding, hpoint, hact] at hdeciding
  | advancing point wait =>
    rw [Performer.step_advancing hact]
    exact hperformer.advance hact h.tally hk h.alive h.lastPhase
  | iterating point => exact hperformer.iterate hthread.scripted hact h.tally hk h.alive jitter

theorem OnScript.decide (h : q.OnScript last places dues done) (hi : q.run.threads[i]? = some t)
    (ha : q.actors[i]? = some a) (hk : places[i]? = some k) {move : Move} {left : List Move}
    (hagenda : q.agendas[i]? = some (move :: left)) (howed : dues[i]? = some (owed ++ [a.finish]))
    (hthread : t.OnScript a last q.run.world.barrier k (move :: left) owed') (hpoint : t.point = .working) {m : ℕ}
    (hperformer : t.performer.OnScript a last q.run.world.barrier k m (move :: left) owed)
    (hrest : t.performer.activity = .resting) (jitter : ℕ) : Continues (q.step i jitter) last dues done := by
  have hdeciding : t.isDeciding = true := by simp [Thread.isDeciding, hpoint, hrest]
  have hmove := hperformer.move hthread.scripted hrest h.tally hk
  have hstep : q.run.step i t ((move :: left).headD (.leave .finished)) jitter = q.run.move i t move := by
    simp [Run.step, hpoint, hdeciding]
  have hv := Precedes.refl q.run.world.barrier
  cases move with
  | askPhase =>
    rw [step_eq hi ha hagenda hstep (getElem?_setThread hi _), hdeciding]
    exact h.perform hi ha hk hagenda howed hthread hpoint hv h.alive hmove
  | openTurn =>
    rw [step_eq hi ha hagenda hstep (getElem?_setThread hi _), hdeciding]
    exact h.perform hi ha hk hagenda howed hthread hpoint hv h.alive hmove
  | askIteration =>
    rw [step_eq hi ha hagenda hstep (getElem?_setThread hi _), hdeciding]
    exact h.perform hi ha hk hagenda howed hthread hpoint hv h.alive hmove
  | act effect =>
    obtain ⟨rest, hrest', hperformer'⟩ := hmove
    have hthreads : (q.run.apply effect).threads = q.run.threads := by cases effect <;> rfl
    have hconductor : (q.run.apply effect).conductor = q.run.conductor := by cases effect <;> rfl
    have hfailure : (q.run.apply effect).failure = q.run.failure := by cases effect <;> rfl
    have hbarrier : (q.run.apply effect).world.barrier = q.run.world.barrier := by cases effect <;> rfl
    have hsame : q.run.threads.set i { t with point := .working } = q.run.threads := by
      obtain ⟨hlt, hget⟩ := List.getElem?_eq_some_iff.mp hi
      rw [← hpoint, ← hget, List.set_getElem_self]
    rw [step_eq hi ha hagenda hstep (hthreads ▸ hi), hdeciding]
    rw [hrest', List.cons_append] at howed
    exact h.goTo [effect] hi ha hk hagenda howed hthread (.working m left rest rfl hperformer')
      (by simp [Thread.hasEnded, hpoint]) (hthreads.trans hsame.symm) hconductor (hfailure.trans h.failure) hbarrier
      (h.logs.apply effect)
  | leave departure =>
    obtain ⟨rfl, rfl, hfinished⟩ := hmove
    rw [step_eq hi ha hagenda hstep (getElem?_setThread hi _), hdeciding]
    exact h.goTo [] hi ha hk hagenda howed hthread
      (.reporting m left rfl hperformer.stands hfinished) (by simp [Thread.hasEnded, hpoint]) rfl rfl h.failure rfl
      (h.logs.congr rfl rfl)

theorem OnScript.continues (h : q.OnScript last places dues done) : Continues q last dues done :=
  ⟨places, dues, done, h, rfl, .refl _⟩

theorem OnScript.act (h : q.OnScript last places dues done) (i jitter : ℕ) :
    Continues (q.step i jitter) last dues done := by
  cases hi : q.run.threads[i]? with
  | none =>
    have hsame : q.step i jitter = q := by simp [step, hi]
    rw [hsame]
    exact h.continues
  | some t =>
    obtain ⟨a, agenda, k, owed, ha, hagenda, hk, howed, hthread⟩ := h.threads i t hi
    have howes := hthread.owes
    cases howes with
    | launching m _ owed point performer =>
      have hstep : q.run.step i t (agenda.headD (.leave .finished)) jitter =
          ((q.run.emit (.actorStarted t.name t.id)).setThread i { t with point := .working }, none) := by
        simp [Run.step, point]
      rw [step_eq hi ha hagenda hstep (getElem?_setThread hi _), isDeciding_eq_false (by simp [point])]
      have hlogs := h.logs.apply (.emit (.actorStarted a.name a.id))
      rw [← hthread.name, ← hthread.id] at hlogs howed
      exact h.goTo [_] hi ha hk hagenda howed hthread (.working m agenda owed rfl performer)
        (by simp [Thread.hasEnded, point]) rfl rfl h.failure rfl (hlogs.congr rfl rfl)
    | working m _ owed point performer =>
      cases hdeciding : t.isDeciding with
      | false => exact h.goOn hi ha hk hagenda howed hthread point performer hdeciding jitter
      | true =>
        have hrest := Thread.resting_of_isDeciding hdeciding
        cases agenda with
        | nil => exact absurd rfl (performer.owes.agenda_ne_nil hrest)
        | cons move left => exact h.decide hi ha hk hagenda howed hthread point performer hrest jitter
    | reporting m _ point stands finished =>
      have hstep : q.run.step i t (agenda.headD (.leave .finished)) jitter =
          ((q.run.emit (.actorFinished t.name t.id true)).setThread i { t with point := .releasing false }, none) := by
        simp [Run.step, point]
      rw [step_eq hi ha hagenda hstep (getElem?_setThread hi _), isDeciding_eq_false (by simp [point])]
      have hlogs : (q.run.emit (.actorFinished t.name t.id true)).Logs ([a.finish] ++ done) := by
        rw [hthread.name, hthread.id]
        exact h.logs.apply a.finish
      exact h.goTo [a.finish] hi ha hk hagenda howed hthread (.departing m agenda (.inl rfl) stands finished)
        (by simp [Thread.hasEnded, point]) rfl rfl h.failure rfl (hlogs.congr rfl rfl)
    | departing m _ point stands finished =>
      rcases point with point | point
      · have hrelease : t.performer.participant.release q.run.world.barrier = q.run.world.barrier := by
          simp [Participant.release, finished]
        have hstep : q.run.step i t (agenda.headD (.leave .finished)) jitter =
            ((q.run.setBarrier q.run.world.barrier).setThread i { t with point := .ended false }, none) := by
          simp [Run.step, point, hrelease]
        rw [step_eq hi ha hagenda hstep (getElem?_setThread hi _), isDeciding_eq_false (by simp [point])]
        exact h.goTo [] hi ha hk hagenda howed hthread (.departing m agenda (.inr rfl) stands finished)
          (by simp [Thread.hasEnded, point]) rfl rfl h.failure rfl (h.logs.congr rfl rfl)
      · have hstep : q.run.step i t (agenda.headD (.leave .finished)) jitter = (q.run, none) := by
          simp [Run.step, point]
        have hsame : q.agendas.set i agenda = q.agendas := by
          obtain ⟨hlt, hget⟩ := List.getElem?_eq_some_iff.mp hagenda
          rw [← hget, List.set_getElem_self]
        rw [step_eq hi ha hagenda hstep hi, isDeciding_eq_false (by simp [point])]
        simp only [Performer.agendaAfter, Option.elim_none, Bool.false_eq_true, if_false, hsame]
        exact h.continues

/-! ## The conductor -/

theorem OnScript.publishedPhase (h : q.OnScript last places dues done) (hi : q.run.threads[i]? = some t)
    (hended : t.hasEnded = true) : q.run.world.barrier.publishedPhase = last + 1 := by
  obtain ⟨a, agenda, k, owed, _, _, hk, _, hthread⟩ := h.threads i t hi
  obtain ⟨_, _, hfinished, m, hstands⟩ := hthread.owes.ended hended
  obtain ⟨rfl, hends⟩ := hstands.place_of_decided h.alive (.inl hfinished)
  have hnear := h.tally.near_of_getElem? hk
  have hle := h.tally.sound.ends_le
  rw [h.tally.sound.phase]
  rw [h.lastPhase] at hnear hends
  unfold Barrier.round at hnear
  omega

/-- The conductor leaves everything but itself as it is. -/
theorem OnScript.conducted (h : q.OnScript last places dues done) {c : Conductor}
    (hjoined : ∀ j, c = .joining j → ∀ (i : ℕ) (t : Thread Task), i < j → q.run.threads[i]? = some t →
      t.hasEnded = true)
    (hover : ∀ result, c = .done result →
      result = .ok ⟨q.run.threads.length, phases q.run.threads.length last⟩ ∧ ∀ t ∈ q.run.threads, t.hasEnded = true) :
    OnScript { q with run := { q.run with conductor := c } } last places dues done :=
  ⟨h.tally, h.alive, h.lastPhase, h.placed, h.charged, h.threads, h.logs.congr rfl rfl, h.failure, h.unused,
    hjoined, hover⟩

theorem OnScript.conclude (h : q.OnScript last places dues done) (hall : ∀ t ∈ q.run.threads, t.hasEnded = true) :
    OnScript { q with run := q.run.conclude } last places dues done := by
  have hpublished : q.run.world.barrier.publishedAbort = false := h.tally.sound.aborted.trans h.alive
  have hphases : q.run.world.barrier.publishedPhase = phases q.run.threads.length last := by
    cases hthreads : q.run.threads with
    | nil => exact h.unused hthreads
    | cons t threads =>
      have hi : q.run.threads[0]? = some t := by rw [hthreads]; rfl
      exact h.publishedPhase hi (hall t (List.mem_of_getElem? hi))
  have hconclude : q.run.conclude =
      { q.run with conductor := .done (.ok ⟨q.run.threads.length, q.run.world.barrier.publishedPhase⟩) } := by
    simp [Run.conclude, h.failure, hpublished]
  rw [hconclude]
  refine h.conducted nofun fun result hresult => ?_
  cases hresult
  exact ⟨by rw [hphases], hall⟩

theorem OnScript.conduct (h : q.OnScript last places dues done) :
    OnScript { q with run := q.run.conduct } last places dues done := by
  unfold Run.conduct
  split
  · next count hconductor =>
    split
    · exact h.conducted nofun nofun
    · refine h.conducted (fun j hj i t hi => ?_) nofun
      cases hj
      exact absurd hi (Nat.not_lt_zero i)
  · next j hconductor =>
    have hjoined := h.joined j hconductor
    split
    · next hnone =>
      refine h.conclude fun t ht => ?_
      obtain ⟨i, hi⟩ := List.getElem?_of_mem ht
      have hlt := (List.getElem?_eq_some_iff.mp hi).1
      have hlength := List.getElem?_eq_none_iff.mp hnone
      exact hjoined i t (by omega) hi
    · next t ht =>
      have hnext : t.hasEnded = true → ∀ j', Conductor.joining (j + 1) = .joining j' →
          ∀ (i : ℕ) (u : Thread Task), i < j' → q.run.threads[i]? = some u → u.hasEnded = true := by
        intro hended j' hj' i u hi hu
        cases hj'
        rcases Nat.lt_succ_iff_lt_or_eq.mp hi with hi | rfl
        · exact hjoined i u hi hu
        · cases ht.symm.trans hu
          exact hended
      split
      -- No thread that is on its script ends by a panic.
      · next hpoint =>
        obtain ⟨a, agenda, k, owed, _, _, _, _, hthread⟩ := h.threads j t ht
        have hended : t.hasEnded = true := by simp [Thread.hasEnded, hpoint]
        obtain ⟨_, hpoint', _⟩ := hthread.owes.ended hended
        cases hpoint.symm.trans hpoint'
      · next hpoint => exact h.conducted (hnext (by simp [Thread.hasEnded, hpoint])) nofun
      · exact h
  · exact h

/-! ## Runs -/

theorem OnScript.tick (h : q.OnScript last places dues done) (nanos : ℕ) :
    OnScript { q with run.world.now := q.run.world.now + nanos } last places dues done :=
  ⟨h.tally, h.alive, h.lastPhase, h.placed, h.charged, h.threads, h.logs.congr rfl rfl, h.failure, h.unused,
    h.joined, h.concluded⟩

theorem OnScript.follow (h : q.OnScript last places dues done) (a : Action) :
    Continues (q.follow a) last dues done := by
  cases a with
  | conduct => exact h.conduct.continues
  | act i jitter =>
    simp only [Playing.follow]
    split
    · exact h.act i jitter
    · exact h.continues
  | tick nanos => exact (h.tick nanos).continues

theorem OnScript.after (h : q.OnScript last places dues done) (actions : List Action) :
    Continues (q.after actions) last dues done := by
  induction actions generalizing q places dues done with
  | nil => exact h.continues
  | cons a actions ih =>
    obtain ⟨places', dues', done', h', hlength, hperm⟩ := h.follow a
    obtain ⟨places'', dues'', done'', h'', hlength', hperm'⟩ := ih h'
    exact ⟨places'', dues'', done'', h'', hlength'.trans hlength, hperm'.trans hperm⟩

/-- A run that is over has gone well, and nobody owes anything. -/
theorem OnScript.complete (h : q.OnScript last places dues done) {result : Except Fault RunReport}
    (hresult : q.run.result? = some result) :
    result = .ok ⟨q.run.threads.length, phases q.run.threads.length last⟩ ∧ dues.flatten = [] := by
  have hdone : q.run.conductor = .done result := by
    unfold Run.result? at hresult
    split at hresult
    · next hconductor =>
      cases hresult
      exact hconductor
    · cases hresult
  obtain ⟨heq, hall⟩ := h.concluded result hdone
  refine ⟨heq, List.flatten_eq_nil_iff.mpr fun owed howed => ?_⟩
  obtain ⟨i, hi⟩ := List.getElem?_of_mem howed
  obtain ⟨hlt, _⟩ := List.getElem?_eq_some_iff.mp hi
  have ht := List.getElem?_eq_getElem (h.charged ▸ hlt)
  obtain ⟨a, agenda, k, owed', _, _, _, howed', hthread⟩ := h.threads i _ ht
  cases hi.symm.trans howed'
  exact (hthread.owes.ended (hall _ (List.mem_of_getElem? ht))).1

theorem onScript_make {p : Production Actor} (h : p.stage.Enlisted (p.actors.map fun a => a.2.participant))
    (hnames : ∀ x ∈ p.actors, x.1 = x.2.name) (hscripted : ∀ x ∈ p.actors, x.2.IsScripted) :
    (make p).OnScript p.stage.barrier.maxPhase (List.replicate p.actors.length 0)
      (p.actors.map fun x => x.2.script p.stage.barrier.maxPhase) [] := by
  have hbarrier : (make p).run.world.barrier = p.stage.barrier := rfl
  have hlength : (make p).run.threads.length = p.actors.length := by simp [make]
  refine ⟨?_, ?_, rfl, by simp [hlength], by simp [hlength], ?_, ⟨rfl, fun _ => rfl⟩, rfl, ?_,
    by simp [make], by simp [make]⟩
  · rw [hbarrier, h.barrier]
    simpa using Tally.opening p.actors.length p.stage.barrier.maxPhase
  · rw [hbarrier, h.barrier]
  · intro i t ht
    simp only [make, List.getElem?_map, Option.map_eq_some_iff] at ht
    obtain ⟨⟨name, a⟩, hi, rfl⟩ := ht
    have hmem : (name, a) ∈ p.actors := List.mem_of_getElem? hi
    obtain ⟨hlt, _⟩ := List.getElem?_eq_some_iff.mp hi
    have hshows := h.shows _ (List.mem_map.mpr ⟨_, hmem, rfl⟩)
    have howes : Performer.Owes a p.stage.barrier.maxPhase { participant := a.participant } 0 [.askPhase]
        (a.later p.stage.barrier.maxPhase 0) := .asking 0 rfl hshows.2.2
    exact ⟨a, Actor.opening, 0, a.script p.stage.barrier.maxPhase, by simp [make, hi], by simp [make, hlt],
      by simp [hlt], by simp [hi], hscripted _ hmem, hnames _ hmem, rfl,
      .launching 0 _ _ rfl ⟨Performer.stands_fresh hshows, fun _ _ => rfl, howes⟩⟩
  · intro _
    rw [hbarrier, h.barrier]

/-- However a run is played: when it is over it has gone well, and it has done what the scripts of its actors say,
in some order. -/
theorem script_done {p : Production Actor} (h : p.stage.Enlisted (p.actors.map fun a => a.2.participant))
    (hnames : ∀ x ∈ p.actors, x.1 = x.2.name) (hscripted : ∀ x ∈ p.actors, x.2.IsScripted) (actions : List Action)
    {result : Except Fault RunReport} (hresult : ((make p).after actions).run.result? = some result) :
    result = .ok ⟨p.actors.length, phases p.actors.length p.stage.barrier.maxPhase⟩ ∧
      ∃ done, ((make p).after actions).run.Logs done ∧
        done.Perm (p.actors.flatMap fun x => x.2.script p.stage.barrier.maxPhase) := by
  obtain ⟨places, dues, done, ho, hlength, hperm⟩ := (onScript_make h hnames hscripted).after actions
  obtain ⟨heq, hdues⟩ := ho.complete hresult
  rw [List.length_map] at hlength
  rw [hdues, List.append_nil, List.nil_append] at hperm
  rw [← ho.charged, hlength] at heq
  exact ⟨heq, done, ho.logs, hperm⟩

end Playing

end PhasedWorkload
