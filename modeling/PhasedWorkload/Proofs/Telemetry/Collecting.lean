import Mathlib.Data.List.Basic
import PhasedWorkload.Proofs.Telemetry.Addition
import PhasedWorkload.Proofs.Telemetry.Delivery
import PhasedWorkload.Telemetry.Collector

/-! # No event is lost silently

The collector reads the events of a bus while other threads emit more, and may fall behind by more than the bus keeps.
It has its place in the history of the bus: so many events since it was spawned are recorded or reported to be missed,
and the next it reads is the first of the others. When it finishes it is at the end of the history. It has missed
some of it if and only if at some time more events were unread than the bus keeps.
-/
namespace PhasedWorkload.Telemetry

/-- The event that a receiver is given, if it is given one. -/
def Bus.Delivery.event? {α : Type} : Bus.Delivery α → Option α
  | .event a => some a
  | .lagged _ | .empty | .closed => none

namespace Broadcast

open Bus

def emissions (b : Broadcast) : Act → List Event
  | .emit e => if b.isLive then [e] else []
  | _ => []

/-- Where the collector stands, from when it is spawned until it has finished. -/
def receiver? (b : Broadcast) : Option Receiver := b.collector.bind fun _ => b.bus.find? Collector.name

/-- What the collector would be told if it read now. -/
def told? (b : Broadcast) : Option (Bus.Delivery Event) := b.receiver?.map fun r => (b.bus.receive r).2

/-- The events that the collector records in a step. -/
def readings (b : Broadcast) : Act → List Event
  | .collect => (b.told?.bind Bus.Delivery.event?).toList
  | _ => []

def unread (b : Broadcast) : ℕ := b.receiver?.elim 0 fun r => b.bus.sent - r.position

variable {b : Broadcast} {a : Act} {c : Collector} {r : Receiver}

/-- What a step does that is not a read of the collector. -/
inductive Moves (b : Broadcast) (a : Act) : Broadcast → Prop where
  | emits (e : Event) (act : a = .emit e) (live : b.isLive = true) : Moves b a { b with bus := (b.bus.send e).1 }
  | counts (quiet : b.emissions a = []) (clones : ℕ) (live : b.isLive = true) (left : 0 < clones) :
    Moves b a { b with clones }
  | closes (quiet : b.emissions a = []) : Moves b a { b with clones := 0, bus := b.bus.close }
  | keeps (quiet : b.emissions a = []) (receivers : List Receiver)
    (own : ({ b.bus with receivers } : Bus Event).find? Collector.name = b.bus.find? Collector.name) :
    Moves b a { b with bus := { b.bus with receivers } }
  | spawns (quiet : b.emissions a = []) (none : b.collector = none) :
    Moves b a { b with bus := b.bus.subscribe Collector.name, collector := some {} }

theorem Moves.stays (quiet : b.emissions a = []) : b.Moves a b := .keeps quiet b.bus.receivers rfl

theorem moves (ha : a ≠ .collect) : b.Moves a (b.step a) := by
  cases a with
  | collect => exact absurd rfl ha
  | emit e =>
    simp only [step]
    split
    · next hlive => exact .emits e rfl hlive
    · next hlive => exact .stays (if_neg hlive)
  | clone =>
    simp only [step]
    split
    · next hlive => exact .counts rfl _ hlive (Nat.succ_pos _)
    · exact .stays rfl
  | letGo =>
    simp only [step, letGo]
    split
    · next hmore => exact .counts rfl _ (decide_eq_true (by omega)) (by omega)
    · exact .closes rfl
  | spawn =>
    simp only [step, spawn]
    split
    · next h =>
      rw [Bool.and_eq_true, Option.isNone_iff_eq_none] at h
      exact .spawns rfl h.2
    · exact .stays rfl
  | subscribe name =>
    simp only [step]
    split
    · next h =>
      rw [Bool.and_eq_true, decide_eq_true_eq] at h
      exact .keeps rfl _ ((find?_subscribe b.bus name Collector.name).trans (if_neg (Ne.symm h.2)))
    · exact .stays rfl
  | read name =>
    simp only [step]
    split
    · next r hr =>
      split
      · exact .stays rfl
      · next hname =>
        have hother : Collector.name ≠ r.name := by
          rw [name_of_find? hr]
          exact Ne.symm hname
        rcases b.bus.receive_cases r with h | ⟨position, h⟩
        · rw [h]
          exact .stays rfl
        · rw [h]
          exact .keeps rfl _ ((find?_move b.bus r.name Collector.name position).trans (if_neg hother))
    · exact .stays rfl
  | unsubscribe name =>
    simp only [step]
    split
    · exact .stays rfl
    · next hname =>
      exact .keeps rfl _ ((find?_unsubscribe b.bus name Collector.name).trans (if_neg (Ne.symm hname)))

theorem step_emit (hlive : b.isLive = true) (e : Event) :
    b.step (.emit e) = ⟨(b.bus.send e).1, b.clones, b.collector⟩ := if_pos hlive

theorem emissions_emit (hlive : b.isLive = true) (e : Event) : b.emissions (.emit e) = [e] := if_pos hlive

/-- Nobody else tells the collector anything or takes from it what it has not read. -/
theorem Moves.unread_le {c : Collector} {next : Broadcast} (h : b.Moves a next) (hc : b.collector = some c) :
    next.collector = some c ∧ b.unread ≤ next.unread := by
  have hle : ∀ {bus : Bus Event} {clones : ℕ}, bus.find? Collector.name = b.bus.find? Collector.name →
      b.bus.sent ≤ bus.sent → b.unread ≤ (Broadcast.mk bus clones b.collector).unread := by
    intro bus clones hfind hsent
    simp only [unread, receiver?, hc, Option.bind_some, hfind]
    cases b.bus.find? Collector.name with
    | none => exact Nat.le_refl 0
    | some r => exact Nat.sub_le_sub_right hsent r.position
  cases h with
  | emits e act live =>
    have hfind : (b.bus.send e).1.find? Collector.name = b.bus.find? Collector.name := by
      rw [Bus.find?, (Bus.send_steady _ e).1, Bus.find?]
    exact ⟨hc, hle hfind (b.bus.sent_le_send e)⟩
  | counts => exact ⟨hc, hle rfl (Nat.le_refl _)⟩
  | closes => exact ⟨hc, hle rfl (Nat.le_refl _)⟩
  | keeps quiet receivers own => exact ⟨hc, hle own (Nat.le_refl _)⟩
  | spawns quiet none => exact absurd (hc.symm.trans none) (Option.some_ne_none c)

end Broadcast

open Broadcast

/-- A broadcast, what has been emitted since its collector was spawned, what the collector has recorded, and what was
emitted while nobody was subscribed. -/
structure Reception where
  broadcast : Broadcast
  emitted : List Event := []
  recorded : List Event := []
  unheard : List Event := []

namespace Reception

def step (r : Reception) (a : Act) : Reception where
  broadcast := r.broadcast.step a
  emitted := if r.broadcast.collector.isSome then r.emitted ++ r.broadcast.emissions a else r.emitted
  recorded := r.recorded ++ r.broadcast.readings a
  unheard := if r.broadcast.bus.receivers.isEmpty then r.unheard ++ r.broadcast.emissions a else r.unheard

def run (r : Reception) (acts : List Act) : Reception := acts.foldl step r

def opened (capacity : ℕ) : Reception := { broadcast := .opened capacity }

/-- How many events the collector was told that it has missed. -/
def lagged (r : Reception) : ℕ := r.broadcast.collector.elim 0 fun c => c.summary.lagged

def hasFinished (r : Reception) : Bool := r.broadcast.collector.any Collector.hasFinished

variable {r : Reception} {c : Collector} {a : Act} {acts : List Act} {before : List Event} {capacity : ℕ}

theorem broadcast_run (r : Reception) (acts : List Act) :
    (r.run acts).broadcast = acts.foldl Broadcast.step r.broadcast := by
  induction acts generalizing r with
  | nil => rfl
  | cons a acts ih => exact ih (r.step a)

theorem readings_of_ne (b : Broadcast) (ha : a ≠ .collect) : b.readings a = [] := by
  unfold readings
  split
  · exact absurd rfl ha
  · rfl

theorem step_quiet (ha : a ≠ .collect) (hquiet : r.broadcast.emissions a = []) :
    r.step a = ⟨r.broadcast.step a, r.emitted, r.recorded, r.unheard⟩ := by
  simp only [step, hquiet, readings_of_ne _ ha, List.append_nil, ite_self]

/-- A read of the collector emits nothing. -/
theorem step_collect {next : Broadcast} (h : r.broadcast.collect = next) : r.step .collect = {
    broadcast := next
    emitted := r.emitted
    recorded := r.recorded ++ (r.broadcast.told?.bind Bus.Delivery.event?).toList
    unheard := r.unheard } := by
  have hstep : r.broadcast.step .collect = next := h
  simp only [step, hstep, emissions, List.append_nil, ite_self]
  rfl

/-! ## The place of the collector -/

/-- How much of what was emitted the collector is done with, since it has recorded it or was told that it missed it. -/
def place (r : Reception) (c : Collector) : ℕ := r.recorded.length + c.summary.lagged

/-- So much of what was emitted has been recorded or missed, in order. -/
structure Collects (r : Reception) (c : Collector) : Prop where
  within : r.place c ≤ r.emitted.length
  recorded : r.recorded.Sublist (r.emitted.take (r.place c))
  summary : c.summary = { Summary.ofEvents r.recorded with lagged := c.summary.lagged }

/-- Before the collector is spawned, while it reads, and after it has finished. -/
inductive Attends (r : Reception) : Prop where
  | absent (before : List Event) (collector : r.broadcast.collector = none) (keeps : r.broadcast.bus.Keeps before)
    (emitted : r.emitted = []) (recorded : r.recorded = []) : Attends r
  | reading (before : List Event) (c : Collector) (collector : r.broadcast.collector = some c)
    (unfinished : c.hasFinished = false) (keeps : r.broadcast.bus.Keeps (before ++ r.emitted))
    (receiver : r.broadcast.bus.find? Collector.name =
      some ⟨Collector.name, before.length + r.place c⟩)
    (collects : r.Collects c) : Attends r
  | finished (c : Collector) (collector : r.broadcast.collector = some c) (finished : c.hasFinished = true)
    (gone : r.broadcast.clones = 0) (left : r.broadcast.bus.find? Collector.name = none)
    (complete : r.place c = r.emitted.length) (collects : r.Collects c) : Attends r

theorem Collects.more (h : r.Collects c) {broadcast : Broadcast} {unheard : List Event} (more : List Event) :
    Collects ⟨broadcast, r.emitted ++ more, r.recorded, unheard⟩ c where
  within := Nat.le_trans h.within (List.sublist_append_left _ _).length_le
  recorded := by
    have htake : (r.emitted ++ more).take (r.place c) = r.emitted.take (r.place c) :=
      List.take_append_of_le_length h.within
    exact htake.symm ▸ h.recorded
  summary := h.summary

/-- The bus of a broadcast that was opened with a capacity. -/
structure Sound (capacity : ℕ) (r : Reception) : Prop where
  capacity : r.broadcast.bus.capacity = capacity
  closes : r.broadcast.bus.isOpen = r.broadcast.isLive
  unobserved : r.broadcast.bus.unobserved = r.unheard.length
  attends : r.Attends

theorem sound_opened (capacity : ℕ) : (opened capacity).Sound (Bus.roundedCapacity capacity) where
  capacity := rfl
  closes := rfl
  unobserved := rfl
  attends := .absent [] rfl (.withCapacity capacity) rfl rfl

theorem isEmpty_of_find? {α : Type} {b : Bus α} {name : String} {receiver : Receiver}
    (h : b.find? name = some receiver) : b.receivers.isEmpty = false := by
  have hmem := List.mem_of_find?_eq_some h
  rw [List.isEmpty_eq_false_iff]
  exact List.ne_nil_of_mem hmem

/-- What comes of a read of the collector at its place in the history. -/
inductive Reads (r : Reception) (before : List Event) (c : Collector) : Reception → Prop where
  | lagged (missed : ℕ) (positive : 0 < missed)
    (within : r.place c + missed ≤ r.emitted.length)
    (overrun : r.broadcast.bus.capacity < r.broadcast.unread) : Reads r before c
      ⟨{ r.broadcast with
        bus := r.broadcast.bus.move Collector.name (before.length + (r.place c + missed))
        collector := some (c.learn (.lagged missed)) }, r.emitted, r.recorded, r.unheard⟩
  | event (e : Event) (next : r.emitted[r.place c]? = some e)
    (kept : r.broadcast.unread ≤ r.broadcast.bus.capacity) : Reads r before c
      ⟨{ r.broadcast with
        bus := r.broadcast.bus.move Collector.name (before.length + r.place c + 1)
        collector := some (c.learn (.event e)) }, r.emitted, r.recorded ++ [e], r.unheard⟩
  | waits (live : r.broadcast.isLive = true) : Reads r before c r
  | leaves (complete : r.place c = r.emitted.length) (empty : r.broadcast.unread = 0)
    (gone : r.broadcast.clones = 0) : Reads r before c
      ⟨{ r.broadcast with
        bus := r.broadcast.bus.unsubscribe Collector.name
        collector := some { c with hasFinished := true } }, r.emitted, r.recorded, r.unheard⟩

theorem reads (hcloses : r.broadcast.bus.isOpen = r.broadcast.isLive) (hcollector : r.broadcast.collector = some c)
    (hunfinished : c.hasFinished = false) (hkeeps : r.broadcast.bus.Keeps (before ++ r.emitted))
    (hreceiver : r.broadcast.bus.find? Collector.name =
      some ⟨Collector.name, before.length + r.place c⟩)
    (hcollects : r.Collects c) : r.Reads before c (r.step .collect) := by
  have hwithin := hcollects.within
  have hsent := hkeeps.sent
  have hreceive := hkeeps.receive ⟨Collector.name, before.length + r.place c⟩
  rw [List.length_append] at hsent hreceive
  have hnext : (before ++ r.emitted)[before.length + r.place c]? = r.emitted[r.place c]? := by
    rw [List.getElem?_append_right (Nat.le_add_right _ _), Nat.add_sub_cancel_left]
  have hstands : r.broadcast.receiver? = some ⟨Collector.name, before.length + r.place c⟩ := by
    rw [receiver?, hcollector, Option.bind_some, hreceiver]
  have hunread : r.broadcast.unread = r.emitted.length - r.place c := by
    rw [unread, hstands, Option.elim_some, hsent]
    exact Nat.add_sub_add_left ..
  have htold : r.broadcast.told? =
      some (r.broadcast.bus.receive ⟨Collector.name, before.length + r.place c⟩).2 := by
    rw [told?, hstands]
    rfl
  rw [step_collect rfl, htold]
  simp only [Broadcast.collect, hcollector, hreceiver]
  split at hreceive
  -- The collector has fallen behind what is kept.
  · next hbehind =>
    dsimp only at hbehind hreceive
    obtain ⟨missed, hmissed⟩ := Nat.exists_eq_add_of_lt hbehind
    have hplace : before.length + r.emitted.length - r.broadcast.bus.capacity =
        before.length + (r.place c + (missed + 1)) := by omega
    have hcount : before.length + (r.place c + (missed + 1)) - (before.length + r.place c) = missed + 1 := by omega
    rw [hplace, hcount] at hreceive
    rw [hreceive]
    have hnext : r.Reads before c _ := .lagged (missed + 1) (Nat.succ_pos _) (by omega) (by omega)
    simpa [Collector.learn, hunfinished, Bus.Delivery.event?] using hnext
  · next hkept =>
    rw [hnext] at hreceive
    dsimp only at hkept
    cases hget : r.emitted[r.place c]? with
    | some e =>
      rw [hget, Option.elim_some] at hreceive
      rw [hreceive]
      have hnext : r.Reads before c _ := .event e hget (by omega)
      simpa [Collector.learn, hunfinished, Bus.Delivery.event?] using hnext
    | none =>
      have hcomplete : r.place c = r.emitted.length := Nat.le_antisymm hwithin (List.getElem?_eq_none_iff.mp hget)
      rw [hget, Option.elim_none, hcloses] at hreceive
      rw [hreceive]
      cases hlive : r.broadcast.isLive with
      | true =>
        have hsame : c.learn .empty = c := rfl
        have hnext : r.Reads before c r := .waits hlive
        simpa [hsame, hunfinished, Bus.Delivery.event?, ← hcollector] using hnext
      | false =>
        have hgone : r.broadcast.clones = 0 := by simpa [isLive] using hlive
        have hnext : r.Reads before c _ := .leaves hcomplete (by omega) hgone
        simpa [Collector.learn, Summary.collect, Bus.Delivery.event?] using hnext

/-! ## Every step -/

theorem Attends.congr (h : r.Attends) {next : Broadcast} (unheard : List Event)
    (hcollector : next.collector = r.broadcast.collector)
    (hreceiver : next.bus.find? Collector.name = r.broadcast.bus.find? Collector.name)
    (hkeeps : ∀ {history}, r.broadcast.bus.Keeps history → next.bus.Keeps history)
    (hgone : r.broadcast.clones = 0 → next.clones = 0) : Attends ⟨next, r.emitted, r.recorded, unheard⟩ := by
  cases h with
  | absent before collector keeps emitted recorded =>
    exact .absent before (hcollector.trans collector) (hkeeps keeps) emitted recorded
  | reading before c collector unfinished keeps receiver collects =>
    exact .reading before c (hcollector.trans collector) unfinished (hkeeps keeps) (hreceiver.trans receiver)
      ⟨collects.within, collects.recorded, collects.summary⟩
  | finished c collector finished gone left complete collects =>
    exact .finished c (hcollector.trans collector) finished (hgone gone) (hreceiver.trans left) complete
      ⟨collects.within, collects.recorded, collects.summary⟩

/-- Whoever emits an event has a clone of the bus, so the collector has not finished. -/
theorem Attends.emit (h : r.Attends) (e : Event) (hlive : r.broadcast.isLive = true) : (r.step (.emit e)).Attends := by
  have hreadings : r.broadcast.readings (.emit e) = [] := rfl
  have hreceivers : (r.broadcast.bus.send e).1.find? Collector.name = r.broadcast.bus.find? Collector.name := by
    rw [Bus.find?, (Bus.send_steady _ e).1, Bus.find?]
  unfold step
  rw [emissions_emit hlive, step_emit hlive, hreadings, List.append_nil]
  cases h with
  | absent before collector keeps emitted recorded =>
    rw [collector]
    exact .absent _ rfl (keeps.send e) emitted recorded
  | reading before c collector unfinished keeps receiver collects =>
    have hsend := keeps.send e
    rw [isEmpty_of_find? receiver] at hsend ⊢
    rw [collector]
    refine .reading before c rfl unfinished ?_ (hreceivers.trans receiver) (collects.more [e])
    rw [List.append_assoc] at hsend
    exact hsend
  | finished c collector finished gone left complete collects => simp [isLive, gone] at hlive

theorem Attends.spawn (h : r.Attends) (hnone : r.broadcast.collector = none) : Attends
    ⟨{ r.broadcast with bus := r.broadcast.bus.subscribe Collector.name, collector := some {} }, r.emitted, r.recorded,
      r.unheard⟩ := by
  cases h with
  | absent before collector keeps emitted recorded =>
    refine .reading before {} rfl rfl ?_ ?_ ⟨?_, ?_, ?_⟩
    · rw [emitted, List.append_nil]
      exact keeps.congr rfl rfl rfl
    · rw [Bus.find?_subscribe, if_pos rfl, keeps.sent, place, recorded]
      rfl
    · simp [place, recorded]
    · simp [recorded]
    · rw [recorded]
      rfl
  | reading before c collector => exact absurd (collector.symm.trans hnone) (Option.some_ne_none c)
  | finished c collector => exact absurd (collector.symm.trans hnone) (Option.some_ne_none c)

theorem record_lagged (s : Summary) (missed : ℕ) (e : Event) :
    ({ s with lagged := missed } : Summary).record e = { s.record e with lagged := missed } := by
  rw [Summary.record_eq_add, Summary.record_eq_add]
  rfl

theorem lagged_event (c : Collector) (e : Event) : (c.learn (.event e)).summary.lagged = c.summary.lagged := by
  have hrecord := congrArg Summary.lagged (record_lagged c.summary c.summary.lagged e)
  exact hrecord

theorem place_event (r : Reception) (c : Collector) (e : Event) (broadcast : Broadcast) :
    place ⟨broadcast, r.emitted, r.recorded ++ [e], r.unheard⟩ (c.learn (.event e)) = r.place c + 1 := by
  rw [place, lagged_event, List.length_append, place]
  exact Nat.add_right_comm _ _ _

theorem place_lagged (r : Reception) (c : Collector) (missed : ℕ) (broadcast : Broadcast) :
    place ⟨broadcast, r.emitted, r.recorded, r.unheard⟩ (c.learn (.lagged missed)) = r.place c + missed :=
  (Nat.add_assoc ..).symm

theorem Collects.event (h : r.Collects c) {e : Event} (he : r.emitted[r.place c]? = some e) (broadcast : Broadcast) :
    Collects ⟨broadcast, r.emitted, r.recorded ++ [e], r.unheard⟩ (c.learn (.event e)) := by
  constructor
  · rw [place_event]
    exact (List.getElem?_eq_some_iff.mp he).1
  · rw [place_event, List.take_add_one, he]
    exact h.recorded.append_right [e]
  · have hlearn : (c.learn (.event e)).summary = { (Summary.ofEvents r.recorded).record e with
        lagged := c.summary.lagged } := by
      rw [← record_lagged, ← h.summary]
      rfl
    rw [Summary.ofEvents_concat, hlearn]

theorem Collects.lagged (h : r.Collects c) {missed : ℕ} (hwithin : r.place c + missed ≤ r.emitted.length)
    (broadcast : Broadcast) : Collects ⟨broadcast, r.emitted, r.recorded, r.unheard⟩ (c.learn (.lagged missed)) := by
  constructor
  · rw [place_lagged]
    exact hwithin
  · rw [place_lagged]
    exact h.recorded.trans (List.take_sublist_take_left (Nat.le_add_right _ _))
  · have hlearn : (c.learn (.lagged missed)).summary = { c.summary with lagged := c.summary.lagged + missed } := rfl
    rw [hlearn, h.summary]

theorem Attends.reads {next : Reception} (h : r.Reads before c next)
    (hcollector : r.broadcast.collector = some c) (hunfinished : c.hasFinished = false)
    (hkeeps : r.broadcast.bus.Keeps (before ++ r.emitted))
    (hreceiver : r.broadcast.bus.find? Collector.name = some ⟨Collector.name, before.length + r.place c⟩)
    (hcollects : r.Collects c) : next.Attends := by
  have hmoved : ∀ position, (r.broadcast.bus.move Collector.name position).find? Collector.name =
      some ⟨Collector.name, position⟩ := by
    intro position
    rw [Bus.find?_move, if_pos rfl, hreceiver]
    rfl
  cases h with
  | lagged missed positive within overrun =>
    refine .reading before _ rfl hunfinished (hkeeps.congr rfl rfl rfl) ?_ (hcollects.lagged within _)
    rw [place_lagged, hmoved]
  | event e next kept =>
    refine .reading before _ rfl hunfinished (hkeeps.congr rfl rfl rfl) ?_ (hcollects.event next _)
    rw [place_event, hmoved]
    rfl
  | waits live => exact .reading before c hcollector hunfinished hkeeps hreceiver hcollects
  | leaves complete empty gone =>
    refine .finished _ rfl rfl gone ?_ complete ⟨hcollects.within, hcollects.recorded, hcollects.summary⟩
    rw [Bus.find?_unsubscribe, if_pos rfl]

/-- A collector that has finished, or is not there, does not read. -/
theorem step_collect_idle (h : r.broadcast.receiver? = none) : r.step .collect = r := by
  have hcollect : r.broadcast.collect = r.broadcast := by
    unfold Broadcast.collect
    split
    · next hc hr => simp [receiver?, hc, hr] at h
    · rfl
  rw [step_collect hcollect, told?, h, Option.map_none, Option.bind_none, Option.toList_none, List.append_nil]

theorem receiver?_absent {b : Broadcast} (h : b.collector = none) : b.receiver? = none := by
  rw [receiver?, h, Option.bind_none]

theorem receiver?_left {b : Broadcast} (h : b.bus.find? Collector.name = none) : b.receiver? = none := by
  rw [receiver?, h]
  cases b.collector <;> rfl

theorem Sound.collect (h : r.Sound capacity) : (r.step .collect).Sound capacity := by
  cases h.attends with
  | absent before collector => rwa [step_collect_idle (receiver?_absent collector)]
  | finished c collector finished gone left => rwa [step_collect_idle (receiver?_left left)]
  | reading before c collector unfinished keeps receiver collects =>
    have hreads := reads h.closes collector unfinished keeps receiver collects
    have hattends := Attends.reads hreads collector unfinished keeps receiver collects
    generalize r.step .collect = next at hreads hattends
    cases hreads with
    | lagged => exact ⟨h.capacity, h.closes, h.unobserved, hattends⟩
    | event => exact ⟨h.capacity, h.closes, h.unobserved, hattends⟩
    | waits => exact h
    | leaves => exact ⟨h.capacity, h.closes, h.unobserved, hattends⟩

theorem Sound.emit (h : r.Sound capacity) (e : Event) (hlive : r.broadcast.isLive = true) :
    (r.step (.emit e)).Sound capacity := by
  obtain ⟨_, hopen, hcapacity⟩ := r.broadcast.bus.send_steady e
  refine ⟨?_, ?_, ?_, h.attends.emit e hlive⟩
  · rw [step, step_emit hlive]
    exact hcapacity.trans h.capacity
  · rw [step, step_emit hlive]
    exact hopen.trans h.closes
  · rw [step, step_emit hlive, emissions_emit hlive]
    cases hempty : r.broadcast.bus.receivers.isEmpty with
    | true =>
      rw [Bus.send_unheard hempty, if_pos rfl, List.length_append, ← h.unobserved]
      rfl
    | false =>
      rw [if_neg Bool.false_ne_true, ← h.unobserved]
      exact Bus.send_heard hempty e

theorem Sound.step (h : r.Sound capacity) (a : Act) : (r.step a).Sound capacity := by
  by_cases ha : a = .collect
  · rw [ha]
    exact h.collect
  have hmoves := moves (b := r.broadcast) ha
  generalize hnext : r.broadcast.step a = next at hmoves
  cases hmoves with
  | emits e act live =>
    rw [act]
    exact h.emit e live
  | counts quiet clones live left =>
    have hopen : r.broadcast.bus.isOpen = decide (0 < clones) :=
      h.closes.trans (live.trans (decide_eq_true left).symm)
    rw [step_quiet ha quiet, hnext]
    have hattends : r.broadcast.clones = 0 → clones = 0 := by
      intro hgone
      simp [isLive, hgone] at live
    exact ⟨h.capacity, hopen, h.unobserved, h.attends.congr _ rfl rfl id hattends⟩
  | closes quiet =>
    rw [step_quiet ha quiet, hnext]
    exact ⟨h.capacity, rfl, h.unobserved, h.attends.congr _ rfl rfl (fun hkeeps => hkeeps.congr rfl rfl rfl)
      fun _ => rfl⟩
  | keeps quiet receivers own =>
    rw [step_quiet ha quiet, hnext]
    exact ⟨h.capacity, h.closes, h.unobserved,
      h.attends.congr _ rfl own (fun hkeeps => hkeeps.congr rfl rfl rfl) id⟩
  | spawns quiet none =>
    rw [step_quiet ha quiet, hnext]
    exact ⟨h.capacity, h.closes, h.unobserved, h.attends.spawn none⟩

theorem Sound.run (h : r.Sound capacity) (acts : List Act) : (r.run acts).Sound capacity := by
  induction acts generalizing r with
  | nil => exact h
  | cons a acts ih => exact ih (h.step a)

/-! ## Falling behind -/

theorem lagged_some {next : Reception} (h : next.broadcast.collector = some c) : next.lagged = c.summary.lagged := by
  rw [lagged, h, Option.elim_some]

/-- As long as no more events are unread than are kept, the collector misses none. -/
theorem Sound.lagged_step (h : r.Sound capacity) (hfits : r.broadcast.unread ≤ capacity) (a : Act) :
    (r.step a).lagged = r.lagged := by
  by_cases ha : a = .collect
  · rw [ha]
    cases h.attends with
    | absent before collector => rw [step_collect_idle (receiver?_absent collector)]
    | finished c collector finished gone left => rw [step_collect_idle (receiver?_left left)]
    | reading before c collector unfinished keeps receiver collects =>
      have hreads := reads h.closes collector unfinished keeps receiver collects
      generalize r.step .collect = next at hreads
      cases hreads with
      | lagged missed positive within overrun =>
        rw [h.capacity] at overrun
        exact absurd hfits (Nat.not_le_of_lt overrun)
      | event e => exact (lagged_event c e).trans (lagged_some collector).symm
      | waits => rfl
      | leaves => exact (lagged_some collector).symm
  · have hmoves := moves (b := r.broadcast) ha
    have hlagged : (r.step a).lagged = (r.broadcast.step a).collector.elim 0 fun c => c.summary.lagged := rfl
    rw [hlagged]
    generalize r.broadcast.step a = next at hmoves
    cases hmoves with
    | spawns quiet none =>
      rw [lagged, none]
      rfl
    | emits | counts | closes | keeps => rfl

/-- The collector has missed events, or will be told so at its next read. -/
def IsBehind (capacity : ℕ) (r : Reception) : Prop := 0 < r.lagged ∨ capacity < r.broadcast.unread

theorem unread_eq_zero {b : Broadcast} (h : b.receiver? = none) : b.unread = 0 := by
  rw [unread, h, Option.elim_none]

theorem Sound.behind_step (h : r.Sound capacity) (hbehind : r.IsBehind capacity) (a : Act) :
    (r.step a).IsBehind capacity := by
  cases h.attends with
  | absent before collector =>
    have hlagged : r.lagged = 0 := by rw [lagged, collector, Option.elim_none]
    have hunread := unread_eq_zero (receiver?_absent collector)
    unfold IsBehind at hbehind
    omega
  | finished c collector finished gone left =>
    have hunread := unread_eq_zero (receiver?_left left)
    have hfits : r.broadcast.unread ≤ capacity := by omega
    unfold IsBehind at hbehind ⊢
    rw [h.lagged_step hfits a]
    omega
  | reading before c collector unfinished keeps receiver collects =>
    rw [IsBehind, lagged_some collector] at hbehind
    by_cases ha : a = .collect
    · have hreads := reads h.closes collector unfinished keeps receiver collects
      rw [ha]
      generalize r.step .collect = next at hreads
      cases hreads with
      | lagged missed positive => exact .inl (Nat.add_pos_right _ positive)
      | event e next kept =>
        rw [h.capacity] at kept
        exact .inl (Nat.lt_of_lt_of_eq (hbehind.resolve_right (Nat.not_lt_of_le kept)) (lagged_event c e).symm)
      | waits =>
        rw [IsBehind, lagged_some collector]
        exact hbehind
      | leaves complete empty =>
        rw [empty] at hbehind
        exact .inl (hbehind.resolve_right (Nat.not_lt_zero _))
    · obtain ⟨hcollector, hunread⟩ := (moves (b := r.broadcast) ha).unread_le collector
      have hlagged : (r.step a).lagged = c.summary.lagged := lagged_some hcollector
      rw [IsBehind, hlagged]
      exact hbehind.imp_right fun hlt => Nat.lt_of_lt_of_le hlt hunread

theorem Sound.behind_run (h : r.Sound capacity) (hbehind : r.IsBehind capacity) (acts : List Act) :
    (r.run acts).IsBehind capacity := by
  induction acts generalizing r with
  | nil => exact hbehind
  | cons a acts ih => exact ih (h.step a) (h.behind_step hbehind a)

theorem run_append (r : Reception) (first second : List Act) : r.run (first ++ second) = (r.run first).run second :=
  List.foldl_append

theorem lagged_run (h : r.Sound capacity) (hlagged : r.lagged = 0)
    (hfits : ∀ past, past <+: acts → (r.run past).broadcast.unread ≤ capacity) : (r.run acts).lagged = 0 := by
  induction acts generalizing r with
  | nil => exact hlagged
  | cons a acts ih =>
    apply ih (h.step a)
    · exact (h.lagged_step (hfits [] List.nil_prefix) a).trans hlagged
    · intro past hpast
      exact hfits (a :: past) (List.cons_prefix_cons.mpr ⟨rfl, hpast⟩)

theorem Sound.of_finished (h : r.Sound capacity) (hfinished : r.hasFinished = true) :
    ∃ c, r.broadcast.collector = some c ∧ r.broadcast.clones = 0 ∧ r.place c = r.emitted.length ∧
      r.broadcast.unread = 0 ∧ r.Collects c := by
  cases h.attends with
  | absent before collector => simp [hasFinished, collector] at hfinished
  | reading before c collector unfinished => simp [hasFinished, collector, unfinished] at hfinished
  | finished c collector finished gone left complete collects =>
    exact ⟨c, collector, gone, complete, unread_eq_zero (receiver?_left left), collects⟩

/-- A collector that has finished has missed events if and only if it was behind at some time. -/
theorem lagged_eq_zero_iff (h : r.Sound capacity) (hlagged : r.lagged = 0)
    (hfinished : (r.run acts).hasFinished = true) :
    (r.run acts).lagged = 0 ↔ ∀ past, past <+: acts → (r.run past).broadcast.unread ≤ capacity := by
  constructor
  · intro hnone past hpast
    obtain ⟨later, rfl⟩ := hpast
    by_contra hover
    have hbehind := (h.run past).behind_run (.inr (Nat.lt_of_not_le hover)) later
    rw [← run_append] at hbehind
    obtain ⟨c, _, _, _, hunread, _⟩ := (h.run (past ++ later)).of_finished hfinished
    unfold IsBehind at hbehind
    omega
  · exact lagged_run h hlagged

/-- A collector that has missed nothing has counted all that was emitted. -/
theorem Sound.rows_of_finished (h : r.Sound capacity) (hcollector : r.broadcast.collector = some c)
    (hfinished : c.hasFinished = true) (hlagged : c.summary.lagged = 0) :
    r.broadcast.clones = 0 ∧ c.summary.rows = (Summary.ofEvents r.emitted).rows := by
  obtain ⟨c', hc', hgone, hcomplete, _, hcollects⟩ := h.of_finished (by simp [hasFinished, hcollector, hfinished])
  obtain rfl : c = c' := Option.some.inj (hcollector.symm.trans hc')
  have hlength : r.recorded.length = r.emitted.length := by rwa [place, hlagged, Nat.add_zero] at hcomplete
  have hall : r.recorded = r.emitted :=
    (hcollects.recorded.trans (List.take_sublist _ _)).eq_of_length hlength
  have hsummary := congrArg Summary.rows hcollects.summary
  rw [hall] at hsummary
  exact ⟨hgone, hsummary⟩

/-! ## The end -/

/-- The events that the collector has neither recorded nor missed yet. -/
def remaining (r : Reception) : ℕ := r.emitted.length - (r.recorded.length + r.lagged)

theorem remaining_some {next : Reception} (h : next.broadcast.collector = some c) :
    next.remaining = next.emitted.length - next.place c := by
  rw [remaining, lagged_some h, place]

/-- Once the last clone is gone, every read brings the collector nearer to its end. -/
theorem Sound.remaining_lt (h : r.Sound capacity) (hspawned : r.broadcast.collector.isSome = true)
    (hgone : r.broadcast.clones = 0) (hunfinished : r.hasFinished = false) :
    (r.step .collect).hasFinished = true ∨ (r.step .collect).broadcast.clones = 0 ∧
      (r.step .collect).broadcast.collector.isSome = true ∧ (r.step .collect).remaining < r.remaining := by
  cases h.attends with
  | absent before collector => simp [collector] at hspawned
  | finished c collector finished => simp [hasFinished, collector, finished] at hunfinished
  | reading before c collector unfinished keeps receiver collects =>
    have hreads := reads h.closes collector unfinished keeps receiver collects
    generalize r.step .collect = next at hreads
    cases hreads with
    | lagged missed positive within =>
      refine .inr ⟨hgone, rfl, ?_⟩
      rw [remaining_some collector, remaining_some rfl, place_lagged]
      dsimp only
      omega
    | event e next =>
      refine .inr ⟨hgone, rfl, ?_⟩
      have hlt := (List.getElem?_eq_some_iff.mp next).1
      rw [remaining_some collector, remaining_some rfl, place_event]
      dsimp only
      omega
    | waits live => simp [isLive, hgone] at live
    | leaves => exact .inl rfl

theorem Sound.exists_finished (h : r.Sound capacity) (hspawned : r.broadcast.collector.isSome = true)
    (hgone : r.broadcast.clones = 0) : ∃ reads, (r.run (List.replicate reads .collect)).hasFinished = true := by
  induction hn : r.remaining using Nat.strongRecOn generalizing r with
  | _ n ih =>
    cases hfinished : r.hasFinished with
    | true => exact ⟨0, hfinished⟩
    | false =>
      rcases h.remaining_lt hspawned hgone hfinished with hlast | ⟨hgone', hspawned', hlt⟩
      · exact ⟨1, hlast⟩
      · rw [hn] at hlt
        obtain ⟨reads, hreads⟩ := ih _ hlt (h.step .collect) hspawned' hgone' rfl
        exact ⟨reads + 1, hreads⟩

/-- Whatever the capacity of a bus and the order of the steps: when the collector has finished, the events that it has
recorded and those that it was told it missed are all that were emitted since it was spawned. The recorded ones stand
in the order in which they were emitted, each for one emission, and none was missed if and only if never more were
unread than the bus keeps. It does finish once the last clone is gone. An event that is emitted while nobody is
subscribed is counted by the bus and changes nothing else. -/
theorem nothing_lost_silently (capacity : ℕ) (acts : List Act) :
    let r := (opened capacity).run acts
    r.broadcast = acts.foldl Broadcast.step (.opened capacity) ∧
    (r.hasFinished = true → r.broadcast.clones = 0 ∧
      r.recorded.length + r.lagged = r.emitted.length ∧ r.recorded.Sublist r.emitted ∧
      r.broadcast.collector.map Collector.summary = some { Summary.ofEvents r.recorded with lagged := r.lagged } ∧
      (r.lagged = 0 ↔
        ∀ past, past <+: acts → ((opened capacity).run past).broadcast.unread ≤ Bus.roundedCapacity capacity)) ∧
    (r.broadcast.collector.isSome = true → r.broadcast.clones = 0 →
      ∃ reads, (r.run (List.replicate reads .collect)).hasFinished = true) ∧
    r.broadcast.bus.unobserved = r.unheard.length ∧
    ∀ e, r.broadcast.isLive = true → r.broadcast.bus.receivers = [] →
      r.broadcast.step (.emit e) =
        { r.broadcast with bus := { r.broadcast.bus with unobserved := r.broadcast.bus.unobserved + 1 } } := by
  intro r
  have h : r.Sound (Bus.roundedCapacity capacity) := (sound_opened capacity).run acts
  refine ⟨broadcast_run _ _, ?_, h.exists_finished, h.unobserved, ?_⟩
  · intro hfinished
    obtain ⟨c, hcollector, hgone, hcomplete, hunread, hcollects⟩ := h.of_finished hfinished
    have hlagged := lagged_some hcollector
    refine ⟨hgone, ?_, ?_, ?_, lagged_eq_zero_iff (sound_opened capacity) rfl hfinished⟩
    · rw [hlagged]
      exact hcomplete
    · exact hcollects.recorded.trans (List.take_sublist _ _)
    · rw [hcollector, hlagged, Option.map_some, ← hcollects.summary]
  · intro e hlive hnobody
    have hempty : r.broadcast.bus.receivers.isEmpty = true := by rw [hnobody, List.isEmpty_nil]
    rw [step_emit hlive, Bus.send_unheard hempty]

/-- On a bus that keeps one event two actors start before the collector reads; the error comes before it. -/
def overtaken : List Act :=
  [.emit (.error "too early" none), .spawn, .emit (.actorStarted "Reader" 0), .emit (.actorStarted "Reader" 1),
   .collect, .collect, .letGo, .collect]

theorem nothing_lost_silently_overtaken :
    let r := (opened 1).run overtaken
    r.hasFinished = true ∧ r.recorded = [.actorStarted "Reader" 1] ∧ r.lagged = 1 ∧ r.broadcast.bus.unobserved = 1 ∧
      r.recorded.length + r.lagged = r.emitted.length := by
  have hfinished : ((opened 1).run overtaken).hasFinished = true := by decide
  refine ⟨hfinished, by decide, by decide, by decide, ?_⟩
  exact ((nothing_lost_silently 1 overtaken).2.1 hfinished).2.1

end Reception

end PhasedWorkload.Telemetry
