import Mathlib.Algebra.Ring.Int.Defs
import KeyStore.Proofs.Moves

/-! Conservation of messages. Over a whole run, with settings changed at will, every queue keeps the
capacity that was in force when its subscriber joined, what a subscriber has received and will receive
is in the order in which it was addressed, and no copy is unaccounted for. -/
namespace KeyStore
open Std

namespace Config

theorem pos_of_positive {value : String} {n : Nat} (h : positive value = .ok n) : 0 < n := by
  rw [positive] at h
  cases hnumber : number value .badNumber with
  | error err =>
    rw [hnumber] at h
    cases h
  | ok m =>
    rw [hnumber] at h
    cases h
    exact Nat.le_max_left 1 m

theorem queueCapacity_setNamed {c c' : Config} {name value : String} (hc : 0 < c.queueCapacity)
    (h : c.setNamed name value = .ok c') : 0 < c'.queueCapacity := by
  rw [setNamed] at h
  split at h
  · rename_i p _
    cases p with
    | queueCapacity =>
      simp only [set, Except.map] at h
      split at h
      · cases h
      · rename_i n hn
        cases h
        exact pos_of_positive hn
    | loglevel =>
      cases h
      exact hc
    | _ =>
      simp only [set, Except.map] at h
      split at h
      · cases h
      · cases h
        exact hc
  · cases h

end Config

namespace Engine

structure QueuesSound (e : Engine Q) : Prop where
  capacity : 0 < e.config.queueCapacity
  broker : e.broker.Sound

theorem capacity_execute {e : Engine Q} (h : 0 < e.config.queueCapacity) (c : Command) (nanos : Nat) :
    0 < (e.execute c nanos).2.config.queueCapacity := by
  cases c with
  | onKeys c => exact h
  | onServer c =>
    cases c with
    | ping message => cases message <;> exact h
    | configSet parameter value =>
      simp only [execute, perform, serve]
      split
      · rename_i hset
        exact Config.queueCapacity_setNamed h hset
      · exact h
    | _ => exact h

theorem QueuesSound.after {e : Engine Q} (h : e.QueuesSound) {ev : Event} (hstep : ev.IsStep) :
    (e.after ev).QueuesSound where
  capacity := by
    cases ev with
    | execute c nanos => exact capacity_execute h.capacity c nanos
    | call words nanos => cases hstep
    | batch b nanos => cases hstep
    | _ => exact h.capacity
  broker := by
    rcases e.moves_of_isStep hstep with ⟨id, -, hdrop⟩ | hmoves
    · rw [hdrop]
      exact h.broker.drop id
    · exact hmoves.sound h.capacity h.broker

theorem inherits_execute {b : Broker Q} {e : Engine Q} (h : b.Inherits e.broker) (c : Command) (nanos : Nat) :
    b.Inherits (e.execute c nanos).2.broker := by
  rw [broker_execute]
  split
  · have hpublished : b.Inherits { e.broker with published := e.broker.published + 1 } :=
      h.of_queues rfl rfl
    exact (hpublished.deliverAll _ _ _).of_queues rfl rfl
  · exact h

theorem inherits_after (e : Engine Q) {ev : Event} (hev : ev ≠ .join) :
    e.broker.Inherits (e.after ev).broker := by
  cases ev with
  | execute c nanos => exact inherits_execute (.refl _) c nanos
  | call words nanos =>
    simp only [after, call, executeParsed]
    split
    · exact inherits_execute (.refl _) _ nanos
    · exact .refl _
  | batch b nanos =>
    exact batch_keeps (fun d => e.broker.Inherits d.broker)
      (fun _ c nanos hd => inherits_execute hd c nanos) b nanos e (.refl _)
  | join => exact absurd rfl hev
  | handle j c =>
    simp only [after, Broker.after]
    split
    · cases c with
      | receive wait => exact (Broker.Inherits.refl _).receive j wait
      | drop => exact (Broker.Inherits.refl _).drop j
      | _ => exact (Broker.Inherits.refl _).of_queues rfl rfl
    · exact .refl _
  | _ => exact .refl _

theorem fifo_after (e : Engine Q) (ev : Event) : (e.after ev).broker.fifo = e.broker.fifo := by
  by_cases hev : ev = .join
  · rw [hev]
    rfl
  · exact (e.inherits_after hev).fifo

theorem fifo_run (evs : List Event) (e : Engine Q) : (e.run evs).broker.fifo = e.broker.fifo := by
  induction evs generalizing e with
  | nil => rfl
  | cons ev evs ih => exact (ih (e.after ev)).trans (e.fifo_after ev)

theorem queue_after {e : Engine Q} {ev : Event} {id : SubscriberId} {q : Q}
    (h : (e.after ev).broker.queues[id]? = some q) :
    (ev = .join ∧ e.subscriber.1 = id ∧ e.config.queueCapacity = e.broker.fifo.capacity q) ∨
      ∃ old, e.broker.queues[id]? = some old ∧ e.broker.fifo.capacity old = e.broker.fifo.capacity q := by
  by_cases hev : ev = .join
  · subst hev
    simp only [after, subscriber, Broker.subscriber, ExtTreeMap.getElem?_insert] at h
    split at h
    · rename_i hid
      cases h
      exact .inl ⟨rfl, Std.compare_eq_iff_eq.mp hid, (e.broker.fifo.capacity_bounded _).symm⟩
    · exact .inr ⟨q, h, rfl⟩
  · exact .inr ((e.inherits_after hev).queue id q h)

theorem queue_run (evs : List Event) {e : Engine Q} {id : SubscriberId} {q : Q}
    (h : (e.run evs).broker.queues[id]? = some q) :
    (∃ earlier later, evs = earlier ++ .join :: later ∧ (e.run earlier).subscriber.1 = id ∧
      (e.run earlier).config.queueCapacity = e.broker.fifo.capacity q) ∨
      ∃ old, e.broker.queues[id]? = some old ∧ e.broker.fifo.capacity old = e.broker.fifo.capacity q := by
  induction evs generalizing e with
  | nil => exact .inr ⟨q, h, rfl⟩
  | cons ev evs ih =>
    have hlater := ih h
    rw [e.fifo_after ev] at hlater
    rcases hlater with ⟨earlier, later, rfl, hid, hcapacity⟩ | ⟨old, hold, hcapacity⟩
    · exact .inl ⟨ev :: earlier, later, rfl, hid, hcapacity⟩
    · rcases queue_after hold with ⟨rfl, hid, hnew⟩ | ⟨older, holder, hsame⟩
      · exact .inl ⟨[], evs, rfl, hid, hnew.trans hcapacity⟩
      · exact .inr ⟨older, holder, hsame.trans hcapacity⟩

/-- The copies that a run addresses to subscribers, in the order in which they are published. -/
def addressed (e : Engine Q) (evs : List Event) : List Copy := e.gather addressedAt (stepwise evs)

/-- The messages that subscribers receive in a run, in order. -/
def received (e : Engine Q) (evs : List Event) : List Copy := e.gather receivedAt (stepwise evs)

/-- What a subscriber has received and what waits for it comes from what waited and what was addressed,
in this order. -/
theorem waiting_step {e : Engine Q} (h : e.QueuesSound) {ev : Event} (hstep : ev.IsStep) (id : SubscriberId) :
    (messagesTo id (e.receivedAt ev) ++ (e.after ev).broker.waiting id).Sublist
      (e.broker.waiting id ++ messagesTo id (e.addressedAt ev)) := by
  rcases e.moves_of_isStep hstep with ⟨j, rfl, hdrop⟩ | hmoves
  · rw [hdrop]
    exact (e.broker.waiting_drop_sublist j id).trans (List.sublist_append_left _ _)
  · exact hmoves.waiting_sublist h.broker id

theorem waiting_run (id : SubscriberId) (steps : List Event) (hsteps : ∀ ev ∈ steps, ev.IsStep)
    {e : Engine Q} (h : e.QueuesSound) :
    (messagesTo id (e.gather receivedAt steps) ++ (e.run steps).broker.waiting id).Sublist
      (e.broker.waiting id ++ messagesTo id (e.gather addressedAt steps)) := by
  induction steps generalizing e with
  | nil => simp [gather, messagesTo]
  | cons ev steps ih =>
    obtain ⟨hev, hrest⟩ := List.forall_mem_cons.mp hsteps
    have hfirst := (waiting_step h hev id).append_right
      (messagesTo id ((e.after ev).gather addressedAt steps))
    have hlater := (ih hrest (h.after hev)).append_left (messagesTo id (e.receivedAt ev))
    simp only [gather, messagesTo_append, run_cons, List.append_assoc] at hfirst ⊢
    exact hlater.trans hfirst

theorem account_run (steps : List Event) (hsteps : ∀ ev ∈ steps, ev.IsStep)
    (hdrop : ∀ id, Event.handle id .drop ∉ steps) {e : Engine Q} (h : e.QueuesSound) :
    (e.gather addressedAt steps).length + (e.broker.pending + e.broker.dropped) =
      (e.gather receivedAt steps).length +
        ((e.run steps).broker.pending + (e.run steps).broker.dropped) := by
  induction steps generalizing e with
  | nil => rfl
  | cons ev steps ih =>
    obtain ⟨hev, hrest⟩ := List.forall_mem_cons.mp hsteps
    have hlater := ih hrest (fun id hmem => hdrop id (List.mem_cons_of_mem ev hmem)) (h.after hev)
    rcases e.moves_of_isStep hev with ⟨id, rfl, -⟩ | hmoves
    · exact absurd List.mem_cons_self (hdrop id)
    · have hfirst := hmoves.account h.broker
      rw [gather, gather, List.length_append, List.length_append, run_cons]
      omega

def replied : Answer → Int
  | (.ok (.onServer (.publish _ _)), .ok (.integer n)) => n
  | _ => 0

theorem delivered_executeParsed (e : Engine Q) (c : Except Error Command) (nanos : Nat) :
    ((e.executeParsed c nanos).2.broker.delivered : Int) =
      e.broker.delivered + replied (c, (e.executeParsed c nanos).1) := by
  cases c with
  | error err => simp [executeParsed, replied]
  | ok c =>
    have hbroker := e.broker_execute c nanos
    cases c with
    | onKeys c => simp [executeParsed, hbroker, replied]
    | onServer c =>
      cases c with
      | publish channel payload =>
        have hsame := Broker.delivered_deliverAll e.config.overflow e.config.publishTimeout
          (e.broker.copies channel payload) { e.broker with published := e.broker.published + 1 }
        simp [executeParsed, execute, perform, serve, record, Broker.publish, replied, hsame,
          Reply.count]
      | _ => simp [executeParsed, hbroker, replied]

theorem delivered_after {e : Engine Q} {ev : Event} (hstep : ev.IsStep)
    (hev : ∀ c nanos, ev ≠ .execute c nanos) : (e.after ev).broker.delivered = e.broker.delivered := by
  cases ev with
  | execute c nanos => exact absurd rfl (hev c nanos)
  | call words nanos => cases hstep
  | batch b nanos => cases hstep
  | handle id c =>
    simp only [after, Broker.after]
    split
    · cases c with
      | receive wait =>
        simp only [Broker.receive]
        split <;> rfl
      | _ => rfl
    · rfl
  | _ => rfl

theorem delivered_run (evs : List Event) (e : Engine Q) :
    ((e.run evs).broker.delivered : Int) =
      e.broker.delivered + ((e.transcript evs).map replied).sum := by
  refine run_keeps_transcript
    (P := fun d as => (d.broker.delivered : Int) = e.broker.delivered + (as.map replied).sum)
    (fun d as c nanos hd => ?_) (fun d as ev hstep hev hd => ?_) evs e [] (by simp)
  · rw [delivered_executeParsed, hd, List.map_append, List.sum_append, List.map_singleton,
      List.sum_singleton, Int.add_assoc]
  · rw [delivered_after hstep hev]
    exact hd

/-- The fate of each copy of a message: the copies before it are delivered first, those after it next,
and then the message is published. -/
theorem fate_publish {e : Engine Q} (h : e.QueuesSound) (channel payload : Bytes) (nanos : Nat)
    (earlier : List Copy) (c : Copy) (later : List Copy)
    (hcopies : e.broker.copies channel payload = earlier ++ c :: later) :
    let deliverAll := Broker.deliverAll e.config.overflow e.config.publishTimeout
    let before := (deliverAll earlier { e.broker with published := e.broker.published + 1 }).2
    let r := before.deliver e.config.overflow e.config.publishTimeout c
    e.broker.Inherits before ∧
      (∃ q q', Broker.Fate e.broker.fifo e.config.overflow c before r.2 q q' r.1) ∧
      (e.execute (.onServer (.publish channel payload)) nanos).2.broker.queues =
        (deliverAll later r.2).2.queues := by
  intro deliverAll before r
  let start : Broker Q := { e.broker with published := e.broker.published + 1 }
  have hstart : e.broker.Inherits start := (Broker.Inherits.refl e.broker).of_queues rfl rfl
  have hinherits : e.broker.Inherits before := hstart.deliverAll _ _ earlier
  have hbounds : before.InBounds :=
    Broker.InBounds.deliverAll (b := start) h.broker.bounds _ _ earlier
  have hmem : c.addressee ∈ before.queues := by
    have hc : c ∈ e.broker.copies channel payload := by simp [hcopies]
    have hsame := Broker.sameLinks_deliverAll e.config.overflow e.config.publishTimeout earlier start
    exact (hsame.queues c.addressee).mpr (e.broker.mem_queues_of_mem_copies hc)
  rw [ExtTreeMap.mem_iff_isSome_getElem?] at hmem
  obtain ⟨q, hq⟩ := Option.isSome_iff_exists.mp hmem
  have hfate := Broker.fate_deliver hq (hbounds _ q hq) e.config.overflow e.config.publishTimeout
  rw [hinherits.fifo] at hfate
  refine ⟨hinherits, ⟨q, _, hfate⟩, ?_⟩
  rw [broker_execute]
  simp only [Broker.publish, hcopies, Broker.deliverAll_append]
  rfl

/-- Over every run of an engine with room in its queues, whatever the queues are kept in and in whatever
order followers are visited: no queue passes the capacity that was in force when its subscriber joined;
what a subscriber has received and what waits for it is, in order, among the copies addressed to it; a
copy is lost exactly as the policy says; without departures every copy is received, pending or dropped;
and publishers are told what was delivered. -/
theorem messages_conserved (config : Config) (base : Base Q) (evs : List Event)
    (hcapacity : 0 < config.queueCapacity) :
    let start := new config base
    let e := start.run evs
    let f := base.fifo
    (∀ id q, e.broker.queues[id]? = some q →
      0 < f.capacity q ∧ (f.messages q).length ≤ f.capacity q ∧ e.broker.waiting id = f.messages q ∧
      ∃ earlier later, evs = earlier ++ .join :: later ∧ (start.run earlier).subscriber.1 = id ∧
        (start.run earlier).config.queueCapacity = f.capacity q) ∧
    (∀ id, (messagesTo id (start.received evs) ++ e.broker.waiting id).Sublist
      (messagesTo id (start.addressed evs))) ∧
    (∀ channel payload nanos earlier c later,
      e.broker.copies channel payload = earlier ++ c :: later →
      let deliverAll := Broker.deliverAll e.config.overflow e.config.publishTimeout
      let before := (deliverAll earlier { e.broker with published := e.broker.published + 1 }).2
      let r := before.deliver e.config.overflow e.config.publishTimeout c
      e.broker.Inherits before ∧
        (∃ q q', Broker.Fate f e.config.overflow c before r.2 q q' r.1) ∧
        (e.execute (.onServer (.publish channel payload)) nanos).2.broker.queues =
          (deliverAll later r.2).2.queues) ∧
    ((∀ id, .handle id .drop ∉ evs) →
      (start.addressed evs).length =
        (start.received evs).length + e.broker.pending + e.broker.dropped) ∧
    (e.broker.delivered : Int) = ((start.transcript evs).map replied).sum := by
  intro start e f
  have hstart : start.QueuesSound := ⟨hcapacity, Broker.sound_new base.fifo base.visits⟩
  have hsound : e.QueuesSound := run_keeps_steps (fun _ _ hev h => h.after hev) evs start hstart
  have hsteps : ∀ ev ∈ stepwise evs, ev.IsStep := fun _ => isStep_of_mem_stepwise
  have hend : start.run (stepwise evs) = e := start.run_stepwise evs
  have hfifo : e.broker.fifo = f := start.fifo_run evs
  refine ⟨fun id q hq => ?_, fun id => ?_, ?_, fun hdrop => ?_, ?_⟩
  · have hbounds := hsound.broker.bounds id q hq
    rw [hfifo] at hbounds
    refine ⟨hbounds.1, hbounds.2, by rw [Broker.waiting_eq hq, hfifo], ?_⟩
    rcases queue_run evs hq with hjoin | ⟨old, hold, -⟩
    · exact hjoin
    · simp [start, new, Broker.new] at hold
  · have hrun := waiting_run id (stepwise evs) hsteps hstart
    have hnothing : start.broker.waiting id = [] := by simp [start, new, Broker.new, Broker.waiting]
    rw [hend, hnothing, List.nil_append] at hrun
    exact hrun
  · rw [← hfifo]
    exact fate_publish hsound
  · have hrun := account_run (stepwise evs) hsteps
      (fun id hmem => hdrop id (mem_of_handle_mem_stepwise hmem)) hstart
    rw [hend] at hrun
    have hnone : start.broker.pending + start.broker.dropped = 0 := rfl
    simp only [addressed, received]
    omega
  · have hrun := delivered_run evs start
    have hnone : (start.broker.delivered : Int) = 0 := rfl
    rw [hnone, Int.zero_add] at hrun
    exact hrun

/-- A queue for two messages gets both copies of the first message, none of the second while publishers
wait, and those of the third in the place of what is left of the first. -/
theorem messages_conserved_of_overflow :
    let publish (payload : Bytes) : Event := .execute (.onServer (.publish [97] payload)) 0
    let evs : List Event := [
      .execute (.onServer (.configSet "pubsub-queue-capacity" "2")) 0, .join,
      .handle 1 (.subscribe [[97]]), .handle 1 (.psubscribe [[42]]), publish [49], publish [50],
      .execute (.onServer (.configSet "pubsub-overflow" "drop-oldest")) 0,
      .handle 1 (.receive none), publish [51]]
    let start := new .default .standard
    let e := start.run evs
    0 < Config.default.queueCapacity ∧
    start.received evs = [⟨1, [97], none, [49]⟩] ∧
    e.broker.waiting 1 = [⟨[97], none, [51]⟩, ⟨[97], some [42], [51]⟩] ∧
    e.broker.dropped = 3 ∧
    (start.addressed evs).length =
      (start.received evs).length + e.broker.pending + e.broker.dropped ∧
    (e.broker.delivered : Int) = ((start.transcript evs).map replied).sum ∧
    e.broker.delivered = 4 := by
  intro publish evs
  have hpos : 0 < Config.default.queueCapacity := by decide
  have hstay : ∀ id, .handle id .drop ∉ evs := by
    intro id hmem
    simp [evs, publish] at hmem
  have hconserved := messages_conserved .default .standard evs hpos
  exact ⟨hpos, by decide +kernel, by decide +kernel, by decide +kernel,
    hconserved.2.2.2.1 hstay, hconserved.2.2.2.2, by decide +kernel⟩

end Engine
end KeyStore
