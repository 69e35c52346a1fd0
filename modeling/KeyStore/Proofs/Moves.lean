import KeyStore.Proofs.Queues
import KeyStore.Proofs.Steps

/-! Moves. Whatever happens to an engine, the queues of its broker change in four ways only: a message
is published, a message is received, a subscriber joins, or one leaves. -/
namespace KeyStore
open Std

theorem messagesTo_map_mk (id : SubscriberId) (ms : List Message) :
    messagesTo id (ms.map (Copy.mk id)) = ms := by
  simp [messagesTo, List.filter_map, Function.comp_def]

theorem messagesTo_map_mk_of_ne {id j : SubscriberId} (h : j ≠ id) (ms : List Message) :
    messagesTo id (ms.map (Copy.mk j)) = [] := by
  simp [messagesTo, List.filter_map, Function.comp_def, h]

namespace Broker

variable {Q : Type}

/-- All queues are in bounds, and the next subscriber gets a queue of its own. -/
structure Sound (b : Broker Q) : Prop where
  bounds : b.InBounds
  fresh : ∀ id ∈ b.queues, id < b.nextId

theorem sound_new (fifo : Fifo Q) (visits : Visits) : (new fifo visits).Sound :=
  ⟨fun id q hq => by simp [new] at hq, fun id hid => by simp [new] at hid⟩

theorem Sound.of_sameLinks {b b' : Broker Q} (h : b.Sound) (hsame : SameLinks b b')
    (hbounds : b'.InBounds) : b'.Sound :=
  ⟨hbounds, fun id hid => hsame.nextId ▸ h.fresh id ((hsame.queues id).mp hid)⟩

theorem Sound.subscriber {b : Broker Q} (h : b.Sound) {capacity : Nat} (hcapacity : 0 < capacity) :
    (b.subscriber capacity).2.Sound where
  bounds id q hq := by
    rw [Broker.subscriber, ExtTreeMap.getElem?_insert] at hq
    split at hq
    · cases hq
      change b.fifo.InBounds (b.fifo.bounded capacity)
      rw [Fifo.InBounds, b.fifo.capacity_bounded, b.fifo.messages_bounded]
      exact ⟨hcapacity, Nat.zero_le _⟩
    · exact h.bounds id q hq
  fresh id hid := by
    change id < b.nextId + 1
    rcases ExtTreeMap.mem_insert.mp hid with heq | hold
    · rw [Std.compare_eq_iff_eq.mp heq]
      exact Nat.lt_succ_self _
    · exact Nat.lt_succ_of_lt (h.fresh id hold)

theorem Sound.drop {b : Broker Q} (h : b.Sound) (id : SubscriberId) : (b.drop id).Sound :=
  ⟨fun j q hq => h.bounds j q (queue_of_drop hq), fun j hj => h.fresh j (ExtTreeMap.mem_erase.mp hj).2⟩

/-- A move without a departure: the copies it addresses, the messages it hands out with their
subscribers, and the broker after it. -/
inductive Moves (config : Config) (b : Broker Q) : List Copy → List Copy → Broker Q → Prop
  | publish (channel payload : Bytes) :
    Moves config b (b.copies channel payload) []
      (b.publish config.overflow config.publishTimeout channel payload).2
  | receive (id : SubscriberId) (wait : Option Nat) :
    Moves config b [] ((b.receive id wait).1.toList.map (Copy.mk id)) (b.receive id wait).2
  | join : Moves config b [] [] (b.subscriber config.queueCapacity).2
  | still (b' : Broker Q) (fifo : b'.fifo = b.fifo) (queues : b'.queues = b.queues)
    (nextId : b'.nextId = b.nextId) (dropped : b'.dropped = b.dropped) : Moves config b [] [] b'

namespace Moves
variable {config : Config} {b b' : Broker Q} {addressed received : List Copy}

theorem sound (h : Moves config b addressed received b') (hcapacity : 0 < config.queueCapacity)
    (hb : b.Sound) : b'.Sound := by
  cases h with
  | publish channel payload =>
    have hbounds : InBounds { b with published := b.published + 1 } := hb.bounds
    exact hb.of_sameLinks (b.sameLinks_publish _ _ channel payload) (hbounds.deliverAll _ _ _)
  | receive id wait => exact hb.of_sameLinks (b.sameLinks_receive id wait) (hb.bounds.receive id wait)
  | join => exact hb.subscriber hcapacity
  | still _ hfifo hqueues hnext =>
    refine ⟨fun id q hq => ?_, fun id hid => ?_⟩
    · rw [hqueues] at hq
      rw [hfifo]
      exact hb.bounds id q hq
    · rw [hqueues] at hid
      rw [hnext]
      exact hb.fresh id hid

theorem waiting_sublist (h : Moves config b addressed received b') (hb : b.Sound) (id : SubscriberId) :
    (messagesTo id received ++ b'.waiting id).Sublist (b.waiting id ++ messagesTo id addressed) := by
  cases h with
  | publish channel payload =>
    have hbounds : InBounds { b with published := b.published + 1 } := hb.bounds
    exact waiting_deliverAll_sublist config.overflow config.publishTimeout (b.copies channel payload)
      hbounds id
  | receive j wait =>
    by_cases hid : j = id
    · subst hid
      rw [messagesTo_map_mk, b.waiting_receive]
      exact List.sublist_append_left _ _
    · rw [messagesTo_map_mk_of_ne hid, b.waiting_receive_of_ne hid]
      exact List.sublist_append_left _ _
  | join =>
    by_cases hid : b.nextId = id
    · simp [messagesTo, subscriber, waiting, hid, b.fifo.messages_bounded]
    · simp [messagesTo, subscriber, waiting, ExtTreeMap.getElem?_insert, hid]
  | still _ hfifo hqueues =>
    simp [messagesTo, waiting, hfifo, hqueues]

/-- What was addressed is received, pending or dropped. -/
theorem account (h : Moves config b addressed received b') (hb : b.Sound) :
    addressed.length + (b.pending + b.dropped) = received.length + (b'.pending + b'.dropped) := by
  cases h with
  | publish channel payload =>
    have hbounds : InBounds { b with published := b.published + 1 } := hb.bounds
    have hall : (b.publish config.overflow config.publishTimeout channel payload).2.pending +
        (b.publish config.overflow config.publishTimeout channel payload).2.dropped =
          b.pending + b.dropped + (b.copies channel payload).length :=
      pending_deliverAll config.overflow config.publishTimeout (b.copies channel payload) hbounds
        fun _ => mem_queues_of_mem_copies
    rw [hall, List.length_nil]
    omega
  | receive id wait =>
    have hpending := b.pending_receive id wait
    have hdropped : (b.receive id wait).2.dropped = b.dropped := by
      rw [Broker.receive]
      split <;> rfl
    rw [List.length_map, List.length_nil, hdropped]
    omega
  | join =>
    rw [b.pending_subscriber config.queueCapacity fun hid => Nat.lt_irrefl _ (hb.fresh _ hid)]
    rfl
  | still _ hfifo hqueues _ hdropped => rw [pending, pending, hfifo, hqueues, hdropped]

end Moves
end Broker

namespace Engine

def addressedAt (e : Engine Q) : Event → List Copy
  | .execute (.onServer (.publish channel payload)) _ => e.broker.copies channel payload
  | _ => []

def receivedAt (e : Engine Q) : Event → List Copy
  | .handle id (.receive wait) => (e.broker.receive id wait).1.toList.map (Copy.mk id)
  | _ => []

/-- Each step is a move of the broker, or someone leaves. -/
theorem moves_of_isStep (e : Engine Q) {ev : Event} (hstep : ev.IsStep) :
    (∃ id, ev = .handle id .drop ∧ (e.after ev).broker = e.broker.drop id) ∨
      Broker.Moves e.config e.broker (e.addressedAt ev) (e.receivedAt ev) (e.after ev).broker := by
  cases ev with
  | call words nanos => cases hstep
  | batch b nanos => cases hstep
  | advance millis => exact .inr (.still _ rfl rfl rfl rfl)
  | direct c => exact .inr (.still _ rfl rfl rfl rfl)
  | join => exact .inr .join
  | execute c nanos =>
    right
    rw [after, broker_execute]
    cases c with
    | onKeys c => exact .still _ rfl rfl rfl rfl
    | onServer c =>
      cases c with
      | publish channel payload => exact .publish channel payload
      | _ => exact .still _ rfl rfl rfl rfl
  | handle id c =>
    cases c with
    | receive wait =>
      right
      rw [after, e.broker.after_receive]
      exact .receive id wait
    | drop =>
      simp only [after, Broker.after]
      split
      · exact .inl ⟨id, rfl, rfl⟩
      · exact .inr (.still _ rfl rfl rfl rfl)
    | _ =>
      right
      simp only [after, Broker.after]
      split <;> exact .still _ rfl rfl rfl rfl

end Engine
end KeyStore
