import KeyStore.Proofs.Run

/-! Deliveries. A copy goes into the queue of its addressee; the links, the other queues and the
numbers of the subscribers are as they were. -/
namespace KeyStore
open Std
namespace Broker

variable {Q : Type}

/-- The same subscribers with the same links; only what is in the queues and the counters may differ. -/
structure SameLinks (b b' : Broker Q) : Prop where
  fifo : b'.fifo = b.fifo
  channels : b'.channels = b.channels
  patterns : b'.patterns = b.patterns
  nextId : b'.nextId = b.nextId
  queues : ∀ id, id ∈ b'.queues ↔ id ∈ b.queues

namespace SameLinks

theorem refl (b : Broker Q) : SameLinks b b := ⟨rfl, rfl, rfl, rfl, fun _ => .rfl⟩

theorem trans {a b c : Broker Q} (h : SameLinks a b) (h' : SameLinks b c) : SameLinks a c :=
  ⟨h'.fifo.trans h.fifo, h'.channels.trans h.channels, h'.patterns.trans h.patterns,
    h'.nextId.trans h.nextId, fun id => (h'.queues id).trans (h.queues id)⟩

end SameLinks

/-- One entry is replaced, if it is there. -/
theorem getElem?_replaced {m m' : ExtTreeMap SubscriberId Q} {id : SubscriberId} {f : Q → Q}
    (hnone : m[id]? = none → m' = m) (hsome : ∀ q, m[id]? = some q → m' = m.insert id (f q)) (j : SubscriberId) :
    m'[j]? = if id = j then m[j]?.map f else m[j]? := by
  cases hq : m[id]? with
  | none =>
    rw [hnone hq]
    split
    · rename_i hid
      simp [← hid, hq]
    · rfl
  | some q =>
    rw [hsome q hq, ExtTreeMap.getElem?_insert]
    by_cases hid : id = j
    · simp [← hid, hq]
    · simp [hid]

theorem getElem?_queues_deliver (b : Broker Q) (policy : OverflowPolicy) (timeout : Nat) (c : Copy)
    (id : SubscriberId) :
    (b.deliver policy timeout c).2.queues[id]? =
      if c.addressee = id then
        b.queues[id]?.map fun q => (b.fifo.offer policy timeout q c.message).queue
      else b.queues[id]? :=
  getElem?_replaced (fun h => by simp only [deliver, h]) (fun q h => by simp only [deliver, h]) id

theorem sameLinks_deliver (b : Broker Q) (policy : OverflowPolicy) (timeout : Nat) (c : Copy) :
    SameLinks b (b.deliver policy timeout c).2 where
  fifo := by rw [deliver]; split <;> rfl
  channels := by rw [deliver]; split <;> rfl
  patterns := by rw [deliver]; split <;> rfl
  nextId := by rw [deliver]; split <;> rfl
  queues id := by
    rw [ExtTreeMap.mem_iff_isSome_getElem?, getElem?_queues_deliver]
    split <;> simp

theorem deliverAll_append (policy : OverflowPolicy) (timeout : Nat) (cs cs' : List Copy) (b : Broker Q) :
    (deliverAll policy timeout (cs ++ cs') b).2 =
      (deliverAll policy timeout cs' (deliverAll policy timeout cs b).2).2 := by
  induction cs generalizing b with
  | nil => rfl
  | cons c cs ih => exact ih (b.deliver policy timeout c).2

theorem sameLinks_deliverAll (policy : OverflowPolicy) (timeout : Nat) (cs : List Copy) (b : Broker Q) :
    SameLinks b (deliverAll policy timeout cs b).2 := by
  induction cs generalizing b with
  | nil => exact .refl b
  | cons c cs ih => exact (b.sameLinks_deliver policy timeout c).trans (ih _)

theorem sameLinks_publish (b : Broker Q) (policy : OverflowPolicy) (timeout : Nat)
    (channel payload : Bytes) : SameLinks b (b.publish policy timeout channel payload).2 := by
  have h := sameLinks_deliverAll policy timeout (b.copies channel payload)
    { b with published := b.published + 1 }
  exact ⟨h.fifo, h.channels, h.patterns, h.nextId, h.queues⟩

theorem getElem?_queues_receive (b : Broker Q) (id : SubscriberId) (wait : Option Nat) (j : SubscriberId) :
    (b.receive id wait).2.queues[j]? =
      if id = j then b.queues[j]?.map fun q => (b.fifo.recv q wait).2 else b.queues[j]? :=
  getElem?_replaced (fun h => by simp only [receive, h]) (fun q h => by simp only [receive, h]) j

theorem sameLinks_receive (b : Broker Q) (id : SubscriberId) (wait : Option Nat) :
    SameLinks b (b.receive id wait).2 where
  fifo := by rw [receive]; split <;> rfl
  channels := by rw [receive]; split <;> rfl
  patterns := by rw [receive]; split <;> rfl
  nextId := by rw [receive]; split <;> rfl
  queues j := by
    rw [ExtTreeMap.mem_iff_isSome_getElem?, getElem?_queues_receive]
    split <;> simp

end Broker

namespace Engine

/-- Of the commands only `PUBLISH` reaches the broker. -/
theorem broker_execute (e : Engine Q) (c : Command) (nanos : Nat) :
    (e.execute c nanos).2.broker =
      match c with
      | .onServer (.publish channel payload) =>
        (e.broker.publish e.config.overflow e.config.publishTimeout channel payload).2
      | _ => e.broker := by
  cases c with
  | onKeys c => rfl
  | onServer c =>
    cases c with
    | ping message => cases message <;> rfl
    | configSet parameter value =>
      simp only [execute, perform, serve]
      split <;> rfl
    | _ => rfl

theorem sameLinks_execute (e : Engine Q) (c : Command) (nanos : Nat) :
    e.broker.SameLinks (e.execute c nanos).2.broker := by
  rw [broker_execute]
  split
  · exact e.broker.sameLinks_publish _ _ _ _
  · exact .refl _

end Engine
end KeyStore
