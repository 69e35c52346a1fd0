import KeyStore.Proofs.Deliveries
import KeyStore.Proofs.Maps

/-! Queues. Whatever the library keeps its queues in, an offered message waits behind those before it or
one message is lost, and each copy that is addressed waits, was received or was lost. -/
namespace KeyStore
open Std

namespace Fifo
variable {Q : Type} (f : Fifo Q) {q : Q} {m : Message}

/-- The message has arrived behind those that are kept. -/
structure Arrives (kept : List Message) (m : Message) (lost : Nat) (r : Offered Q) : Prop where
  arrived : r.arrived = true
  lost : r.lost = lost
  messages : f.messages r.queue = kept ++ [m]

/-- The message is lost, and the queue keeps what it has. -/
structure Bounces (q : Q) (r : Offered Q) : Prop where
  arrived : r.arrived = false
  lost : r.lost = 1
  messages : f.messages r.queue = f.messages q

theorem sendEvicting_of_sent {q' : Q} (h : f.trySend q m = (.sent, q')) (lost : Nat) :
    f.sendEvicting q m lost = ⟨q', true, lost⟩ := by
  rw [sendEvicting]
  split
  all_goals
    rename_i hsend
    cases h.symm.trans hsend
  rfl

theorem sendEvicting_of_full {q' q'' : Q} {m' oldest : Message} (h : f.trySend q m = (.full m', q'))
    (h' : f.tryRecv q' = (some oldest, q'')) (lost : Nat) :
    f.sendEvicting q m lost = f.sendEvicting q'' m' (lost + 1) := by
  rw [sendEvicting]
  split
  all_goals
    rename_i hsend
    cases h.symm.trans hsend
  split
  all_goals
    rename_i hrecv
    cases h'.symm.trans hrecv
  rfl

theorem sendEvicting_room (h : (f.messages q).length < f.capacity q) (lost : Nat) :
    f.Arrives (f.messages q) m lost (f.sendEvicting q m lost) := by
  obtain ⟨hsent, hmessages⟩ := f.trySend_room q m h
  rw [f.sendEvicting_of_sent (Prod.ext hsent rfl)]
  exact ⟨rfl, rfl, hmessages⟩

theorem exists_tryRecv (hpos : 0 < (f.messages q).length) :
    ∃ oldest q', f.tryRecv q = (some oldest, q') ∧ f.messages q' = (f.messages q).tail := by
  obtain ⟨hhead, htail⟩ := f.tryRecv_head q
  rw [List.head?_eq_some_head (List.ne_nil_of_length_pos hpos)] at hhead
  exact ⟨_, _, Prod.ext hhead rfl, htail⟩

/-- In a full queue the oldest message makes room, and there is no need to evict another one. -/
theorem sendEvicting_full (hroom : 0 < f.capacity q) (h : (f.messages q).length = f.capacity q)
    (lost : Nat) : f.Arrives (f.messages q).tail m (lost + 1) (f.sendEvicting q m lost) := by
  obtain ⟨hfull, hsame⟩ := f.trySend_full q m (Nat.le_of_eq h.symm)
  obtain ⟨oldest, q', hrecv, htail⟩ := f.exists_tryRecv (q := (f.trySend q m).2) (by rw [hsame, h]; exact hroom)
  have hcapacity : f.capacity q' = f.capacity q := by
    have hevicted := f.capacity_tryRecv (f.trySend q m).2
    rw [hrecv] at hevicted
    exact hevicted.trans (f.capacity_trySend q m)
  rw [hsame] at htail
  rw [f.sendEvicting_of_full (Prod.ext hfull rfl) hrecv, ← htail]
  -- the oldest message is out, so the next attempt succeeds
  apply f.sendEvicting_room
  rw [htail, hcapacity, List.length_tail]
  omega

theorem capacity_sendEvicting (q : Q) (m : Message) (lost : Nat) :
    f.capacity (f.sendEvicting q m lost).queue = f.capacity q := by
  have hsent : ∀ {q q' : Q} {m : Message} {r : Sending}, f.trySend q m = (r, q') →
      f.capacity q' = f.capacity q := fun {q _ m _} h => by simpa [h] using f.capacity_trySend q m
  have hreceived : ∀ {q q' : Q} {r : Option Message}, f.tryRecv q = (r, q') →
      f.capacity q' = f.capacity q := fun {q _ _} h => by simpa [h] using f.capacity_tryRecv q
  fun_induction sendEvicting f q m lost with
  | case1 q m lost q' hsend => exact hsent hsend
  | case2 q m lost m' q' hsend => exact hsent hsend
  | case3 q m lost m' q' hsend oldest q'' hrecv hlt ih =>
    exact ih.trans ((hreceived hrecv).trans (hsent hsend))
  | case4 q m lost m' q' hsend q'' hrecv => exact (hreceived hrecv).trans (hsent hsend)

theorem offer_room (h : (f.messages q).length < f.capacity q) (policy : OverflowPolicy) (timeout : Nat) :
    f.Arrives (f.messages q) m 0 (f.offer policy timeout q m) := by
  cases policy with
  | block =>
    obtain ⟨hsent, hmessages⟩ := f.sendTimeout_room q m timeout h
    rw [offer, show f.sendTimeout q m timeout = (.sent, _) from Prod.ext hsent rfl]
    exact ⟨rfl, rfl, hmessages⟩
  | dropOldest => exact f.sendEvicting_room h 0

theorem offer_block_full (h : (f.messages q).length = f.capacity q) (timeout : Nat) :
    f.Bounces q (f.offer .block timeout q m) := by
  obtain ⟨hfull, hsame⟩ := f.sendTimeout_full q m timeout (Nat.le_of_eq h.symm)
  rw [offer, show f.sendTimeout q m timeout = (.full m, _) from Prod.ext hfull rfl]
  exact ⟨rfl, rfl, hsame⟩

theorem offer_dropOldest_full (hroom : 0 < f.capacity q) (h : (f.messages q).length = f.capacity q)
    (timeout : Nat) : f.Arrives (f.messages q).tail m 1 (f.offer .dropOldest timeout q m) :=
  f.sendEvicting_full hroom h 0

theorem capacity_offer (policy : OverflowPolicy) (timeout : Nat) (q : Q) (m : Message) :
    f.capacity (f.offer policy timeout q m).queue = f.capacity q := by
  cases policy with
  | block =>
    have hcapacity := f.capacity_sendTimeout q m timeout
    rw [offer]
    split
    all_goals
      rename_i hsend
      rw [hsend] at hcapacity
      exact hcapacity
  | dropOldest => exact f.capacity_sendEvicting q m 0

/-- The queue has room for one message at least and never more messages than it has room for. -/
def InBounds (q : Q) : Prop := 0 < f.capacity q ∧ (f.messages q).length ≤ f.capacity q

variable {f}

/-- Where there is room a message arrives; else it is lost under `block`, and the oldest one is under
`dropOldest`. -/
theorem InBounds.offer_cases (h : f.InBounds q) (policy : OverflowPolicy) (timeout : Nat) (m : Message) :
    (f.messages q).length ≠ f.capacity q ∧ f.Arrives (f.messages q) m 0 (f.offer policy timeout q m) ∨
      (f.messages q).length = f.capacity q ∧
        (policy = .block ∧ f.Bounces q (f.offer policy timeout q m) ∨
          policy = .dropOldest ∧ f.Arrives (f.messages q).tail m 1 (f.offer policy timeout q m)) := by
  rcases Nat.lt_or_eq_of_le h.2 with hlt | heq
  · exact .inl ⟨Nat.ne_of_lt hlt, f.offer_room hlt policy timeout⟩
  · refine .inr ⟨heq, ?_⟩
    cases policy with
    | block => exact .inl ⟨rfl, f.offer_block_full heq timeout⟩
    | dropOldest => exact .inr ⟨rfl, f.offer_dropOldest_full h.1 heq timeout⟩

theorem InBounds.offer (h : f.InBounds q) (policy : OverflowPolicy) (timeout : Nat) (m : Message) :
    f.InBounds (f.offer policy timeout q m).queue := by
  have ⟨hpos, hle⟩ := h
  rw [InBounds, f.capacity_offer]
  refine ⟨hpos, ?_⟩
  rcases h.offer_cases policy timeout m with ⟨hne, hin⟩ | ⟨-, ⟨-, hout⟩ | ⟨-, hin⟩⟩
  · simp only [hin.messages, List.length_append, List.length_singleton]
    omega
  · rw [hout.messages]
    exact hle
  · simp only [hin.messages, List.length_append, List.length_tail, List.length_singleton]
    omega

/-- Of the waiting messages and the one that is offered some may be lost; the others keep their order. -/
theorem InBounds.offer_sublist (h : f.InBounds q) (policy : OverflowPolicy) (timeout : Nat) (m : Message) :
    (f.messages (f.offer policy timeout q m).queue).Sublist (f.messages q ++ [m]) := by
  rcases h.offer_cases policy timeout m with ⟨-, hin⟩ | ⟨-, ⟨-, hout⟩ | ⟨-, hin⟩⟩
  · rw [hin.messages]
  · rw [hout.messages]
    exact List.sublist_append_left _ _
  · rw [hin.messages]
    exact (List.tail_sublist _).append_right [m]

theorem InBounds.length_offer (h : f.InBounds q) (policy : OverflowPolicy) (timeout : Nat) (m : Message) :
    (f.messages (f.offer policy timeout q m).queue).length + (f.offer policy timeout q m).lost =
      (f.messages q).length + 1 := by
  have hpos := h.1
  rcases h.offer_cases policy timeout m with ⟨-, hin⟩ | ⟨heq, ⟨-, hout⟩ | ⟨-, hin⟩⟩
  · simp [hin.lost, hin.messages]
  · simp [hout.lost, hout.messages]
  · simp [hin.lost, hin.messages]
    omega

variable (f)

theorem recv_head (q : Q) (wait : Option Nat) :
    (f.recv q wait).1 = (f.messages q).head? ∧ f.messages (f.recv q wait).2 = (f.messages q).tail := by
  cases wait with
  | none => exact f.tryRecv_head q
  | some wait => exact f.recvTimeout_head q wait

theorem capacity_recv (q : Q) (wait : Option Nat) : f.capacity (f.recv q wait).2 = f.capacity q := by
  cases wait with
  | none => exact f.capacity_tryRecv q
  | some wait => exact f.capacity_recvTimeout q wait

theorem InBounds.recv {f : Fifo Q} {q : Q} (h : f.InBounds q) (wait : Option Nat) :
    f.InBounds (f.recv q wait).2 := by
  obtain ⟨hpos, hle⟩ := h
  rw [InBounds, f.capacity_recv, (f.recv_head q wait).2, List.length_tail]
  exact ⟨hpos, by omega⟩

end Fifo

def messagesTo (id : SubscriberId) (cs : List Copy) : List Message :=
  (cs.filter (·.addressee = id)).map (·.message)

theorem messagesTo_append (id : SubscriberId) (cs cs' : List Copy) :
    messagesTo id (cs ++ cs') = messagesTo id cs ++ messagesTo id cs' := by
  simp [messagesTo]

namespace Broker
variable {Q : Type}

def InBounds (b : Broker Q) : Prop :=
  ∀ (id : SubscriberId) (q : Q), b.queues[id]? = some q → b.fifo.InBounds q

def pending (b : Broker Q) : Nat := (b.queues.toList.map fun p => b.fifo.len p.2).sum

theorem waiting_eq {b : Broker Q} {id : SubscriberId} {q : Q} (h : b.queues[id]? = some q) :
    b.waiting id = b.fifo.messages q := by simp [waiting, h]

theorem waiting_eq_nil {b : Broker Q} {id : SubscriberId} (h : b.queues[id]? = none) :
    b.waiting id = [] := by simp [waiting, h]

theorem pending_change {b b' : Broker Q} {id : SubscriberId} {q q' : Q} (hfifo : b'.fifo = b.fifo)
    (h : b.queues[id]? = some q) (h' : b'.queues[id]? = some q')
    (hother : ∀ j, id ≠ j → b'.queues[j]? = b.queues[j]?) :
    b'.pending + (b.fifo.messages q).length = b.pending + (b.fifo.messages q').length := by
  have hsum := sumOf_change b.fifo.len hother
  rw [h, h'] at hsum
  rw [pending, pending, hfifo, ← b.fifo.len_eq, ← b.fifo.len_eq]
  exact hsum

theorem pending_subscriber (b : Broker Q) (capacity : Nat) (hfresh : b.nextId ∉ b.queues) :
    (b.subscriber capacity).2.pending = b.pending := by
  have hother : ∀ j, b.nextId ≠ j → (b.subscriber capacity).2.queues[j]? = b.queues[j]? := by
    intro j hj
    simp [subscriber, ExtTreeMap.getElem?_insert, hj]
  have hsum := sumOf_change b.fifo.len hother
  have hempty : b.fifo.len (b.fifo.bounded capacity) = 0 := by
    simp [b.fifo.len_eq, b.fifo.messages_bounded]
  rw [ExtTreeMap.getElem?_eq_none hfresh, subscriber, ExtTreeMap.getElem?_insert_self,
    Option.elim_some, hempty] at hsum
  exact hsum

theorem InBounds.deliver {b : Broker Q} (h : b.InBounds) (policy : OverflowPolicy) (timeout : Nat) (c : Copy) :
    (b.deliver policy timeout c).2.InBounds := by
  intro id q' hq'
  rw [(b.sameLinks_deliver policy timeout c).fifo]
  rw [getElem?_queues_deliver] at hq'
  split at hq'
  · obtain ⟨q, hq, rfl⟩ := Option.map_eq_some_iff.mp hq'
    exact (h id q hq).offer policy timeout c.message
  · exact h id q' hq'

theorem waiting_deliver_sublist {b : Broker Q} (h : b.InBounds) (policy : OverflowPolicy) (timeout : Nat)
    (c : Copy) (id : SubscriberId) :
    ((b.deliver policy timeout c).2.waiting id).Sublist (b.waiting id ++ messagesTo id [c]) := by
  rw [waiting, (b.sameLinks_deliver policy timeout c).fifo, getElem?_queues_deliver]
  by_cases hid : c.addressee = id
  · cases hq : b.queues[id]? with
    | none => simp [hid]
    | some q =>
      simpa [hid, waiting_eq hq, messagesTo] using (h id q hq).offer_sublist policy timeout c.message
  · simp [hid, messagesTo, waiting]

theorem queue_deliver {b : Broker Q} {c : Copy} {q : Q} (h : b.queues[c.addressee]? = some q)
    (policy : OverflowPolicy) (timeout : Nat) :
    (b.deliver policy timeout c).2.queues[c.addressee]? =
      some (b.fifo.offer policy timeout q c.message).queue := by
  rw [getElem?_queues_deliver, if_pos rfl, h, Option.map_some]

theorem dropped_deliver {b : Broker Q} {c : Copy} {q : Q} (h : b.queues[c.addressee]? = some q)
    (policy : OverflowPolicy) (timeout : Nat) :
    (b.deliver policy timeout c).2.dropped =
      b.dropped + (b.fifo.offer policy timeout q c.message).lost := by
  simp only [deliver, h]

/-- A copy whose addressee is there is waiting afterwards, or one message more is lost. -/
theorem pending_deliver {b : Broker Q} (h : b.InBounds) (policy : OverflowPolicy) (timeout : Nat) (c : Copy)
    (hc : c.addressee ∈ b.queues) :
    (b.deliver policy timeout c).2.pending + (b.deliver policy timeout c).2.dropped =
      b.pending + b.dropped + 1 := by
  rw [ExtTreeMap.mem_iff_isSome_getElem?] at hc
  obtain ⟨q, hq⟩ := Option.isSome_iff_exists.mp hc
  have hother : ∀ j, c.addressee ≠ j → (b.deliver policy timeout c).2.queues[j]? = b.queues[j]? := by
    intro j hj
    rw [getElem?_queues_deliver, if_neg hj]
  have hfifo := (b.sameLinks_deliver policy timeout c).fifo
  have hdropped := dropped_deliver hq policy timeout
  have hpending := pending_change hfifo hq (queue_deliver hq policy timeout) hother
  have hlength := (h _ q hq).length_offer policy timeout c.message
  omega

theorem delivered_deliver (b : Broker Q) (policy : OverflowPolicy) (timeout : Nat) (c : Copy) :
    (b.deliver policy timeout c).2.delivered = b.delivered := by
  rw [deliver]
  split <;> rfl

theorem InBounds.deliverAll {b : Broker Q} (h : b.InBounds) (policy : OverflowPolicy) (timeout : Nat)
    (cs : List Copy) : (Broker.deliverAll policy timeout cs b).2.InBounds := by
  induction cs generalizing b with
  | nil => exact h
  | cons c cs ih => exact ih (h.deliver policy timeout c)

theorem waiting_deliverAll_sublist (policy : OverflowPolicy) (timeout : Nat) (cs : List Copy)
    {b : Broker Q} (h : b.InBounds) (id : SubscriberId) :
    ((deliverAll policy timeout cs b).2.waiting id).Sublist (b.waiting id ++ messagesTo id cs) := by
  induction cs generalizing b with
  | nil => simp [deliverAll, messagesTo]
  | cons c cs ih =>
    have hfirst := waiting_deliver_sublist h policy timeout c id
    have hrest := ih (h.deliver policy timeout c)
    have hsplit : messagesTo id (c :: cs) = messagesTo id [c] ++ messagesTo id cs :=
      messagesTo_append id [c] cs
    rw [hsplit, ← List.append_assoc]
    exact hrest.trans (hfirst.append_right _)

theorem pending_deliverAll (policy : OverflowPolicy) (timeout : Nat) (cs : List Copy) {b : Broker Q}
    (h : b.InBounds) (hcs : ∀ c ∈ cs, c.addressee ∈ b.queues) :
    (deliverAll policy timeout cs b).2.pending + (deliverAll policy timeout cs b).2.dropped =
      b.pending + b.dropped + cs.length := by
  induction cs generalizing b with
  | nil => rfl
  | cons c cs ih =>
    obtain ⟨hc, hrest⟩ := List.forall_mem_cons.mp hcs
    have hfirst := pending_deliver h policy timeout c hc
    have hsame := (b.sameLinks_deliver policy timeout c).queues
    have hlater := ih (h.deliver policy timeout c) fun c' hc' => (hsame c'.addressee).mpr (hrest c' hc')
    rw [deliverAll, List.length_cons]
    dsimp only
    omega

theorem delivered_deliverAll (policy : OverflowPolicy) (timeout : Nat) (cs : List Copy) (b : Broker Q) :
    (deliverAll policy timeout cs b).2.delivered = b.delivered := by
  induction cs generalizing b with
  | nil => rfl
  | cons c cs ih =>
    exact (ih (b.deliver policy timeout c).2).trans (b.delivered_deliver policy timeout c)

theorem queue_deliverAll_of_ne (policy : OverflowPolicy) (timeout : Nat) {cs : List Copy} {id : SubscriberId}
    (hcs : ∀ c ∈ cs, c.addressee ≠ id) (b : Broker Q) :
    (deliverAll policy timeout cs b).2.queues[id]? = b.queues[id]? := by
  induction cs generalizing b with
  | nil => rfl
  | cons c cs ih =>
    obtain ⟨hc, hrest⟩ := List.forall_mem_cons.mp hcs
    have hfirst : (b.deliver policy timeout c).2.queues[id]? = b.queues[id]? := by
      rw [getElem?_queues_deliver, if_neg hc]
    exact (ih hrest _).trans hfirst

/-- Who has room for all copies that are addressed to it gets them in order. -/
theorem waiting_deliverAll_of_room (policy : OverflowPolicy) (timeout : Nat) (cs : List Copy) {b : Broker Q}
    {id : SubscriberId} {q : Q} (h : b.queues[id]? = some q)
    (hroom : (b.fifo.messages q).length + (messagesTo id cs).length ≤ b.fifo.capacity q) :
    (deliverAll policy timeout cs b).2.waiting id = b.waiting id ++ messagesTo id cs := by
  induction cs generalizing b q with
  | nil => simp [deliverAll, messagesTo]
  | cons c cs ih =>
    have hsplit : messagesTo id (c :: cs) = messagesTo id [c] ++ messagesTo id cs :=
      messagesTo_append id [c] cs
    have hfifo := (b.sameLinks_deliver policy timeout c).fifo
    rw [hsplit, List.length_append] at hroom
    change (deliverAll policy timeout cs (b.deliver policy timeout c).2).2.waiting id = _
    by_cases hid : c.addressee = id
    · have hone : messagesTo id [c] = [c.message] := by simp [messagesTo, hid]
      rw [hone, List.length_singleton] at hroom
      -- the first copy arrives, and leaves room for the others
      have hoffer := b.fifo.offer_room (q := q) (m := c.message) (by omega) policy timeout
      have hqueue := queue_deliver (hid ▸ h) policy timeout
      rw [hid] at hqueue
      rw [ih hqueue, waiting_eq hqueue, hfifo, hoffer.messages, waiting_eq h, hsplit, hone,
        List.append_assoc]
      rw [hfifo, b.fifo.capacity_offer, hoffer.messages, List.length_append, List.length_singleton]
      omega
    · have hnone : messagesTo id [c] = [] := by simp [messagesTo, hid]
      have hqueue : (b.deliver policy timeout c).2.queues[id]? = some q := by
        rw [getElem?_queues_deliver, if_neg hid, h]
      rw [hnone, List.length_nil, Nat.zero_add] at hroom
      rw [ih hqueue (hfifo.symm ▸ hroom), waiting_eq hqueue, hfifo, waiting_eq h, hsplit, hnone,
        List.nil_append]

theorem mem_queues_of_mem_copies {b : Broker Q} {channel payload : Bytes} {c : Copy}
    (h : c ∈ b.copies channel payload) : c.addressee ∈ b.queues := by
  have hcontains := (List.mem_filter.mp h).2
  exact ExtTreeMap.mem_iff_contains.mpr hcontains

/-- What becomes of a copy that is offered to the queue `q` of its addressee, which is `q'` afterwards.
Under `block` it is lost when the queue is full, and the queue keeps what it has. Otherwise it comes
last; under `dropOldest` the oldest message of a full queue makes room. -/
structure Fate (f : Fifo Q) (policy : OverflowPolicy) (c : Copy) (b b' : Broker Q) (q q' : Q)
    (arrived : Bool) : Prop where
  before : b.queues[c.addressee]? = some q
  after : b'.queues[c.addressee]? = some q'
  others : ∀ id, c.addressee ≠ id → b'.queues[id]? = b.queues[id]?
  capacity : f.capacity q' = f.capacity q
  dropped : b'.dropped = b.dropped + if (f.messages q).length = f.capacity q then 1 else 0
  blocked : policy = .block →
    (arrived = false ↔ (f.messages q).length = f.capacity q) ∧
      f.messages q' =
        if (f.messages q).length = f.capacity q then f.messages q else f.messages q ++ [c.message]
  evicted : policy = .dropOldest → arrived = true ∧
    f.messages q' =
      (if (f.messages q).length = f.capacity q then (f.messages q).tail else f.messages q) ++ [c.message]

theorem fate_deliver {b : Broker Q} {c : Copy} {q : Q} (h : b.queues[c.addressee]? = some q)
    (hq : b.fifo.InBounds q) (policy : OverflowPolicy) (timeout : Nat) :
    Fate b.fifo policy c b (b.deliver policy timeout c).2 q
      (b.fifo.offer policy timeout q c.message).queue (b.deliver policy timeout c).1 := by
  have harrived : (b.deliver policy timeout c).1 = (b.fifo.offer policy timeout q c.message).arrived := by
    simp only [deliver, h]
  have hothers : ∀ id, c.addressee ≠ id →
      (b.deliver policy timeout c).2.queues[id]? = b.queues[id]? :=
    fun id hid => by rw [getElem?_queues_deliver, if_neg hid]
  have hcapacity := b.fifo.capacity_offer policy timeout q c.message
  have hdropped := dropped_deliver h policy timeout
  have hqueue := queue_deliver h policy timeout
  rw [harrived]
  rcases hq.offer_cases policy timeout c.message with ⟨hne, hin⟩ | ⟨heq, ⟨rfl, hout⟩ | ⟨rfl, hin⟩⟩
  · exact ⟨h, hqueue, hothers, hcapacity, by rw [hdropped, hin.lost, if_neg hne],
      fun _ => by simp [hin.arrived, hin.messages, hne], fun _ => by simp [hin.arrived, hin.messages, hne]⟩
  · exact ⟨h, hqueue, hothers, hcapacity, by rw [hdropped, hout.lost, if_pos heq],
      fun _ => by simp [hout.arrived, hout.messages, heq], by simp⟩
  · exact ⟨h, hqueue, hothers, hcapacity, by rw [hdropped, hin.lost, if_pos heq],
      by simp, fun _ => by simp [hin.arrived, hin.messages, heq]⟩

theorem queue_of_drop {b : Broker Q} {id j : SubscriberId} {q : Q}
    (h : (b.drop id).queues[j]? = some q) : b.queues[j]? = some q := by
  rw [drop, ExtTreeMap.getElem?_erase] at h
  split at h
  · cases h
  · exact h

theorem waiting_drop_sublist (b : Broker Q) (id j : SubscriberId) :
    ((b.drop id).waiting j).Sublist (b.waiting j) := by
  cases hq : (b.drop id).queues[j]? with
  | none =>
    rw [waiting_eq_nil hq]
    exact List.nil_sublist _
  | some q =>
    have hsame : (b.drop id).waiting j = b.waiting j := by
      rw [waiting_eq hq, waiting_eq (queue_of_drop hq)]
      rfl
    simp [hsame]

/-- Each queue was there before, with the same capacity. -/
structure Inherits (b b' : Broker Q) : Prop where
  fifo : b'.fifo = b.fifo
  queue : ∀ (id : SubscriberId) (q : Q), b'.queues[id]? = some q →
    ∃ old, b.queues[id]? = some old ∧ b.fifo.capacity old = b.fifo.capacity q

namespace Inherits
variable {a b : Broker Q}

theorem refl (b : Broker Q) : Inherits b b := ⟨rfl, fun _ q hq => ⟨q, hq, rfl⟩⟩

theorem of_queues {b' : Broker Q} (h : Inherits a b) (hfifo : b'.fifo = b.fifo)
    (hqueues : b'.queues = b.queues) : Inherits a b' :=
  ⟨hfifo.trans h.fifo, fun id q hq => h.queue id q (hqueues ▸ hq)⟩

theorem deliver (h : Inherits a b) (policy : OverflowPolicy) (timeout : Nat) (c : Copy) :
    Inherits a (b.deliver policy timeout c).2 where
  fifo := (b.sameLinks_deliver policy timeout c).fifo.trans h.fifo
  queue id q hq := by
    rw [getElem?_queues_deliver] at hq
    split at hq
    · obtain ⟨old, hold, rfl⟩ := Option.map_eq_some_iff.mp hq
      rw [h.fifo, a.fifo.capacity_offer]
      exact h.queue id old hold
    · exact h.queue id q hq

theorem deliverAll (h : Inherits a b) (policy : OverflowPolicy) (timeout : Nat) (cs : List Copy) :
    Inherits a (Broker.deliverAll policy timeout cs b).2 := by
  induction cs generalizing b with
  | nil => exact h
  | cons c cs ih => exact ih (h.deliver policy timeout c)

theorem receive (h : Inherits a b) (id : SubscriberId) (wait : Option Nat) :
    Inherits a (b.receive id wait).2 where
  fifo := (b.sameLinks_receive id wait).fifo.trans h.fifo
  queue j q hq := by
    rw [getElem?_queues_receive] at hq
    split at hq
    · obtain ⟨old, hold, rfl⟩ := Option.map_eq_some_iff.mp hq
      rw [h.fifo, a.fifo.capacity_recv]
      exact h.queue j old hold
    · exact h.queue j q hq

theorem drop (h : Inherits a b) (id : SubscriberId) : Inherits a (b.drop id) :=
  ⟨h.fifo, fun j q hq => h.queue j q (queue_of_drop hq)⟩

end Inherits

theorem InBounds.receive {b : Broker Q} (h : b.InBounds) (id : SubscriberId) (wait : Option Nat) :
    (b.receive id wait).2.InBounds := by
  intro j q' hq'
  rw [(b.sameLinks_receive id wait).fifo]
  rw [getElem?_queues_receive] at hq'
  split at hq'
  · obtain ⟨q, hq, rfl⟩ := Option.map_eq_some_iff.mp hq'
    exact (h j q hq).recv wait
  · exact h j q' hq'

theorem waiting_receive (b : Broker Q) (id : SubscriberId) (wait : Option Nat) :
    (b.receive id wait).1.toList ++ (b.receive id wait).2.waiting id = b.waiting id := by
  rw [waiting, (b.sameLinks_receive id wait).fifo, getElem?_queues_receive, if_pos rfl, receive]
  cases hq : b.queues[id]? with
  | none => simp [waiting_eq_nil hq]
  | some q =>
    obtain ⟨hhead, htail⟩ := b.fifo.recv_head q wait
    rw [waiting_eq hq, Option.map_some, Option.map_some, Option.getD_some, htail]
    dsimp only
    rw [hhead]
    cases b.fifo.messages q <;> rfl

theorem waiting_receive_of_ne (b : Broker Q) {id j : SubscriberId} (h : id ≠ j) (wait : Option Nat) :
    (b.receive id wait).2.waiting j = b.waiting j := by
  rw [waiting, (b.sameLinks_receive id wait).fifo, getElem?_queues_receive, if_neg h, waiting]

theorem after_receive (b : Broker Q) (id : SubscriberId) (wait : Option Nat) :
    b.after id (.receive wait) = (b.receive id wait).2 := by
  rw [Broker.after, ExtTreeMap.contains_eq_isSome_getElem?, receive]
  cases b.queues[id]? <;> rfl

theorem pending_receive (b : Broker Q) (id : SubscriberId) (wait : Option Nat) :
    (b.receive id wait).1.toList.length + (b.receive id wait).2.pending = b.pending := by
  have hwaiting := congrArg List.length (b.waiting_receive id wait)
  rw [List.length_append] at hwaiting
  cases hq : b.queues[id]? with
  | none => simp [receive, hq]
  | some q =>
    have hqueue : (b.receive id wait).2.queues[id]? = some (b.fifo.recv q wait).2 := by
      rw [getElem?_queues_receive, if_pos rfl, hq, Option.map_some]
    have hother : ∀ j, id ≠ j → (b.receive id wait).2.queues[j]? = b.queues[j]? := by
      intro j hj
      rw [getElem?_queues_receive, if_neg hj]
    have hfifo := (b.sameLinks_receive id wait).fifo
    have hpending := pending_change hfifo hq hqueue hother
    rw [waiting_eq hq, waiting_eq hqueue, hfifo] at hwaiting
    omega

end Broker
end KeyStore
