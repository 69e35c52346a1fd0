import KeyStore.Config

/-! Bounded queues of messages, the oldest first. A library provides them, so they are given by what
can be done with them and by what the library promises. -/
namespace KeyStore

structure Message where
  channel : Bytes
  /-- The pattern that the channel matched, if it was not followed by its name. -/
  pattern : Option Bytes
  payload : Bytes
deriving DecidableEq, Repr

/-- What sending came to. A message that was not sent is handed back: the queue stayed full, or nobody
is left to receive it. -/
inductive Sending
  | sent
  | full (m : Message)
  | disconnected (m : Message)
deriving DecidableEq, Repr

/-- Bounded queues. The laws speak of a queue of which both ends are held and which nobody else uses
while an operation waits. -/
structure Fifo (Q : Type) where
  /-- An empty queue with a capacity. -/
  bounded : Nat → Q
  trySend : Q → Message → Sending × Q
  /-- Waits for room, a number of milliseconds at most. -/
  sendTimeout : Q → Message → Nat → Sending × Q
  tryRecv : Q → Option Message × Q
  /-- Waits for a message, a number of milliseconds at most. -/
  recvTimeout : Q → Nat → Option Message × Q
  len : Q → Nat
  -- what the laws are about
  capacity : Q → Nat
  messages : Q → List Message
  capacity_bounded : ∀ n, capacity (bounded n) = n
  messages_bounded : ∀ n, messages (bounded n) = []
  len_eq : ∀ q, len q = (messages q).length
  capacity_trySend : ∀ q m, capacity (trySend q m).2 = capacity q
  trySend_room : ∀ q m, (messages q).length < capacity q →
    (trySend q m).1 = .sent ∧ messages (trySend q m).2 = messages q ++ [m]
  trySend_full : ∀ q m, capacity q ≤ (messages q).length →
    (trySend q m).1 = .full m ∧ messages (trySend q m).2 = messages q
  capacity_sendTimeout : ∀ q m wait, capacity (sendTimeout q m wait).2 = capacity q
  sendTimeout_room : ∀ q m wait, (messages q).length < capacity q →
    (sendTimeout q m wait).1 = .sent ∧ messages (sendTimeout q m wait).2 = messages q ++ [m]
  sendTimeout_full : ∀ q m wait, capacity q ≤ (messages q).length →
    (sendTimeout q m wait).1 = .full m ∧ messages (sendTimeout q m wait).2 = messages q
  capacity_tryRecv : ∀ q, capacity (tryRecv q).2 = capacity q
  tryRecv_head : ∀ q, (tryRecv q).1 = (messages q).head? ∧ messages (tryRecv q).2 = (messages q).tail
  capacity_recvTimeout : ∀ q wait, capacity (recvTimeout q wait).2 = capacity q
  recvTimeout_head : ∀ q wait,
    (recvTimeout q wait).1 = (messages q).head? ∧ messages (recvTimeout q wait).2 = (messages q).tail

/-- What became of a message that was offered and of the queue it was offered to. -/
structure Offered (Q : Type) where
  queue : Q
  arrived : Bool
  /-- How many messages were lost, the offered one included. -/
  lost : Nat

namespace Fifo
variable {Q : Type}

theorem messages_of_full (f : Fifo Q) {q q' : Q} {m m' : Message} (h : f.trySend q m = (.full m', q')) :
    f.messages q' = f.messages q := by
  rcases Nat.lt_or_ge (f.messages q).length (f.capacity q) with hroom | hfull
  · have hsent := (f.trySend_room q m hroom).1
    rw [h] at hsent
    cases hsent
  · have hsame := (f.trySend_full q m hfull).2
    rw [h] at hsame
    exact hsame

theorem length_of_tryRecv (f : Fifo Q) {q q' : Q} {m : Message} (h : f.tryRecv q = (some m, q')) :
    (f.messages q').length < (f.messages q).length := by
  obtain ⟨hhead, htail⟩ := f.tryRecv_head q
  rw [h] at hhead htail
  rw [htail]
  cases hmessages : f.messages q with
  | nil => simp [hmessages] at hhead
  | cons oldest rest => simp

/-- Sends a message, and takes the oldest ones out for as long as there is no room. -/
def sendEvicting (f : Fifo Q) (q : Q) (m : Message) (lost : Nat) : Offered Q :=
  match h : f.trySend q m with
  | (.sent, q') => ⟨q', true, lost⟩
  | (.disconnected _, q') => ⟨q', false, lost⟩
  | (.full m', q') =>
    match h' : f.tryRecv q' with
    | (some _, q'') =>
      have : (f.messages q'').length < (f.messages q).length :=
        f.messages_of_full h ▸ f.length_of_tryRecv h'
      f.sendEvicting q'' m' (lost + 1)
    -- full and empty, so a queue without any room: the program tries on and on, but no setting asks for one
    | (none, q'') => ⟨q'', false, lost⟩
termination_by (f.messages q).length

def offer (f : Fifo Q) (policy : OverflowPolicy) (timeout : Nat) (q : Q) (m : Message) : Offered Q :=
  match policy with
  | .block =>
    match f.sendTimeout q m timeout with
    | (.sent, q) => ⟨q, true, 0⟩
    | (.full _, q) => ⟨q, false, 1⟩
    | (.disconnected _, q) => ⟨q, false, 0⟩
  | .dropOldest => f.sendEvicting q m 0

/-- Takes the oldest message, at once or within a number of milliseconds. -/
def recv (f : Fifo Q) (q : Q) (wait : Option Nat) : Option Message × Q :=
  match wait with
  | none => f.tryRecv q
  | some wait => f.recvTimeout q wait

end Fifo

structure Queue where
  capacity : Nat
  messages : List Message
deriving DecidableEq, Repr

namespace Queue

def send (q : Queue) (m : Message) : Sending × Queue :=
  if q.messages.length < q.capacity then (.sent, { q with messages := q.messages ++ [m] })
  else (.full m, q)

def take (q : Queue) : Option Message × Queue :=
  (q.messages.head?, { q with messages := q.messages.tail })

theorem send_room (q : Queue) (m : Message) (h : q.messages.length < q.capacity) :
    (q.send m).1 = .sent ∧ (q.send m).2.messages = q.messages ++ [m] := by
  simp [send, h]

theorem send_full (q : Queue) (m : Message) (h : q.capacity ≤ q.messages.length) :
    (q.send m).1 = .full m ∧ (q.send m).2.messages = q.messages := by
  simp [send, Nat.not_lt.mpr h]

theorem capacity_send (q : Queue) (m : Message) : (q.send m).2.capacity = q.capacity := by
  rw [send]
  split <;> rfl

/-- Lists keep what the library promises. Nobody makes room while a sender waits, so waiting is in vain. -/
def fifo : Fifo Queue where
  bounded n := ⟨n, []⟩
  trySend := send
  sendTimeout q m _ := q.send m
  tryRecv := take
  recvTimeout q _ := q.take
  len q := q.messages.length
  capacity := capacity
  messages := messages
  capacity_bounded _ := rfl
  messages_bounded _ := rfl
  len_eq _ := rfl
  capacity_trySend := capacity_send
  trySend_room := send_room
  trySend_full := send_full
  capacity_sendTimeout q m _ := q.capacity_send m
  sendTimeout_room q m _ := q.send_room m
  sendTimeout_full q m _ := q.send_full m
  capacity_tryRecv _ := rfl
  tryRecv_head _ := ⟨rfl, rfl⟩
  capacity_recvTimeout _ _ := rfl
  recvTimeout_head _ _ := ⟨rfl, rfl⟩

end Queue
end KeyStore
