import KeyStore.Broker.Fifo
import KeyStore.Broker.Links
import KeyStore.Glob

/-! The broker: subscribers with their queues, the channels and patterns they follow, and counters.
A message goes to the queues of those who follow its channel at the moment it is published. -/
namespace KeyStore
open Std

/-- The order in which hash tables are visited when a message is published. Any order may come up, and
another one for each message; the numbers are those of the messages. -/
structure Visits where
  /-- The followers of the channel itself, or of a pattern that matches it. -/
  followers : Nat → Option Bytes → List SubscriberId → List SubscriberId
  patterns : Nat → List Bytes → List Bytes
  followers_perm : ∀ n pattern ids, (followers n pattern ids).Perm ids
  patterns_perm : ∀ n ps, (patterns n ps).Perm ps

def Visits.ascending : Visits where
  followers _ _ ids := ids
  patterns _ ps := ps
  followers_perm _ _ ids := .refl ids
  patterns_perm _ ps := .refl ps

structure Broker (Q : Type) where
  fifo : Fifo Q
  visits : Visits
  channels : Links
  patterns : Links
  queues : ExtTreeMap SubscriberId Q
  nextId : SubscriberId
  published : Nat
  delivered : Nat
  dropped : Nat

structure Copy where
  addressee : SubscriberId
  message : Message
deriving DecidableEq, Repr

namespace Broker
variable {Q : Type}

def new (fifo : Fifo Q) (visits : Visits) : Broker Q := ⟨fifo, visits, .empty, .empty, ∅, 1, 0, 0, 0⟩

def subscriber (b : Broker Q) (capacity : Nat) : SubscriberId × Broker Q :=
  (b.nextId, { b with
    queues := b.queues.insert b.nextId (b.fifo.bounded capacity)
    nextId := b.nextId + 1 })

def subscriptionCount (b : Broker Q) (id : SubscriberId) : Nat :=
  (b.channels.names id).size + (b.patterns.names id).size

def subscribe (b : Broker Q) (id : SubscriberId) (channels : List Bytes) : Broker Q :=
  { b with channels := channels.foldl (·.link id ·) b.channels }

def psubscribe (b : Broker Q) (id : SubscriberId) (patterns : List Bytes) : Broker Q :=
  { b with patterns := patterns.foldl (·.link id ·) b.patterns }

/-- The names to give up: those that are listed, or all when none is. -/
def targets (l : Links) (id : SubscriberId) (names : List Bytes) : List Bytes :=
  if names.isEmpty then (l.names id).toList else names

def unsubscribe (b : Broker Q) (id : SubscriberId) (channels : List Bytes) : Broker Q :=
  { b with channels := (targets b.channels id channels).foldl (·.unlink id ·) b.channels }

def punsubscribe (b : Broker Q) (id : SubscriberId) (patterns : List Bytes) : Broker Q :=
  { b with patterns := (targets b.patterns id patterns).foldl (·.unlink id ·) b.patterns }

def drop (b : Broker Q) (id : SubscriberId) : Broker Q :=
  { b with
    channels := b.channels.drop id
    patterns := b.patterns.drop id
    queues := b.queues.erase id }

def channelsOf (b : Broker Q) (id : SubscriberId) : List Bytes := (b.channels.names id).toList

/-- The copies of a message: one for each follower of the channel, then one for each follower of a
pattern that matches it. -/
def copies (b : Broker Q) (channel payload : Bytes) : List Copy :=
  let visit (pattern : Option Bytes) (ids : ExtTreeSet SubscriberId) : List Copy :=
    (b.visits.followers b.published pattern ids.toList).map fun id => ⟨id, channel, pattern, payload⟩
  let matching := (b.visits.patterns b.published b.patterns.known).filter fun p =>
    (Glob.ofBytes p).isMatch channel
  let byPattern := matching.flatMap fun p => visit (some p) (b.patterns.followers p)
  (visit none (b.channels.followers channel) ++ byPattern).filter fun c => b.queues.contains c.addressee

def deliver (b : Broker Q) (policy : OverflowPolicy) (timeout : Nat) (c : Copy) : Bool × Broker Q :=
  match b.queues[c.addressee]? with
  | none => (false, b)
  | some q =>
    let r := b.fifo.offer policy timeout q c.message
    (r.arrived, { b with
      queues := b.queues.insert c.addressee r.queue
      dropped := b.dropped + r.lost })

def deliverAll (policy : OverflowPolicy) (timeout : Nat) : List Copy → Broker Q → Nat × Broker Q
  | [], b => (0, b)
  | c :: cs, b =>
    let (arrived, b) := b.deliver policy timeout c
    let (n, b) := deliverAll policy timeout cs b
    (if arrived then n + 1 else n, b)

/-- Publishes a message; gives the number of queues that received it. -/
def publish (b : Broker Q) (policy : OverflowPolicy) (timeout : Nat) (channel payload : Bytes) :
    Nat × Broker Q :=
  let (n, b) := deliverAll policy timeout (b.copies channel payload)
    { b with published := b.published + 1 }
  (n, { b with delivered := b.delivered + n })

def receive (b : Broker Q) (id : SubscriberId) (wait : Option Nat) : Option Message × Broker Q :=
  match b.queues[id]? with
  | none => (none, b)
  | some q =>
    let (m, q) := b.fifo.recv q wait
    (m, { b with queues := b.queues.insert id q })

def pendingOf (b : Broker Q) (id : SubscriberId) : Nat := (b.queues[id]?.map b.fifo.len).getD 0

def waiting (b : Broker Q) (id : SubscriberId) : List Message :=
  (b.queues[id]?.map b.fifo.messages).getD []

/-- The channels that are followed, in order; those that match a pattern if one is given. -/
def activeChannels (b : Broker Q) (pattern : Option Bytes) : List Bytes :=
  match pattern with
  | none => b.channels.known
  | some p => b.channels.known.filter (Glob.ofBytes p).isMatch

def subscribers (b : Broker Q) (channel : Bytes) : Nat := (b.channels.followers channel).size

def patternCount (b : Broker Q) : Nat := b.patterns.byName.size

def subscriberCount (b : Broker Q) : Nat := b.queues.size

end Broker
end KeyStore
