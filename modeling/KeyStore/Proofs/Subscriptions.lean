import Mathlib.Data.Finset.Image
import KeyStore.Proofs.Links
import KeyStore.Proofs.Queues

/-! Subscriptions. Who follows what is a plain relation that the history of joining, subscribing,
unsubscribing and leaving determines. The indexes of the broker are that relation after every run,
and all that is told of subscriptions, and every copy of a message, follows from it. -/
namespace KeyStore
open Std

/-- The subscribers and what they follow. -/
structure Subscriptions where
  /-- The number of the next subscriber. -/
  next : SubscriberId
  /-- The subscribers that have joined and have not left. -/
  present : Finset SubscriberId
  channels : Pairs
  patterns : Pairs

namespace Subscriptions

def none : Subscriptions := ⟨1, ∅, ∅, ∅⟩

def call (s : Subscriptions) (id : SubscriberId) : HandleCall → Subscriptions
  | .subscribe channels => { s with channels := s.channels ∪ .ofNames id channels }
  | .psubscribe patterns => { s with patterns := s.patterns ∪ .ofNames id patterns }
  | .unsubscribe channels => { s with channels := s.channels.leave id channels }
  | .punsubscribe patterns => { s with patterns := s.patterns.leave id patterns }
  | .receive _ => s
  | .drop => ⟨s.next, s.present.erase id, s.channels.without id, s.patterns.without id⟩

/-- What an event makes of the subscriptions. Who has left has no handle any more. -/
def after (s : Subscriptions) : Event → Subscriptions
  | .join => { s with next := s.next + 1, present := insert s.next s.present }
  | .handle id c => if id ∈ s.present then s.call id c else s
  | _ => s

/-- The subscriptions that a history determines. -/
def ofHistory (evs : List Event) : Subscriptions := evs.foldl after none

theorem ofHistory_append (evs evs' : List Event) :
    ofHistory (evs ++ evs') = evs'.foldl after (ofHistory evs) := List.foldl_append

/-- Numbers are given out in order, and only those who are present follow something. -/
structure Sound (s : Subscriptions) : Prop where
  fresh : ∀ id ∈ s.present, id < s.next
  channels : ∀ p ∈ s.channels, p.1 ∈ s.present
  patterns : ∀ p ∈ s.patterns, p.1 ∈ s.present

theorem sound_none : none.Sound := ⟨by simp [none], by simp [none], by simp [none]⟩

theorem Sound.call {s : Subscriptions} (h : s.Sound) (id : SubscriberId) (hid : id ∈ s.present)
    (c : HandleCall) : (s.call id c).Sound := by
  have hjoined : ∀ (r : Pairs) (names : List Bytes), (∀ p ∈ r, p.1 ∈ s.present) →
      ∀ p ∈ r ∪ .ofNames id names, p.1 ∈ s.present := by
    intro r names hr p hp
    rcases Finset.mem_union.mp hp with hp | hp
    · exact hr p hp
    · rw [((Pairs.mem_ofNames id names p).mp hp).1]
      exact hid
  have hleft : ∀ (r : Pairs) (names : List Bytes), (∀ p ∈ r, p.1 ∈ s.present) →
      ∀ p ∈ r.leave id names, p.1 ∈ s.present := fun r names hr p hp =>
    hr p ((Pairs.mem_leave r id names p).mp hp).1
  have hgone : ∀ r : Pairs, (∀ p ∈ r, p.1 ∈ s.present) →
      ∀ p ∈ r.without id, p.1 ∈ s.present.erase id := by
    intro r hr p hp
    obtain ⟨hp, hne⟩ := (Pairs.mem_without r id p).mp hp
    exact Finset.mem_erase.mpr ⟨hne, hr p hp⟩
  cases c with
  | subscribe channels => exact ⟨h.fresh, hjoined _ _ h.channels, h.patterns⟩
  | psubscribe patterns => exact ⟨h.fresh, h.channels, hjoined _ _ h.patterns⟩
  | unsubscribe channels => exact ⟨h.fresh, hleft _ _ h.channels, h.patterns⟩
  | punsubscribe patterns => exact ⟨h.fresh, h.channels, hleft _ _ h.patterns⟩
  | receive => exact h
  | drop =>
    refine ⟨fun i hi => h.fresh i (Finset.mem_of_mem_erase hi), hgone _ h.channels, hgone _ h.patterns⟩

theorem Sound.after {s : Subscriptions} (h : s.Sound) (ev : Event) : (s.after ev).Sound := by
  cases ev with
  | join =>
    refine ⟨fun id hid => ?_, fun p hp => ?_, fun p hp => ?_⟩
    · rcases Finset.mem_insert.mp hid with rfl | hold
      · exact Nat.lt_succ_self _
      · exact Nat.lt_succ_of_lt (h.fresh id hold)
    · exact Finset.mem_insert_of_mem (h.channels p hp)
    · exact Finset.mem_insert_of_mem (h.patterns p hp)
  | handle id c =>
    simp only [Subscriptions.after]
    split
    · rename_i hid
      exact h.call id hid c
    · exact h
  | _ => exact h

/-- Whether a number was given out to someone who is not present any more. -/
def Left (s : Subscriptions) (id : SubscriberId) : Prop := id < s.next ∧ id ∉ s.present

theorem Left.after {s : Subscriptions} {id : SubscriberId} (h : s.Left id) (ev : Event) :
    (s.after ev).Left id := by
  obtain ⟨hlt, hid⟩ := h
  cases ev with
  | join =>
    refine ⟨Nat.lt_succ_of_lt hlt, fun hmem => ?_⟩
    rcases Finset.mem_insert.mp hmem with heq | hold
    · exact Nat.ne_of_lt hlt heq
    · exact hid hold
  | handle j c =>
    simp only [Subscriptions.after]
    split
    · cases c with
      | drop => exact ⟨hlt, fun hmem => hid (Finset.mem_of_mem_erase hmem)⟩
      | _ => exact ⟨hlt, hid⟩
    · exact ⟨hlt, hid⟩
  | _ => exact ⟨hlt, hid⟩

theorem Left.foldl {s : Subscriptions} {id : SubscriberId} (h : s.Left id) (evs : List Event) :
    (evs.foldl Subscriptions.after s).Left id := by
  induction evs generalizing s with
  | nil => exact h
  | cons ev evs ih => exact ih (h.after ev)

theorem sound_ofHistory (evs : List Event) : (ofHistory evs).Sound := by
  have hfold : ∀ (evs : List Event) (s : Subscriptions), s.Sound → (evs.foldl after s).Sound := by
    intro evs
    induction evs with
    | nil => exact fun _ hs => hs
    | cons ev evs ih => exact fun s hs => ih _ (hs.after ev)
  exact hfold evs none sound_none

end Subscriptions

namespace Broker
variable {Q : Type}

/-- The indexes of a broker are the subscriptions. -/
structure Reflects (b : Broker Q) (s : Subscriptions) : Prop where
  nextId : b.nextId = s.next
  queues : ∀ id, id ∈ b.queues ↔ id ∈ s.present
  channels : b.channels.Lists s.channels
  patterns : b.patterns.Lists s.patterns
  channelRows : ∀ id, id ∈ b.channels.bySubscriber → id ∈ s.present
  patternRows : ∀ id, id ∈ b.patterns.bySubscriber → id ∈ s.present

namespace Reflects
variable {Q : Type} {b : Broker Q} {s : Subscriptions}

theorem new (fifo : Fifo Q) (visits : Visits) : (Broker.new fifo visits).Reflects .none :=
  ⟨rfl, by simp [Broker.new, Subscriptions.none], .empty, .empty,
    by simp [Broker.new, Links.empty], by simp [Broker.new, Links.empty]⟩

theorem of_sameLinks {b' : Broker Q} (h : b.Reflects s) (hsame : b.SameLinks b') : b'.Reflects s where
  nextId := hsame.nextId.trans h.nextId
  queues id := (hsame.queues id).trans (h.queues id)
  channels := by rw [hsame.channels]; exact h.channels
  patterns := by rw [hsame.patterns]; exact h.patterns
  channelRows := by rw [hsame.channels]; exact h.channelRows
  patternRows := by rw [hsame.patterns]; exact h.patternRows

theorem subscriber (h : b.Reflects s) (capacity : Nat) :
    (b.subscriber capacity).2.Reflects (s.after .join) where
  nextId := congrArg (· + 1) h.nextId
  queues id := by
    rw [Broker.subscriber, ExtTreeMap.mem_insert, Std.compare_eq_iff_eq, h.queues, h.nextId]
    simp only [Subscriptions.after, Finset.mem_insert, eq_comm]
  channels := h.channels
  patterns := h.patterns
  channelRows id hid := Finset.mem_insert_of_mem (h.channelRows id hid)
  patternRows id hid := Finset.mem_insert_of_mem (h.patternRows id hid)

theorem call (h : b.Reflects s) (id : SubscriberId) (c : HandleCall) :
    (b.after id c).Reflects (s.after (.handle id c)) := by
  have hmem : b.queues.contains id = true ↔ id ∈ s.present := by
    rw [← ExtTreeMap.mem_iff_contains, h.queues]
  simp only [Broker.after, Subscriptions.after, hmem]
  split
  · rename_i hid
    -- a row of the indexes is begun by the subscriber itself, and only its own
    have hrows : ∀ (l : Links) (names : List Bytes), (∀ i ∈ l.bySubscriber, i ∈ s.present) →
        ∀ i ∈ (names.foldl (·.link id ·) l).bySubscriber, i ∈ s.present := by
      intro l names hl i hi
      rcases Links.mem_bySubscriber_linkEach id i names l hi with rfl | hold
      · exact hid
      · exact hl i hold
    cases c with
    | subscribe channels =>
      exact ⟨h.nextId, h.queues, h.channels.linkAll id channels, h.patterns,
        hrows _ _ h.channelRows, h.patternRows⟩
    | psubscribe patterns =>
      exact ⟨h.nextId, h.queues, h.channels, h.patterns.linkAll id patterns,
        h.channelRows, hrows _ _ h.patternRows⟩
    | unsubscribe channels =>
      exact ⟨h.nextId, h.queues, h.channels.leave id channels, h.patterns,
        fun i hi => h.channelRows i (Links.mem_bySubscriber_unlinkEach id i _ _ hi), h.patternRows⟩
    | punsubscribe patterns =>
      exact ⟨h.nextId, h.queues, h.channels, h.patterns.leave id patterns,
        h.channelRows, fun i hi => h.patternRows i (Links.mem_bySubscriber_unlinkEach id i _ _ hi)⟩
    | receive wait => exact h.of_sameLinks (b.sameLinks_receive id wait)
    | drop =>
      refine ⟨h.nextId, fun i => ?_, h.channels.drop id, h.patterns.drop id, fun i hi => ?_,
        fun i hi => ?_⟩
      · rw [Broker.drop, ExtTreeMap.mem_erase, Ne, Std.compare_eq_iff_eq, h.queues,
          Subscriptions.call, Finset.mem_erase, Ne, eq_comm]
      · obtain ⟨hne, hold⟩ := (Links.mem_bySubscriber_drop id i _).mp hi
        exact Finset.mem_erase.mpr ⟨hne, h.channelRows i hold⟩
      · obtain ⟨hne, hold⟩ := (Links.mem_bySubscriber_drop id i _).mp hi
        exact Finset.mem_erase.mpr ⟨hne, h.patternRows i hold⟩
  · exact h

end Reflects
end Broker

namespace Engine

theorem reflects_after (e : Engine Q) (s : Subscriptions) (h : e.broker.Reflects s) (ev : Event) :
    (e.after ev).broker.Reflects (s.after ev) := by
  have hexecute := fun (e : Engine Q) (c : Command) (nanos : Nat) (h : e.broker.Reflects s) =>
    h.of_sameLinks (e.sameLinks_execute c nanos)
  cases ev with
  | execute c nanos => exact hexecute e c nanos h
  | call words nanos =>
    simp only [after, Engine.call, executeParsed]
    split
    · exact hexecute e _ nanos h
    · exact h
  | batch b nanos => exact batch_keeps (fun e => e.broker.Reflects s) hexecute b nanos e h
  | advance millis => exact h
  | direct c => exact h
  | join => exact h.subscriber e.config.queueCapacity
  | handle id c => exact h.call id c

theorem reflects_run (evs : List Event) (e : Engine Q) (s : Subscriptions) (h : e.broker.Reflects s) :
    (e.run evs).broker.Reflects (evs.foldl Subscriptions.after s) := by
  induction evs generalizing e s with
  | nil => exact h
  | cons ev evs ih => exact ih _ _ (e.reflects_after s h ev)

end Engine

namespace Broker.Reflects
variable {Q : Type} {b : Broker Q} {s : Subscriptions}

theorem channelsOf (h : b.Reflects s) (id : SubscriberId) :
    ListingOf (fun c => (id, c) ∈ s.channels) (b.channelsOf id) where
  ascending := (listingOf_toList _).ascending
  mem c := by rw [Broker.channelsOf, ExtTreeSet.mem_toList, h.channels.names]

theorem activeChannels (h : b.Reflects s) (pattern : Option Bytes) :
    ListingOf (fun c => (∃ id, (id, c) ∈ s.channels) ∧
      ∀ p ∈ pattern, (Glob.ofBytes p).isMatch c = true) (b.activeChannels pattern) := by
  have hall : b.channels.known.Pairwise (· < ·) :=
    ExtTreeMap.ordered_keys.imp fun hlt => (compare_eq_lt_iff _ _).mp hlt
  cases pattern with
  | none => exact ⟨hall, fun c => by simp [Broker.activeChannels, h.channels.mem_known]⟩
  | some p => exact ⟨hall.filter _, fun c => by simp [Broker.activeChannels, h.channels.mem_known]⟩

theorem copies (h : b.Reflects s) (hs : s.Sound) (channel payload : Bytes) :
    (b.copies channel payload).Nodup ∧
      ∀ c : Copy, c ∈ b.copies channel payload ↔
        c.message.channel = channel ∧ c.message.payload = payload ∧
          match c.message.pattern with
          | none => (c.addressee, channel) ∈ s.channels
          | some p => (c.addressee, p) ∈ s.patterns ∧ (Glob.ofBytes p).isMatch channel = true := by
  have hqueue : ∀ id, b.queues.contains id = true ↔ id ∈ s.present := fun id => by
    rw [← ExtTreeMap.mem_iff_contains, h.queues]
  constructor
  · -- copies of one follower differ in the pattern, and those of one pattern in the follower
    have hvisited : ∀ (pattern : Option Bytes) (ids : ExtTreeSet SubscriberId),
        ((b.visits.followers b.published pattern ids.toList).map fun id =>
          Copy.mk id ⟨channel, pattern, payload⟩).Nodup := by
      intro pattern ids
      have hids := (b.visits.followers_perm b.published pattern ids.toList).nodup_iff.mpr (nodup_toList ids)
      exact hids.map fun i j hij => (Copy.mk.inj hij).1
    have hknown := (b.visits.patterns_perm b.published b.patterns.known).nodup_iff.mpr Links.Lists.nodup_known
    apply List.Nodup.filter
    refine List.nodup_append.mpr ⟨hvisited _ _, ?_, ?_⟩
    · refine List.nodup_flatMap.mpr ⟨fun p _ => hvisited _ _, (hknown.filter _).imp fun hne => ?_⟩
      intro c hc hc'
      obtain ⟨i, -, rfl⟩ := List.mem_map.mp hc
      obtain ⟨j, -, hj⟩ := List.mem_map.mp hc'
      exact hne (Option.some.inj (Message.mk.inj (Copy.mk.inj hj).2).2.1).symm
    · rintro c hc c' hc' rfl
      obtain ⟨i, -, rfl⟩ := List.mem_map.mp hc
      obtain ⟨p, -, hp⟩ := List.mem_flatMap.mp hc'
      obtain ⟨j, -, hj⟩ := List.mem_map.mp hp
      cases (Message.mk.inj (Copy.mk.inj hj).2).2.1
  · rintro ⟨id, ch, pattern, text⟩
    have hfollowers : ∀ (p : Option Bytes) (ids : List SubscriberId) (i : SubscriberId),
        i ∈ b.visits.followers b.published p ids ↔ i ∈ ids := fun p ids i =>
      (b.visits.followers_perm b.published p ids).mem_iff
    have hpatterns : ∀ p, p ∈ b.visits.patterns b.published b.patterns.known ↔ p ∈ b.patterns.known :=
      fun p => (b.visits.patterns_perm b.published b.patterns.known).mem_iff
    simp only [Broker.copies, List.mem_filter, List.mem_append, List.mem_map, List.mem_flatMap,
      hfollowers, hpatterns, ExtTreeSet.mem_toList, h.channels.followers, h.patterns.followers, h.patterns.mem_known,
      hqueue, Copy.mk.injEq, Message.mk.injEq]
    cases pattern with
    | none =>
      constructor
      · rintro ⟨⟨i, hi, rfl, rfl, -, rfl⟩ | ⟨p, -, i, -, -, -, hp, -⟩, -⟩
        · exact ⟨rfl, rfl, hi⟩
        · cases hp
      · rintro ⟨rfl, rfl, hi⟩
        exact ⟨.inl ⟨id, hi, rfl, rfl, rfl, rfl⟩, hs.channels _ hi⟩
    | some p =>
      constructor
      · rintro ⟨⟨i, -, -, -, hp, -⟩ | ⟨q, ⟨-, hmatch⟩, i, hi, rfl, rfl, hq, rfl⟩, -⟩
        · cases hp
        · cases hq
          exact ⟨rfl, rfl, hi, hmatch⟩
      · rintro ⟨rfl, rfl, hi, hmatch⟩
        exact ⟨.inr ⟨p, ⟨⟨id, hi⟩, hmatch⟩, id, hi, rfl, rfl, rfl, rfl⟩, hs.patterns _ hi⟩

end Broker.Reflects

/-- Nothing is left of a subscriber: no queue, and no row or entry in an index. -/
structure Broker.Forgets (b : Broker Q) (id : SubscriberId) : Prop where
  queues : id ∉ b.queues
  channelRows : id ∉ b.channels.bySubscriber
  patternRows : id ∉ b.patterns.bySubscriber
  channels : ∀ channel, id ∉ b.channels.followers channel
  patterns : ∀ pattern, id ∉ b.patterns.followers pattern

/-- All that an engine tells of subscriptions is what they are. -/
structure Engine.Tells (e : Engine Q) (s : Subscriptions) : Prop where
  subscriptionCount : ∀ id, e.broker.subscriptionCount id =
    (s.channels.filter (·.1 = id)).card + (s.patterns.filter (·.1 = id)).card
  channelsOf : ∀ id, ListingOf (fun c => (id, c) ∈ s.channels) (e.broker.channelsOf id)
  pubsubChannels : ∀ pattern nanos, ∃ channels,
    (e.execute (.onServer (.pubsubChannels pattern)) nanos).1 = .ok (.bulks channels) ∧
    ListingOf (fun c => (∃ id, (id, c) ∈ s.channels) ∧
      ∀ p ∈ pattern, (Glob.ofBytes p).isMatch c = true) channels
  pubsubNumSub : ∀ channels nanos,
    (e.execute (.onServer (.pubsubNumSub channels)) nanos).1 =
      .ok (.map (channels.map fun c => (c, .count (s.channels.filter (·.2 = c)).card)))
  pubsubNumPat : ∀ nanos, (e.execute (.onServer .pubsubNumPat) nanos).1 =
    .ok (.count (s.patterns.image (·.2)).card)
  /-- The copies of a message are all different, and each is one that a pair calls for. -/
  copies : ∀ channel payload, (e.broker.copies channel payload).Nodup ∧
    ∀ c : Copy, c ∈ e.broker.copies channel payload ↔
      c.message.channel = channel ∧ c.message.payload = payload ∧
        match c.message.pattern with
        | none => (c.addressee, channel) ∈ s.channels
        | some p => (c.addressee, p) ∈ s.patterns ∧ (Glob.ofBytes p).isMatch channel = true
  /-- They are what is published: one after the other is delivered. -/
  publish : ∀ channel payload nanos,
    let r := Broker.deliverAll e.config.overflow e.config.publishTimeout
      (e.broker.copies channel payload) { e.broker with published := e.broker.published + 1 }
    (e.execute (.onServer (.publish channel payload)) nanos).1 = .ok (.count r.1) ∧
      (e.execute (.onServer (.publish channel payload)) nanos).2.broker =
        { r.2 with delivered := r.2.delivered + r.1 }
  /-- Who has room for its copies gets them, and who has none gets nothing. -/
  receives : ∀ channel payload nanos id,
    let copies := e.broker.copies channel payload
    let after := (e.execute (.onServer (.publish channel payload)) nanos).2.broker
    (∀ q, e.broker.queues[id]? = some q →
      (e.broker.fifo.messages q).length + (messagesTo id copies).length ≤ e.broker.fifo.capacity q →
      after.waiting id = e.broker.waiting id ++ messagesTo id copies) ∧
    ((∀ c ∈ copies, c.addressee ≠ id) → after.queues[id]? = e.broker.queues[id]?)
  forgets : ∀ id, id ∉ s.present → e.broker.Forgets id

namespace Engine

theorem tells_of_reflects (e : Engine Q) (s : Subscriptions) (h : e.broker.Reflects s) (hs : s.Sound) :
    e.Tells s where
  subscriptionCount id := by
    rw [Broker.subscriptionCount, h.channels.size_names, h.patterns.size_names]
  channelsOf := h.channelsOf
  pubsubChannels pattern nanos := ⟨_, rfl, h.activeChannels pattern⟩
  pubsubNumSub channels nanos := by
    have hcount : ∀ c, e.broker.subscribers c = (s.channels.filter (·.2 = c)).card :=
      h.channels.size_followers
    simp only [execute, perform, serve, hcount]
  pubsubNumPat nanos := congrArg (fun n => Except.ok (Reply.count n)) h.patterns.size_byName
  copies := h.copies hs
  publish channel payload nanos := ⟨rfl, rfl⟩
  receives channel payload nanos id := by
    intro copies after
    let started : Broker Q := { e.broker with published := e.broker.published + 1 }
    refine ⟨fun q hq hroom => ?_, fun hnone => ?_⟩
    · exact Broker.waiting_deliverAll_of_room (b := started) _ _ copies hq hroom
    · exact Broker.queue_deliverAll_of_ne _ _ hnone started
  forgets id hid :=
    { queues := fun hq => hid ((h.queues id).mp hq)
      channelRows := fun hr => hid (h.channelRows id hr)
      patternRows := fun hr => hid (h.patternRows id hr)
      channels := fun c hc => hid (hs.channels _ ((h.channels.followers id c).mp hc))
      patterns := fun p hp => hid (hs.patterns _ ((h.patterns.followers id p).mp hp)) }

/-- After every run the broker tells of the subscriptions that the history determines, and whoever
has dropped its handle is not among the subscribers and stays forgotten. -/
theorem subscriptions_told (config : Config) (base : Base Q) (evs : List Event) :
    let e := (new config base).run evs
    let s := Subscriptions.ofHistory evs
    e.Tells s ∧
    ∀ earlier later id, evs = earlier ++ .handle id .drop :: later →
      id ∈ (Subscriptions.ofHistory earlier).present → id ∉ s.present ∧ e.broker.Forgets id := by
  intro e s
  have htells : e.Tells s := by
    apply tells_of_reflects
    · exact reflects_run evs (new config base) .none (.new base.fifo base.visits)
    · exact Subscriptions.sound_ofHistory evs
  refine ⟨htells, ?_⟩
  rintro earlier later id hevs hid
  have hleft : s.Left id := by
    have hdrop : ((Subscriptions.ofHistory earlier).after (.handle id .drop)).Left id := by
      have hlt := (Subscriptions.sound_ofHistory earlier).fresh id hid
      simp only [Subscriptions.after, hid, if_true, Subscriptions.call]
      exact ⟨hlt, Finset.notMem_erase id _⟩
    have hs : s = later.foldl Subscriptions.after
        ((Subscriptions.ofHistory earlier).after (.handle id .drop)) := by
      change Subscriptions.ofHistory evs = _
      rw [hevs, Subscriptions.ofHistory_append, List.foldl_cons]
    rw [hs]
    exact hdrop.foldl later
  exact ⟨hleft.2, htells.forgets id hleft.2⟩

/-- The first of two subscribers follows names twice over and leaves; what its handle did later would
come to nothing. The second gives up a name that it never followed. -/
theorem subscriptions_told_of_leaving :
    let evs : List Event := [
      .join, .handle 1 (.subscribe [[97], [98], [97]]), .handle 1 (.psubscribe [[42]]),
      .join, .handle 2 (.subscribe [[97]]), .handle 2 (.unsubscribe [[98]]),
      .handle 1 .drop, .handle 1 (.subscribe [[98]])]
    let e := (new .default .standard).run evs
    let s := Subscriptions.ofHistory evs
    s.channels = {(2, [97])} ∧ s.patterns = ∅ ∧ e.broker.Forgets 1 ∧
      e.broker.activeChannels none = [[97]] ∧
      e.broker.copies [97] [120] = [⟨2, ⟨[97], none, [120]⟩⟩] ∧
      (e.execute (.onServer (.publish [97] [120])) 0).2.broker.waiting 2 = [⟨[97], none, [120]⟩] := by
  intro evs e s
  have hleft := (subscriptions_told .default .standard evs).2 (evs.take 6) (evs.drop 7) 1 rfl
    (by decide)
  exact ⟨by decide, by decide, hleft.2, by decide, by decide, by decide⟩

end Engine
end KeyStore
