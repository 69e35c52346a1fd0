import KeyStore.Engine
import KeyStore.Keyspace.Sweep
import KeyStore.Proofs.Rows

/-! Runs: what can happen to an engine, and the engines that are reached. Commands come alone, as
words or in batches; the clock is moved; subscribers use their handles; and the keyspace may be
called directly, by a sweep or by anyone else who holds it. -/
namespace KeyStore

inductive KeyspaceCall
  | get (key : Key)
  | set (key : Key) (value : Value) (expiresAt : Option Instant)
  | update (key : Key) (f : Slot → Slot)
  | remove (key : Key)
  | flush
  | scan (cursor : UInt64) (count : Nat) (filter : Key → Entry → Bool)
  | withHeld (keys : List Key) (f : Held → Held)
  | expireIfDue (key : Key)
  | sweep (sampler : Keyspace.Sampler)

def Keyspace.after (ks : Keyspace) : KeyspaceCall → Keyspace
  | .get key => (ks.get key).2
  | .set key value expiresAt => ks.set key value expiresAt
  | .update key f => (ks.update key fun s => ((), f s)).2
  | .remove key => (ks.remove key).2
  | .flush => ks.flush.2
  | .scan cursor count filter => (ks.scan cursor count filter).2
  | .withHeld keys f => (ks.withHeld keys fun h => ((), f h)).2
  | .expireIfDue key => (ks.expireIfDue key).2
  | .sweep sampler => (ks.sweep sampler).2

inductive HandleCall
  | subscribe (channels : List Bytes)
  | psubscribe (patterns : List Bytes)
  | unsubscribe (channels : List Bytes)
  | punsubscribe (patterns : List Bytes)
  /-- Takes the oldest message, at once or within some milliseconds. -/
  | receive (wait : Option Nat)
  | drop

/-- The broker after a call of a handle; a subscriber that is gone has none. -/
def Broker.after (b : Broker Q) (id : SubscriberId) (c : HandleCall) : Broker Q :=
  if b.queues.contains id then
    match c with
    | .subscribe channels => b.subscribe id channels
    | .psubscribe patterns => b.psubscribe id patterns
    | .unsubscribe channels => b.unsubscribe id channels
    | .punsubscribe patterns => b.punsubscribe id patterns
    | .receive wait => (b.receive id wait).2
    | .drop => b.drop id
  else b

/-- Something that happens to an engine. -/
inductive Event
  | execute (c : Command) (nanos : Nat)
  | call (words : List Bytes) (nanos : Nat)
  | batch (b : Batch) (nanos : Nat → Nat)
  | advance (millis : UInt64)
  | direct (c : KeyspaceCall)
  /-- A subscriber joins. -/
  | join
  | handle (id : SubscriberId) (c : HandleCall)

def Event.millis : Event → Nat
  | .advance millis => millis.toNat
  | _ => 0

def elapsed : List Event → Nat
  | [] => 0
  | ev :: evs => ev.millis + elapsed evs

namespace Engine

def after (e : Engine Q) : Event → Engine Q
  | .execute c nanos => (e.execute c nanos).2
  | .call words nanos => (e.call words nanos).2
  | .batch b nanos => (b.run e nanos).2
  | .advance millis => e.advance millis
  | .direct c => { e with keyspace := e.keyspace.after c }
  | .join => e.subscriber.2
  | .handle id c => { e with broker := e.broker.after id c }

def run (e : Engine Q) (evs : List Event) : Engine Q := evs.foldl after e

@[simp] theorem run_nil (e : Engine Q) : e.run [] = e := rfl

@[simp] theorem run_cons (e : Engine Q) (ev : Event) (evs : List Event) :
    e.run (ev :: evs) = (e.after ev).run evs := rfl

/-- A command as it was understood, with its outcome. -/
abbrev Answer := Except Error Command × Outcome

def answers (e : Engine Q) : Event → List Answer
  | .execute c nanos => [(.ok c, (e.execute c nanos).1)]
  | .call words nanos => [(Command.ofWords words, (e.call words nanos).1)]
  | .batch b nanos => b.queued.toList.zip (b.run e nanos).1
  | _ => []

/-- The answers to the commands of a run. -/
def transcript (e : Engine Q) : List Event → List Answer
  | [] => []
  | ev :: evs => e.answers ev ++ (e.after ev).transcript evs

/-- An engine that a run leads to. -/
def Reachable (e : Engine Q) : Prop :=
  ∃ (config : Config) (base : Base Q) (evs : List Event), e = (new config base).run evs

theorem keyspace_execute_onKeys (e : Engine Q) (c : KeyCommand) (nanos : Nat) :
    (e.execute (.onKeys c) nanos).2.keyspace = ((c.task e.keyspace.clock).run e.keyspace).2 := rfl

theorem keyspace_execute_onServer (e : Engine Q) (c : ServerCommand) (nanos : Nat) :
    (e.execute (.onServer c) nanos).2.keyspace = (e.serve c).2.keyspace := rfl

/-- A command on the server empties the keyspace, scans it, or leaves it alone. -/
theorem keyspace_serve (e : Engine Q) (c : ServerCommand) :
    c = .flushdb ∧ (e.serve c).2.keyspace = e.keyspace.flush.2 ∨
      (∃ cursor count filter, (e.serve c).2.keyspace = (e.keyspace.scan cursor count filter).2) ∨
      (e.serve c).2.keyspace = e.keyspace := by
  cases c with
  | flushdb => exact .inl ⟨rfl, rfl⟩
  | scan cursor pattern count kind => exact .inr (.inl ⟨_, _, _, rfl⟩)
  | ping message => cases message <;> exact .inr (.inr rfl)
  | configSet parameter value =>
    simp only [serve]
    split <;> exact .inr (.inr rfl)
  | _ => exact .inr (.inr rfl)

end Engine

namespace Keyspace

/-- A property that the operations of commands on keys keep. -/
structure Kept (P : Keyspace → Prop) : Prop where
  read : ∀ {α : Type} (ks : Keyspace) (k : Key) (f : Slot → α), P ks → P (ks.read k f).2
  update : ∀ {α : Type} (ks : Keyspace) (k : Key) (f : Slot → α × Slot), P ks → P (ks.update k f).2
  remove : ∀ (ks : Keyspace) (k : Key), P ks → P (ks.remove k).2
  withHeld : ∀ {α : Type} (ks : Keyspace) (keys : List Key) (f : Held → α × Held),
    P ks → P (ks.withHeld keys f).2

/-- A property that everything keeps that happens to a keyspace while the clock stands. -/
structure Lasting (P : Keyspace → Prop) : Prop extends Kept P where
  flush : ∀ ks, P ks → P ks.flush.2
  expireIfDue : ∀ ks k, P ks → P (ks.expireIfDue k).2

variable {P : Keyspace → Prop}

theorem scan_keeps (h : ∀ (ks : Keyspace) (k : Key) (f : Slot → Bool), P ks → P (ks.read k f).2)
    (ks : Keyspace) (cursor : UInt64) (count : Nat) (filter : Key → Entry → Bool) (hks : P ks) :
    P (ks.scan cursor count filter).2 := by
  have hsift : ∀ (keys : List Key) (ks : Keyspace), P ks → P (sift filter keys ks).2 := by
    intro keys
    induction keys with
    | nil => exact fun _ hks => hks
    | cons k keys ih => exact fun ks hks => ih _ (h ks k _ hks)
  exact hsift _ ks hks

theorem readEach_keeps {f : Slot → α} (h : ∀ ks k, P ks → P (ks.read k f).2)
    (keys : List Key) (ks : Keyspace) (hks : P ks) : P (readEach f keys ks).2 := by
  induction keys generalizing ks with
  | nil => exact hks
  | cons k keys ih => exact ih _ (h ks k hks)

theorem sweep_keeps (h : ∀ ks k, P ks → P (ks.expireIfDue k).2) (ks : Keyspace) (sampler : Sampler)
    (hks : P ks) : P (ks.sweep sampler).2 := by
  have heach : ∀ (keys : List Key) (ks : Keyspace), P ks → P (expireEach keys ks).2 := by
    intro keys
    induction keys with
    | nil => exact fun _ hks => hks
    | cons k keys ih => exact fun ks hks => ih _ (h ks k hks)
  have hfrom : ∀ (left round : Nat) (ks : Keyspace), P ks →
      P (sweepFrom sampler round left ks).2 := by
    intro left
    induction left with
    | zero => exact fun _ _ hks => hks
    | succ left ih =>
      intro round ks hks
      rw [sweepFrom]
      have he := heach (sampler round ks.volatile) ks hks
      dsimp only
      split
      · exact hks
      · split
        · exact he
        · exact ih (round + 1) _ he
  exact hfrom maxRounds 0 ks hks

namespace Kept

theorem removeEach (h : Kept P) (keys : List Key) (ks : Keyspace) (hks : P ks) :
    P (removeEach keys ks).2 := by
  induction keys generalizing ks with
  | nil => exact hks
  | cons k keys ih => exact ih _ (h.remove ks k hks)

theorem run (h : Kept P) (t : Task) (ks : Keyspace) (hks : P ks) : P (t.run ks).2 := by
  cases t with
  | refuse e => exact hks
  | look key f => exact h.read ks key f hks
  | lookEach keys f => exact readEach_keeps (fun ks k => h.read ks k id) keys ks hks
  | edit key f => exact h.update ks key f hks
  | removeEach keys => exact h.removeEach keys ks hks
  | together keys f => exact h.withHeld ks keys f hks

end Kept

namespace Lasting

theorem after (h : Lasting P) (ks : Keyspace) (c : KeyspaceCall) (hks : P ks) : P (ks.after c) := by
  cases c with
  | get key => exact h.read ks key id hks
  | set key value expiresAt => exact h.update ks key _ hks
  | update key f => exact h.update ks key _ hks
  | remove key => exact h.remove ks key hks
  | flush => exact h.flush ks hks
  | scan cursor count filter => exact scan_keeps (fun ks k f => h.read ks k f) ks _ _ _ hks
  | withHeld keys f => exact h.withHeld ks keys _ hks
  | expireIfDue key => exact h.expireIfDue ks key hks
  | sweep sampler => exact sweep_keeps h.expireIfDue ks sampler hks

theorem execute (h : Lasting P) (e : Engine Q) (c : Command) (nanos : Nat) (he : P e.keyspace) :
    P (e.execute c nanos).2.keyspace := by
  cases c with
  | onKeys c => exact h.run (c.task e.keyspace.clock) e.keyspace he
  | onServer c =>
    rw [e.keyspace_execute_onServer c nanos]
    rcases e.keyspace_serve c with ⟨-, hflush⟩ | ⟨cursor, count, filter, hscan⟩ | hsame
    · rw [hflush]
      exact h.flush e.keyspace he
    · rw [hscan]
      exact scan_keeps (fun ks k f => h.read ks k f) e.keyspace cursor count filter he
    · rw [hsame]
      exact he

end Lasting

theorem now_advance (ks : Keyspace) (millis : UInt64) (hfits : ks.now + millis.toNat < UInt64.size) :
    (ks.advance millis).now = ks.now + millis.toNat :=
  (UInt64.toNat_add ..).trans (Nat.mod_eq_of_lt hfits)

/-- Only the clock is moved from outside, and the hash never changes. -/
theorem lasting_frame {β : Type} (g : Keyspace → β)
    (hg : ∀ a b : Keyspace, b.clock = a.clock → b.hash = a.hash → g b = g a) (x : β) :
    Lasting (g · = x) where
  read ks k f h := (hg _ _ (still_read ks k f).clock (still_read ks k f).hash).trans h
  update ks k f h := (hg _ _ (still_update ks k f).clock (still_update ks k f).hash).trans h
  remove ks k h := (hg _ _ (still_remove ks k).clock (still_remove ks k).hash).trans h
  withHeld ks keys f h :=
    (hg _ _ (still_withHeld ks keys f).clock (still_withHeld ks keys f).hash).trans h
  flush ks h := (hg ks ks.flush.2 rfl rfl).trans h
  expireIfDue ks k h := by
    obtain ⟨hclock, hhash⟩ := clock_hash_expireIfDue ks k
    exact (hg _ _ hclock hhash).trans h

end Keyspace

namespace Engine

theorem batch_keeps (P : Engine Q → Prop) (h : ∀ e c nanos, P e → P (e.execute c nanos).2)
    (b : Batch) (nanos : Nat → Nat) (e : Engine Q) (he : P e) : P (b.run e nanos).2 := by
  have hfrom : ∀ (cs : List (Except Error Command)) (i : Nat) (e : Engine Q), P e →
      P (Batch.runFrom nanos i cs e).2 := by
    intro cs
    induction cs with
    | nil => exact fun _ _ he => he
    | cons c cs ih =>
      intro i e he
      cases c with
      | ok c => exact ih (i + 1) _ (h e c (nanos i) he)
      | error err => exact ih (i + 1) _ he
  exact hfrom _ 0 e he

theorem after_keeps {P : Keyspace → Prop} (h : Keyspace.Lasting P) (e : Engine Q) (ev : Event)
    (hadvance : ∀ millis, ev = .advance millis → P (e.keyspace.advance millis))
    (he : P e.keyspace) : P (e.after ev).keyspace := by
  have hexecute := fun (e : Engine Q) c nanos => h.execute e c nanos
  cases ev with
  | execute c nanos => exact hexecute e c nanos he
  | call words nanos =>
    simp only [after, call, executeParsed]
    split
    · exact hexecute e _ nanos he
    · exact he
  | batch b nanos => exact batch_keeps (fun e => P e.keyspace) hexecute b nanos e he
  | advance millis => exact hadvance millis rfl
  | direct c => exact h.after e.keyspace c he
  | join => exact he
  | handle id c => exact he

theorem now_after (e : Engine Q) (ev : Event) (hfits : e.keyspace.now + ev.millis < UInt64.size) :
    (e.after ev).keyspace.now = e.keyspace.now + ev.millis := by
  by_cases hev : ∃ millis, ev = .advance millis
  · obtain ⟨millis, rfl⟩ := hev
    exact e.keyspace.now_advance millis hfits
  · have hclock : (e.after ev).keyspace.clock = e.keyspace.clock :=
      after_keeps (Keyspace.lasting_frame Keyspace.clock (fun _ _ h _ => h) _) e ev
        (fun millis h => absurd ⟨millis, h⟩ hev) rfl
    have hmillis : ev.millis = 0 := by
      cases ev with
      | advance millis => exact absurd ⟨millis, rfl⟩ hev
      | _ => rfl
    rw [hmillis, Nat.add_zero]
    exact congrArg Clock.now hclock

theorem now_run (e : Engine Q) (evs : List Event) (hfits : e.keyspace.now + elapsed evs < UInt64.size) :
    (e.run evs).keyspace.now = e.keyspace.now + elapsed evs := by
  induction evs generalizing e with
  | nil => rfl
  | cons ev evs ih =>
    have hsum : e.keyspace.now + ev.millis + elapsed evs < UInt64.size := by
      rw [Nat.add_assoc]
      exact hfits
    have hev := e.now_after ev (Nat.lt_of_add_right_lt hsum)
    rw [run_cons, ih _ (hev ▸ hsum), hev, elapsed, Nat.add_assoc]

theorem run_keeps {P : Keyspace → Prop} (h : Keyspace.Lasting P)
    (hadvance : ∀ ks millis, P ks → P (ks.advance millis)) (evs : List Event) (e : Engine Q)
    (he : P e.keyspace) : P (e.run evs).keyspace := by
  induction evs generalizing e with
  | nil => exact he
  | cons ev evs ih => exact ih _ (after_keeps h e ev (fun millis _ => hadvance _ millis he) he)

theorem hash_run (e : Engine Q) (evs : List Event) : (e.run evs).keyspace.hash = e.keyspace.hash :=
  run_keeps (Keyspace.lasting_frame Keyspace.hash (fun _ _ _ h => h) _) (fun _ _ h => h) evs e rfl

end Engine
end KeyStore
