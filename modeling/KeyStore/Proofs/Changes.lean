import KeyStore.Proofs.Expirations
import KeyStore.Proofs.Kinds
import KeyStore.Proofs.Rankings
import KeyStore.Proofs.Tallies

/-! Changes. The sorted set under a key is what the commands that worked on it made of an empty one, wherever
it was kept meanwhile: the last of their changes, since it was begun afresh, make it. -/
namespace KeyStore
open Std

/-- A change to a sorted set: a member with its new score, or without one if it goes. -/
abbrev Change := Bytes × Option Double

namespace SortedSet

def change (z : SortedSet) : Change → SortedSet
  | (member, some score) => (z.insert member score).2
  | (member, none) => (z.remove member).2

def ofChanges (cs : List Change) : SortedSet := cs.foldl change .empty

theorem ofChanges_append (cs : List Change) (c : Change) :
    ofChanges (cs ++ [c]) = (ofChanges cs).change c := by
  rw [ofChanges, List.foldl_append]
  rfl

def Made (h : List Change) (z : SortedSet) : Prop := ∃ cs, cs <:+ h ∧ z = ofChanges cs

theorem Made.empty (h : List Change) : Made h .empty := ⟨[], List.nil_suffix, rfl⟩

theorem Made.append {h : List Change} {z : SortedSet} (hz : Made h z) (cs : List Change) :
    Made (h ++ cs) (cs.foldl change z) := by
  obtain ⟨cs', ⟨before, rfl⟩, rfl⟩ := hz
  refine ⟨cs' ++ cs, ⟨before, by rw [List.append_assoc]⟩, ?_⟩
  rw [ofChanges, ofChanges, List.foldl_append]

end SortedSet

def Slot.zset (s : Slot) : SortedSet := (s.bind fun e => Shape.zset.open? e.value).getD .empty

theorem SortedSet.Made.filter {h : List Change} {s : Slot} (hs : s.zset.Made h) (p : Entry → Bool) :
    (Slot.zset (s.filter p)).Made h := by
  cases s with
  | none => exact hs
  | some e =>
    rw [Option.filter_some]
    split
    · exact hs
    · exact .empty h

/-- A body that leaves the sorted set that it finds, or none. -/
def Spares (f : Slot → α × Slot) : Prop := ∀ s, (f s).2.zset = s.zset ∨ (f s).2.zset = .empty

/-- A body that makes the sorted set that it leaves of the one that it finds, by changes that its outcome
tells. -/
def MakesBy (changes : Outcome → List Change) (f : Slot → Outcome × Slot) : Prop :=
  ∀ h s, s.zset.Made h → (f s).2.zset.Made (h ++ changes (f s).1)

theorem Spares.makesBy {f : Slot → Outcome × Slot} (hf : Spares f) : MakesBy (fun _ => []) f := by
  intro h s hs
  rw [List.append_nil]
  rcases hf s with heq | heq
  · rw [heq]
    exact hs
  · rw [heq]
    exact .empty h

namespace Shape
variable {σ : Type} {shape : Shape σ}

def Unranked (shape : Shape σ) : Prop := ∀ x, zset.open? (shape.wrap x) = none

theorem Unranked.zset_wrap (h : shape.Unranked) (x : σ) (expiresAt : Option Instant) :
    Slot.zset (some ⟨shape.wrap x, expiresAt⟩) = .empty := by
  rw [Slot.zset, Option.bind_some, h x]
  rfl

theorem Unranked.alter (h : shape.Unranked) (missing : α) (f : σ → Except Error α × σ) :
    Spares (shape.alter missing f) := by
  intro s
  cases s with
  | none => exact .inl rfl
  | some e =>
    cases ho : shape.open? e.value with
    | none => simp [Shape.alter, ho]
    | some x => simp [Shape.alter, ho, h.zset_wrap]

theorem Unranked.grow (h : shape.Unranked) (f : σ → Except Error Reply × σ) : Spares (shape.grow f) := by
  intro s
  cases s with
  | none => simp [Shape.grow, Entry.lasting, open?_wrap, h.zset_wrap]
  | some e => exact h.alter .nil f (some e)

theorem string_unranked : string.Unranked := fun _ => rfl

theorem list_unranked : list.Unranked := fun _ => rfl

theorem hash_unranked : hash.Unranked := fun _ => rfl

theorem set_unranked : set.Unranked := fun _ => rfl

variable {changes : Outcome → List Change} {f : SortedSet → Except Error Reply × SortedSet}

theorem makesBy_alter (missing : Reply) (hf : ∀ z, (f z).2 = (changes (f z).1).foldl SortedSet.change z)
    (herror : ∀ err, changes (.error err) = []) : MakesBy changes (zset.alter missing f) := by
  intro h s hs
  cases s with
  | none => exact .empty _
  | some e =>
    cases ho : zset.open? e.value with
    | none => simpa [Shape.alter, ho, herror] using hs
    | some z =>
      simp only [Slot.zset, Option.bind_some, ho, Option.getD_some] at hs
      simp only [Shape.alter, ho, Slot.zset, Option.bind_some, open?_wrap, Option.getD_some, hf]
      exact hs.append _

theorem makesBy_grow (hf : ∀ z, (f z).2 = (changes (f z).1).foldl SortedSet.change z)
    (herror : ∀ err, changes (.error err) = []) : MakesBy changes (zset.grow f) := by
  intro h s hs
  cases s with
  | none =>
    simp only [Shape.grow, Option.getD_none, Entry.lasting, open?_wrap, Slot.zset, Option.bind_some,
      Option.getD_some, hf]
    exact (SortedSet.Made.empty h).append _
  | some e => exact makesBy_alter .nil hf herror h (some e) hs

end Shape

namespace KeyCommand

def changes (c : KeyCommand) (out : Outcome) : List Change :=
  match c with
  | zadd _ members => if out.isOk then members.map fun p => (p.2, some p.1) else []
  | zrem _ members => if out.isOk then members.map fun m => (m, none) else []
  | zincrBy _ _ member => (out.toOption.bind Reply.asDouble).toList.map fun score => (member, some score)
  | _ => []

/-- The key under which was kept, before a command, what is under a key after it. -/
def origin (c : KeyCommand) (out : Outcome) (k : Key) : Key :=
  match c with
  | rename source destination => if out.isOk && destination == k then source else k
  | _ => k

/-- The changes to what is under each key, those of a command added. -/
def record (c : KeyCommand) (out : Outcome) (h : Key → List Change) (k : Key) : List Change :=
  h (c.origin out k) ++ if c.keys.contains k then c.changes out else []

theorem tally_snd (step : σ → α → Bool × σ) (as : List α) (x : σ) :
    (tally step as x).2 = as.foldl (fun x a => (step x a).2) x := by
  induction as generalizing x with
  | nil => rfl
  | cons a as ih => exact ih _

theorem spares_pushSlot (values : List Bytes) (side : Side) (onlyExisting : Bool) :
    Spares (pushSlot values side onlyExisting) := by
  intro s
  rw [pushSlot]
  split
  · exact .inl rfl
  · exact Shape.list_unranked.grow _ s

theorem spares_incrSlot (delta : Int64) : Spares (incrSlot delta) := by
  intro s
  cases s with
  | none => exact .inl rfl
  | some e => exact Shape.string_unranked.alter .nil _ (some e)

theorem spares_setSlot (value : Bytes) (o : SetOptions) (expiry : Slot → Option Instant) :
    Spares (setSlot value o expiry) := by
  intro s
  rw [setSlot]
  split
  · exact .inl rfl
  · dsimp only
    split
    · exact .inr rfl
    · exact .inl rfl

theorem spares_expireSlot (at' : Option Instant) : Spares (expireSlot at') := by
  intro s
  cases s with
  | none => exact .inl rfl
  | some e =>
    cases at' with
    | none => exact .inr rfl
    | some t => exact .inl rfl

theorem spares_persistSlot : Spares persistSlot := by
  intro s
  cases s with
  | none => exact .inl rfl
  | some e =>
    rw [persistSlot]
    split <;> exact .inl rfl

theorem makesBy_zadd (key : Key) (members : List (Double × Bytes)) :
    MakesBy (zadd key members).changes
      (Shape.zset.grow (counted (fun z p => z.insert p.2 p.1) members)) := by
  refine Shape.makesBy_grow (fun z => ?_) fun _ => rfl
  have hchanges : (zadd key members).changes (counted (fun z p => z.insert p.2 p.1) members z).1 =
      members.map fun p => (p.2, some p.1) := rfl
  rw [hchanges, List.foldl_map]
  exact tally_snd _ members z

theorem makesBy_zrem (key : Key) (members : List Bytes) :
    MakesBy (zrem key members).changes
      (Shape.zset.alter (.count 0) (counted SortedSet.remove members)) := by
  refine Shape.makesBy_alter _ (fun z => ?_) fun _ => rfl
  have hchanges : (zrem key members).changes (counted SortedSet.remove members z).1 =
      members.map fun m => (m, none) := rfl
  rw [hchanges, List.foldl_map]
  exact tally_snd _ members z

theorem makesBy_zincrBy (key : Key) (delta : Double) (member : Bytes) :
    MakesBy (zincrBy key delta member).changes (Shape.zset.grow fun z =>
      let r := z.increment member delta; (r.1.map .double, r.2)) := by
  refine Shape.makesBy_grow (fun z => ?_) fun _ => rfl
  rcases z.increment_cases member delta with hfails | ⟨score, -, hinserts⟩
  · rw [hfails]
    rfl
  · rw [hinserts]
    rfl

end KeyCommand

namespace Keyspace

/-- Under each key the last of some changes made the sorted set. -/
def MadeBy (h : Key → List Change) (ks : Keyspace) : Prop := ∀ k, (ks.slot k).zset.Made (h k)

theorem madeBy_of_empty {ks : Keyspace} (hks : ∀ k, ks.slot k = none) (h : Key → List Change) :
    ks.MadeBy h := by
  intro k
  rw [hks]
  exact .empty _

theorem madeBy_new (hash : Key → UInt64) (horizon : Horizon) (h : Key → List Change) :
    (new hash horizon).MadeBy h :=
  madeBy_of_empty (fun k => by simp [new, slot]) h

theorem madeBy_flush (ks : Keyspace) (h : Key → List Change) : ks.flush.2.MadeBy h :=
  madeBy_of_empty (fun k => by simp [flush, slot]) h

namespace MadeBy
variable {h : Key → List Change} {ks : Keyspace} (hks : ks.MadeBy h)
include hks

theorem live (k : Key) : (ks.live k).zset.Made (h k) := (hks k).filter _

theorem of_drops {ks' : Keyspace} (hdrops : DropsSome ks ks') : ks'.MadeBy h := by
  obtain ⟨gone, hdrops⟩ := hdrops
  intro k
  rw [hdrops.slot]
  split
  · exact .empty _
  · exact hks k

theorem remove (k : Key) : (ks.remove k).2.MadeBy h := by
  intro j
  rw [slot_remove]
  split
  · exact .empty _
  · exact hks j

theorem removeEach (keys : List Key) : (removeEach keys ks).2.MadeBy h := by
  induction keys generalizing ks with
  | nil => exact hks
  | cons k keys ih => exact ih (hks.remove k)

/-- The sorted set under a key that is written is made of the one that is seen there. -/
theorem update {changes : Outcome → List Change} {f : Slot → Outcome × Slot} (hf : MakesBy changes f)
    (key k : Key) :
    ((ks.update key f).2.slot k).zset.Made
      (h k ++ if key = k then changes (ks.update key f).1 else []) := by
  rw [slot_update, update_fst]
  split
  · rename_i hk
    subst hk
    exact (hf _ _ (hks.live key)).filter _
  · rw [List.append_nil]
    exact hks k

theorem rename {source destination : Key} :
    let r := ks.withHeld [source, destination] (KeyCommand.renameHeld source destination)
    r.2.MadeBy ((KeyCommand.rename source destination).record r.1 h) := by
  intro r k
  have hheld : destination ∈ Held.ofKeys [source, destination] ks.live := Held.mem_ofKeys (by simp) _
  have hentry : ∀ j, ((Held.ofKeys [source, destination] ks.live).entry j).zset.Made (h j) := by
    intro j
    rw [Held.entry_ofKeys]
    split
    · exact hks.live j
    · exact .empty _
  have hout : r.1 = _ := withHeld_fst ks [source, destination] _
  have hslot : r.2.slot k = _ := slot_withHeld ks [source, destination] _ k
  have hchanges : (KeyCommand.rename source destination).changes r.1 = [] := rfl
  rw [hslot, KeyCommand.record, hchanges, ite_self, List.append_nil]
  cases hcase : r.1 with
  | error err =>
    have horigin : (KeyCommand.rename source destination).origin (.error err) k = k := rfl
    rw [KeyCommand.entry_renameHeld _ _ _ err (hout.symm.trans hcase), horigin]
    split
    · exact (hentry k).filter _
    · exact hks k
  | ok reply =>
    have horigin : (KeyCommand.rename source destination).origin (.ok reply) k =
        if destination = k then source else k := by simp [KeyCommand.origin, Except.isOk, Except.toBool]
    rw [horigin]
    by_cases hk : destination = k
    · -- what is there now was made under the source
      subst hk
      rw [if_pos rfl, if_pos (by simp), KeyCommand.entry_renameHeld_self hheld (hout.symm.trans hcase)]
      exact (hentry source).filter _
    · rw [if_neg hk, KeyCommand.entry_renameHeld_of_ne source destination _ hk]
      split
      · split
        · exact .empty _
        · exact (hentry k).filter _
      · exact hks k

end MadeBy

end Keyspace

namespace KeyCommand
open Keyspace
variable {h : Key → List Change} {ks : Keyspace}

theorem record_of_still {c : KeyCommand} {out : Outcome} (horigin : ∀ k, c.origin out k = k)
    (hchanges : c.changes out = []) : c.record out h = h := by
  funext k
  rw [record, horigin, hchanges, ite_self, List.append_nil]

theorem madeBy_of_edit {c : KeyCommand} {key : Key} {f : Slot → Outcome × Slot}
    (htask : c.task ks.clock = .edit key f) (hkeys : c.keys = [key]) (hf : MakesBy c.changes f)
    (horigin : ∀ out k, c.origin out k = k) (hks : ks.MadeBy h) :
    ((c.task ks.clock).run ks).2.MadeBy (c.record ((c.task ks.clock).run ks).1 h) := by
  intro k
  have hmade := hks.update hf key k
  have hmem : [key].contains k = true ↔ key = k := by rw [List.contains_iff_mem, List.mem_singleton, eq_comm]
  rw [htask, record, horigin, hkeys]
  simp only [hmem]
  exact hmade

/-- Commands on keys make sorted sets by the changes that they tell. -/
theorem madeBy_task (c : KeyCommand) (hks : ks.MadeBy h) :
    ((c.task ks.clock).run ks).2.MadeBy (c.record ((c.task ks.clock).run ks).1 h) := by
  have still : (∀ out k, c.origin out k = k) → (∀ out, c.changes out = []) →
      ((c.task ks.clock).run ks).2.MadeBy h →
      ((c.task ks.clock).run ks).2.MadeBy (c.record ((c.task ks.clock).run ks).1 h) := by
    intro horigin hchanges hmade
    rwa [record_of_still (horigin _) (hchanges _)]
  have edit := fun key f htask hkeys hf => @madeBy_of_edit h ks c key f htask hkeys hf
  have look := fun key f => hks.of_drops (ks.dropsSome_read key (f : Slot → Outcome))
  have lookEach := fun keys => hks.of_drops (dropsSome_readEach id keys ks)
  -- reads first, then the commands that write one slot, then those that hold several
  cases c with
  | get | ttl | lrange | lindex | llen | hget | hmget | hgetAll | hexists | hkeys | hlen | smembers
  | sisMember | scard | zrange | zrank | zscore | zrangeByScore | zcard | type =>
    exact still (fun _ _ => rfl) (fun _ => rfl) (look _ _)
  | mget | present => exact still (fun _ _ => rfl) (fun _ => rfl) (lookEach _)
  | del keys => exact still (fun _ _ => rfl) (fun _ => rfl) (hks.removeEach keys)
  | incrBy _ delta => exact edit _ _ rfl rfl (spares_incrSlot delta).makesBy (fun _ _ => rfl) hks
  | push _ values side onlyExisting =>
    exact edit _ _ rfl rfl (spares_pushSlot values side onlyExisting).makesBy (fun _ _ => rfl) hks
  | pop => exact edit _ _ rfl rfl (Shape.list_unranked.alter _ _).makesBy (fun _ _ => rfl) hks
  | persist => exact edit _ _ rfl rfl spares_persistSlot.makesBy (fun _ _ => rfl) hks
  | hset | hincrBy =>
    exact edit _ _ rfl rfl (Shape.hash_unranked.grow _).makesBy (fun _ _ => rfl) hks
  | hdel => exact edit _ _ rfl rfl (Shape.hash_unranked.alter _ _).makesBy (fun _ _ => rfl) hks
  | sadd => exact edit _ _ rfl rfl (Shape.set_unranked.grow _).makesBy (fun _ _ => rfl) hks
  | srem => exact edit _ _ rfl rfl (Shape.set_unranked.alter _ _).makesBy (fun _ _ => rfl) hks
  | zadd key members => exact edit _ _ rfl rfl (makesBy_zadd key members) (fun _ _ => rfl) hks
  | zrem key members => exact edit _ _ rfl rfl (makesBy_zrem key members) (fun _ _ => rfl) hks
  | zincrBy key delta member =>
    exact edit _ _ rfl rfl (makesBy_zincrBy key delta member) (fun _ _ => rfl) hks
  | set key value o =>
    rcases setTask_cases ks.clock key value o with htask | ⟨expiry, htask⟩
    · refine still (fun _ _ => rfl) (fun _ => rfl) ?_
      rwa [task, htask]
    · exact edit _ _ htask rfl (spares_setSlot value o expiry).makesBy (fun _ _ => rfl) hks
  | expire key millis =>
    rcases expireTask_cases ks.clock key millis with htask | ⟨at', htask⟩
    · refine still (fun _ _ => rfl) (fun _ => rfl) ?_
      rwa [task, htask]
    · exact edit _ _ htask rfl (spares_expireSlot at').makesBy (fun _ _ => rfl) hks
  | combine op keys =>
    refine still (fun _ _ => rfl) (fun _ => rfl) fun k => ?_
    simp only [task, Task.run, slot_withHeld]
    split
    · rename_i hk
      rw [combineHeld, Held.entry_ofKeys_of_mem hk]
      exact (hks.live k).filter _
    · exact hks k
  | rename source destination =>
    by_cases hsame : source = destination
    · refine still (fun out k => ?_) (fun _ => rfl) ?_
      · cases out with
        | error err => rfl
        | ok r =>
          rw [origin, hsame]
          split <;> simp_all
      · rw [task, if_pos hsame]
        exact look _ _
    · rw [task, if_neg hsame]
      exact hks.rename

end KeyCommand

def Command.record : Command → Outcome → (Key → List Change) → Key → List Change
  | onKeys c, out, h => c.record out h
  | onServer _, _, h => h

/-- The changes that some commands made to what is under each key, through all the keys where it was kept. -/
def Executed.history (xs : List Executed) : Key → List Change :=
  xs.foldl (fun h x => x.command.record x.outcome h) fun _ => []

theorem Executed.history_append (xs : List Executed) (x : Executed) :
    history (xs ++ [x]) = x.command.record x.outcome (history xs) := by
  rw [history, List.foldl_append]
  rfl

def Event.writesDirectly : Event → Bool
  | direct c => !c.written.isEmpty
  | _ => false

namespace Keyspace.MadeBy
variable {h : Key → List Change} {ks : Keyspace} (hks : ks.MadeBy h)
include hks

theorem after {c : KeyspaceCall} (hc : c.written = []) : (ks.after c).MadeBy h := by
  cases c with
  | get key => exact hks.of_drops (ks.dropsSome_read key id)
  | remove key => exact hks.remove key
  | flush => exact ks.madeBy_flush h
  | scan cursor count filter => exact hks.of_drops (ks.dropsSome_scan cursor count filter)
  | expireIfDue key => exact hks.of_drops (ks.dropsSome_expireIfDue key)
  | sweep sampler => exact hks.of_drops (ks.dropsSome_sweep sampler)
  | withHeld keys f =>
    intro k
    have hslot := ks.slot_withHeld keys (fun h => ((), f h)) k
    rw [show keys = [] from hc, if_neg List.not_mem_nil] at hslot
    rw [Keyspace.after, show keys = [] from hc, hslot]
    exact hks k
  | set | update => cases hc

end Keyspace.MadeBy

namespace Engine
open Executed

theorem madeBy_execute {e : Engine Q} {h : Key → List Change} (he : e.keyspace.MadeBy h) (c : Command)
    (nanos : Nat) :
    (e.execute c nanos).2.keyspace.MadeBy (c.record (e.execute c nanos).1 h) := by
  cases c with
  | onKeys c => exact c.madeBy_task he
  | onServer c =>
    rw [e.keyspace_execute_onServer c nanos]
    rcases e.keyspace_serve c with ⟨-, hflush⟩ | ⟨cursor, count, filter, hscan⟩ | hsame
    · rw [hflush]
      exact e.keyspace.madeBy_flush h
    · rw [hscan]
      exact he.of_drops (e.keyspace.dropsSome_scan cursor count filter)
    · rw [hsame]
      exact he

/-- In a run in which only commands write, the commands made the sorted sets. -/
theorem madeBy_run (config : Config) (base : Base Q) (evs : List Event)
    (hevs : ∀ step ∈ stepwise evs, step.writesDirectly = false) :
    ((new config base).run evs).keyspace.MadeBy
      (history (ofAnswers ((new config base).transcript evs))) := by
  refine run_keeps_transcript_of_steps (P := fun e as => e.keyspace.MadeBy (history (ofAnswers as)))
    (q := fun step => step.writesDirectly = false) ?_ ?_ ?_ evs hevs _ [] (Keyspace.madeBy_new _ _ _)
  · intro e as c nanos _ he
    rw [ofAnswers_append_ok, history_append]
    exact madeBy_execute he c nanos
  · intro e as err he
    rw [ofAnswers_append_error]
    exact he
  · intro e as ev hstep hev hq he
    cases ev with
    | execute c nanos => exact absurd rfl (hev c nanos)
    | direct c => exact he.after (by simpa [Event.writesDirectly] using hq)
    | advance millis => exact he
    | join => exact he
    | handle id c => exact he
    | call words nanos => cases hstep
    | batch b nanos => cases hstep

end Engine
end KeyStore
