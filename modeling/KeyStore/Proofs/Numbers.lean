import KeyStore.Proofs.Changes

/-! Numbers. A NaN is not understood as a score, and an increment that comes to one fails; so no command that
words make brings a NaN into a sorted set, and the commands of a run make sorted sets of numbers. -/
namespace KeyStore

/-- What comes out, unless it fails, has a property. -/
def Yields (p : α → Prop) (r : Except Error α) : Prop := ∀ a, r = .ok a → p a

namespace Yields
variable {p : α → Prop} {q : β → Prop} {r : Except Error α}

theorem ok {a : α} (h : p a) : Yields p (.ok a) := fun _ ha => Except.ok.inj ha ▸ h

theorem error (err : Error) : Yields p (.error err) := nofun

theorem any (r : Except Error α) : Yields (fun _ => True) r := fun _ _ => trivial

theorem bind {f : α → Except Error β} (hr : Yields p r) (hf : ∀ a, p a → Yields q (f a)) :
    Yields q (r >>= f) := by
  cases r with
  | error err => exact .error err
  | ok a => exact hf a (hr a rfl)

theorem map {f : α → β} (hr : Yields p r) (hf : ∀ a, p a → q (f a)) : Yields q (r.map f) := by
  cases r with
  | error err => exact .error err
  | ok a => exact .ok (hf a (hr a rfl))

end Yields

def KeyCommand.bringsNaN : KeyCommand → Bool
  | zadd _ members => members.any fun p => p.1.isNaN
  | _ => false

def Command.bringsNaN : Command → Bool
  | onKeys c => c.bringsNaN
  | onServer _ => false

namespace Grammar
open Arguments

def Numeric (f : List Bytes → Except Error Command) : Prop :=
  ∀ words, Yields (fun c => c.bringsNaN = false) (f words)

abbrev NumericOnKeys (r : Except Error KeyCommand) : Prop := Yields (fun c => c.bringsNaN = false) r

theorem numeric_one {f : Bytes → Except Error KeyCommand} (command : String)
    (hf : ∀ a, NumericOnKeys (f a)) : Numeric (one command f) := by
  intro words
  unfold one
  split
  · exact (hf _).map fun _ h => h
  · exact .error _

theorem numeric_two {f : Bytes → Bytes → Except Error KeyCommand} (command : String)
    (hf : ∀ a b, NumericOnKeys (f a b)) : Numeric (two command f) := by
  intro words
  unfold two
  split
  · exact (hf _ _).map fun _ h => h
  · exact .error _

theorem numeric_three {f : Bytes → Bytes → Bytes → Except Error KeyCommand} (command : String)
    (hf : ∀ a b c, NumericOnKeys (f a b c)) : Numeric (three command f) := by
  intro words
  unfold three
  split
  · exact (hf _ _ _).map fun _ h => h
  · exact .error _

theorem numeric_some1 {f : List Bytes → Except Error KeyCommand} (command : String)
    (hf : ∀ as, NumericOnKeys (f as)) : Numeric (some1 command f) := by
  intro words
  unfold some1
  split
  · exact .error _
  · exact (hf _).map fun _ h => h

theorem numeric_some2 {f : Bytes → List Bytes → Except Error KeyCommand} (command : String)
    (hf : ∀ a as, NumericOnKeys (f a as)) : Numeric (some2 command f) := by
  intro words
  unfold some2
  split
  · exact (hf _ _).map fun _ h => h
  · exact .error _

theorem numeric_somePairs {f : Bytes → List (Bytes × Bytes) → Except Error KeyCommand} (command : String)
    (hf : ∀ a ps, NumericOnKeys (f a ps)) : Numeric (somePairs command f) := by
  intro words
  unfold somePairs
  split
  · split
    · exact (hf _ _).map fun _ h => h
    · exact .error _
  · exact .error _

theorem double_isNumber (arg : Bytes) : Yields (fun x => x.isNaN = false) (double arg) := by
  rw [double]
  split
  · split
    · exact .error _
    · rename_i hnumber
      exact .ok ((Bool.not_eq_true _).mp hnumber)
  · exact .error _

theorem scoredMembers_areNumbers (pairs : List (Bytes × Bytes)) :
    Yields (fun members => members.any (fun p => p.1.isNaN) = false) (scoredMembers pairs) := by
  induction pairs with
  | nil => exact .ok rfl
  | cons p rest ih =>
    refine (double_isNumber p.1).bind fun x hx => ih.bind fun members hmembers => .ok ?_
    rw [List.any_cons, hx, hmembers]
    rfl

theorem numeric_set : Numeric set := by
  intro words
  unfold set
  split
  · exact (Yields.any _).map fun _ _ => rfl
  · exact .error _

theorem numeric_pop (command : String) (side : Side) : Numeric (pop command side) := by
  intro words
  unfold pop
  split
  · exact .ok rfl
  · exact (Yields.any _).map fun _ _ => rfl
  · exact .error _

theorem numeric_zrange (command : String) (mayReverse : Bool) : Numeric (zrange command mayReverse) := by
  intro words
  unfold zrange
  split
  · exact (Yields.any _).bind fun _ _ => (Yields.any _).bind fun _ _ => (Yields.any _).bind fun _ _ =>
      .ok rfl
  · exact .error _

theorem numeric_zrangeByScore : Numeric zrangeByScore := by
  intro words
  unfold zrangeByScore
  split
  · rename_i key low high options
    have hbounds : ∀ withScores, Yields (fun c : Command => c.bringsNaN = false) do
        return Command.onKeys (.zrangeByScore key (← double low) (← double high) withScores) :=
      fun _ => (Yields.any _).bind fun _ _ => (Yields.any _).bind fun _ _ => .ok rfl
    dsimp only
    split
    · exact hbounds _
    · split
      · exact hbounds _
      · exact .error _
    · exact .error _
  · exact .error _

theorem numeric_info : Numeric info := by
  intro words
  unfold info
  split
  · exact .ok rfl
  · exact .ok rfl
  · exact .error _

theorem numeric_ping : Numeric ping := by
  intro words
  unfold ping
  split
  · exact .ok rfl
  · exact .ok rfl
  · exact .error _

theorem numeric_bare (command : String) (c : ServerCommand) : Numeric (bare command c) := by
  intro words
  unfold bare
  split
  · exact .ok rfl
  · exact .error _

theorem numeric_config : Numeric config := by
  intro words
  unfold config
  split
  · exact .error _
  · dsimp only
    generalize capitals _ = sub
    repeat' split
    all_goals first
      | exact .error _
      | exact .ok rfl

theorem numeric_scan : Numeric scan := by
  intro words
  unfold scan
  split
  · exact .error _
  · exact (Yields.any _).bind fun _ _ => (Yields.any _).bind fun _ _ => .ok rfl

theorem numeric_publish : Numeric publish := by
  intro words
  unfold publish
  split
  · exact .ok rfl
  · exact .error _

theorem numeric_pubsub : Numeric pubsub := by
  intro words
  unfold pubsub
  split
  · exact .error _
  · dsimp only
    generalize capitals _ = sub
    repeat' split
    all_goals first
      | exact .error _
      | exact .ok rfl

theorem numeric_ofVerb (v : Verb) : Numeric (ofVerb v) := by
  unfold ofVerb
  cases v with
  | zadd =>
    refine numeric_somePairs _ fun key pairs => ?_
    exact (scoredMembers_areNumbers pairs).bind fun _ hmembers => .ok hmembers
  | get | incr | decr | ttl | pttl | persist | type | llen | hgetall | hkeys | hlen | smembers | scard
  | zcard => exact numeric_one _ fun _ => .ok rfl
  | rename | hget | hexists | sismember | zrank | zrevrank | zscore =>
    exact numeric_two _ fun _ _ => .ok rfl
  | incrby | expire | pexpire | lindex =>
    exact numeric_two _ fun _ _ => (Yields.any _).bind fun _ _ => .ok rfl
  | decrby =>
    exact numeric_two _ fun _ _ => (Yields.any _).bind fun _ _ => (Yields.any _).bind fun _ _ => .ok rfl
  | setex | psetex | hincrby | zincrby =>
    exact numeric_three _ fun _ _ _ => (Yields.any _).bind fun _ _ => .ok rfl
  | lrange =>
    exact numeric_three _ fun _ _ _ => (Yields.any _).bind fun _ _ => (Yields.any _).bind fun _ _ => .ok rfl
  | mget | present | del | unlink | sinter | sunion | sdiff =>
    exact numeric_some1 _ fun _ => .ok rfl
  | lpush | rpush | lpushx | rpushx | hmget | hdel | sadd | srem | zrem =>
    exact numeric_some2 _ fun _ _ => .ok rfl
  | hset | hmset =>
    exact numeric_somePairs _ fun _ _ => .ok rfl
  | set => exact numeric_set
  | lpop | rpop => exact numeric_pop _ _
  | zrange | zrevrange => exact numeric_zrange _ _
  | zrangebyscore => exact numeric_zrangeByScore
  | ping => exact numeric_ping
  | dbsize | flushdb => exact numeric_bare _ _
  | info => exact numeric_info
  | config => exact numeric_config
  | scan => exact numeric_scan
  | publish => exact numeric_publish
  | pubsub => exact numeric_pubsub
  | subscribe | unsubscribe | psubscribe | punsubscribe => exact fun _ => .error _

end Grammar

theorem Command.bringsNaN_ofWords (words : List Bytes) :
    Yields (fun c => c.bringsNaN = false) (Command.ofWords words) := by
  unfold ofWords
  split
  · exact .error _
  · split
    · exact Grammar.numeric_ofVerb _ _
    · exact .error _

/-- Whether an event may bring a score that is no number: a command that gives one, or a direct write, which
may bring anything. -/
def Event.bringsNaN : Event → Bool
  | execute c _ => c.bringsNaN
  | batch b _ => b.queued.toList.any fun c => c.toOption.any (·.bringsNaN)
  | direct c => !c.written.isEmpty
  | call .. | advance _ | join | handle .. => false

theorem Batch.bringsNaN_stepsFrom (nanos : Nat → Nat) {cs : List (Except Error Command)}
    (h : ∀ c ∈ cs, Yields (fun c => c.bringsNaN = false) c) (i : Nat) :
    ∀ step ∈ Batch.stepsFrom nanos i cs, step.bringsNaN = false := by
  induction cs generalizing i with
  | nil => exact fun _ hstep => by cases hstep
  | cons c cs ih =>
    obtain ⟨hc, hcs⟩ := List.forall_mem_cons.mp h
    cases c with
    | error err => exact ih hcs (i + 1)
    | ok c => exact List.forall_mem_cons.mpr ⟨hc c rfl, ih hcs (i + 1)⟩

theorem bringsNaN_stepwise {evs : List Event} (h : ∀ ev ∈ evs, ev.bringsNaN = false) :
    ∀ step ∈ stepwise evs, step.bringsNaN = false := by
  intro step hmem
  obtain ⟨ev, hev, hstep⟩ := List.mem_flatMap.mp hmem
  have hnone := h ev hev
  cases ev with
  | call words nanos =>
    refine Batch.bringsNaN_stepsFrom (fun _ => nanos) ?_ 0 step hstep
    exact List.forall_mem_singleton.mpr (Command.bringsNaN_ofWords words)
  | batch b nanos =>
    refine Batch.bringsNaN_stepsFrom nanos (fun c hc c' hok => ?_) 0 step hstep
    have hbatch := List.any_eq_false.mp hnone c hc
    simpa [hok, Except.toOption] using hbatch
  | _ =>
    rw [List.mem_singleton.mp hstep]
    exact hnone

def Numbers (cs : List Change) : Prop := ∀ m x, (m, some x) ∈ cs → x.isNaN = false

theorem Numbers.append {cs cs' : List Change} (h : Numbers cs) (h' : Numbers cs') :
    Numbers (cs ++ cs') := by
  intro m x hmem
  rcases List.mem_append.mp hmem with hfirst | hsecond
  · exact h m x hfirst
  · exact h' m x hsecond

theorem numbers_nil : Numbers [] := fun _ _ hmem => by cases hmem

theorem KeyCommand.isNaN_of_zincrBy {delta x : Double} {member : Bytes} {s : Slot}
    (hx : (Shape.zset.grow (fun z => let r := z.increment member delta; (r.1.map Reply.double, r.2)) s).1 =
      .ok (.double x)) : x.isNaN = false := by
  rw [Shape.grow] at hx
  split at hx
  · rename_i z _
    rcases z.increment_cases member delta with hfails | ⟨score, hnumber, hinserts⟩
    · simp [hfails, Except.map] at hx
    · simp only [hinserts, Except.map, Except.ok.injEq, Reply.double.injEq] at hx
      exact hx ▸ hnumber
  · cases hx

namespace Engine
open Executed

theorem numbers_changes (e : Engine Q) {c : KeyCommand} (hc : c.bringsNaN = false) (nanos : Nat) :
    Numbers (c.changes (e.execute (.onKeys c) nanos).1) := by
  have hout := (e.execute_onKeys c nanos).1
  generalize (e.execute (.onKeys c) nanos).1 = out at hout
  intro m x hmem
  cases c with
  | zadd key members =>
    cases out with
    | error err => cases hmem
    | ok r =>
      obtain ⟨p, hp, heq⟩ := List.mem_map.mp hmem
      cases heq
      exact (Bool.not_eq_true _).mp (List.any_eq_false.mp hc p hp)
  | zrem key members =>
    cases out with
    | error err => cases hmem
    | ok r =>
      obtain ⟨p, -, heq⟩ := List.mem_map.mp (show (m, some x) ∈ members.map fun m => (m, none) from hmem)
      cases heq
  | zincrBy key delta member =>
    obtain ⟨score, hscore, heq⟩ := List.mem_map.mp hmem
    cases heq
    obtain ⟨reply, hreply, hdouble⟩ := Option.bind_eq_some_iff.mp (Option.mem_toList.mp hscore)
    cases out with
    | error err => cases hreply
    | ok r =>
      cases hreply
      cases reply with
      | double x =>
        cases hdouble
        exact KeyCommand.isNaN_of_zincrBy hout.symm
      | _ => cases hdouble
  | _ => cases hmem

theorem numbers_history (config : Config) (base : Base Q) (evs : List Event)
    (hevs : ∀ ev ∈ evs, ev.bringsNaN = false) (k : Key) :
    Numbers (history (ofAnswers ((new config base).transcript evs)) k) := by
  revert k
  refine run_keeps_transcript_of_steps (P := fun _ as => ∀ k, Numbers (history (ofAnswers as) k))
    (q := fun step => step.bringsNaN = false) ?_ ?_ ?_ evs (bringsNaN_stepwise hevs) _ []
    (fun _ => numbers_nil)
  · intro e as c nanos hc h k
    rw [ofAnswers_append_ok, history_append]
    cases c with
    | onServer c => exact h k
    | onKeys c =>
      refine (h _).append ?_
      split
      · exact e.numbers_changes hc nanos
      · exact numbers_nil
  · intro e as err h
    rw [ofAnswers_append_error]
    exact h
  · exact fun _ _ _ _ _ _ h => h

end Engine
end KeyStore
