import KeyStore.Proofs.Lifetimes

/-! Times left. A client is told the time that an entry has left, or one of two numbers that stand for no
entry and for one that does not expire. What is told is right just when the time left fits the word in which
it is worked out; so it is right in each run that gives no lifetime beyond that word. -/
namespace KeyStore

theorem Clock.eq_of_after? {c : Clock} {millis at' : Nat} (h : c.after? millis = some at') :
    at' = c.now + millis := by
  rw [after?] at h
  split at h
  · exact (Option.some.inj h).symm
  · cases h

/-- A count of the unit tells some milliseconds: exactly, or to the nearest second with halves going up. -/
def TimeUnit.Tells : TimeUnit → Nat → Int → Prop
  | millis, left, n => n = left
  | seconds, left, n => 0 ≤ n ∧ 1000 * n ≤ left + 500 ∧ left + 500 < 1000 * (n + 1)

/-- The milliseconds fit the word in which the count is worked out. -/
def TimeUnit.Fits : TimeUnit → Nat → Prop
  | millis, left => left ≤ 0x7fffffffffffffff
  | seconds, left => left + 500 ≤ 0x7fffffffffffffff

theorem TimeUnit.Fits.of_le {unit : TimeUnit} {left limit : Nat} (h : unit.Fits limit)
    (hle : left ≤ limit) : unit.Fits left := by
  cases unit with
  | millis => exact Nat.le_trans hle h
  | seconds => exact Nat.le_trans (Nat.add_le_add_right hle 500) h

theorem Entry.timeLeft_of_lasting {e : Entry} (h : e.expiresAt = none) (now : Instant)
    (unit : TimeUnit) : (e.timeLeft now unit).toInt = -1 := by
  cases unit <;> simp [timeLeft, millisLeft, h]

/-- A word that wrapped around is not near the number that it stands for. -/
theorem le_of_near {n : Nat} (hnonneg : 0 ≤ (Int64.ofNat n).toInt.tdiv 1000)
    (hnear : n < 1000 * ((Int64.ofNat n).toInt.tdiv 1000 + 1)) : n ≤ 0x7fffffffffffffff := by
  have hmax := Int64.toInt_lt (Int64.ofNat n)
  have hwraps : ∃ j : Int, n = (Int64.ofNat n).toInt + 0x10000000000000000 * j := by
    refine ⟨(n : Int).bdiv Int64.size, ?_⟩
    rw [Int64.toInt_ofNat']
    exact (Int.bmod_add_bdiv _ _).symm
  obtain ⟨j, hj⟩ := hwraps
  generalize (Int64.ofNat n).toInt = w at *
  rcases Int.le_total 0 w with hpos | hneg
  · rw [Int.tdiv_eq_ediv_of_nonneg hpos] at hnear
    omega
  · have hcount : w.tdiv 1000 ≤ 0 := by
      rw [← Int.neg_neg w, Int.neg_tdiv, Int.tdiv_eq_ediv_of_nonneg (by omega)]
      omega
    omega

namespace Entry

theorem timeLeft_millis {e : Entry} {at' : Instant} (h : e.expiresAt = some at') (now : Instant) :
    (e.timeLeft now .millis).toInt = (Int64.ofNat (at' - now)).toInt := by
  simp only [timeLeft, millisLeft, h]

theorem timeLeft_seconds {e : Entry} {at' : Instant} (h : e.expiresAt = some at') (now : Instant) :
    (e.timeLeft now .seconds).toInt = (Int64.ofNat (at' - now + 500)).toInt.tdiv 1000 := by
  simp only [timeLeft, millisLeft, h, Option.isNone_some, Bool.false_eq_true, if_false]
  rw [Int64.toInt_div_of_ne_right _ _ (by decide), Int64.ofNat_add]
  rfl

/-- The time left is told right if it fits, and only then. -/
theorem tells_timeLeft_iff {e : Entry} {at' : Instant} (h : e.expiresAt = some at') (now : Instant)
    (unit : TimeUnit) :
    unit.Tells (at' - now) (e.timeLeft now unit).toInt ↔ unit.Fits (at' - now) := by
  cases unit with
  | millis =>
    rw [timeLeft_millis h]
    constructor
    · intro htells
      have hmax := Int64.toInt_lt (Int64.ofNat (at' - now))
      rw [show (Int64.ofNat (at' - now)).toInt = (at' - now : Nat) from htells] at hmax
      exact Nat.le_of_lt_succ (Int.ofNat_lt.mp hmax)
    · intro hfits
      exact Int64.toInt_ofNat_of_lt (Nat.lt_succ_of_le hfits)
  | seconds =>
    rw [timeLeft_seconds h]
    constructor
    · rintro ⟨hnonneg, -, hless⟩
      exact le_of_near hnonneg hless
    · intro hfits
      have hword : (Int64.ofNat (at' - now + 500)).toInt = (at' - now + 500 : Nat) :=
        Int64.toInt_ofNat_of_lt (Nat.lt_succ_of_le hfits)
      have hcount : ((at' - now + 500 : Nat) : Int).tdiv 1000 = ((at' - now + 500) / 1000 : Nat) :=
        (Int.ofNat_tdiv _ _).symm
      rw [hword, hcount]
      refine ⟨Int.natCast_nonneg _, ?_, ?_⟩ <;> omega

end Entry

theorem TimeUnit.Tells.nonneg {unit : TimeUnit} {left : Nat} {n : Int} (h : unit.Tells left n) : 0 ≤ n := by
  cases unit with
  | millis =>
    have hn : n = left := h
    omega
  | seconds => exact h.1

namespace Slot

/-- The number that a client is told: `-2` if nothing is there. -/
def timeLeft (s : Slot) (now : Instant) (unit : TimeUnit) : Int :=
  match s with
  | none => -2
  | some e => (e.timeLeft now unit).toInt

def LeftFits (s : Slot) (now : Instant) (unit : TimeUnit) : Prop :=
  ∀ e at', s = some e → e.expiresAt = some at' → unit.Fits (at' - now)

/-- A number tells what a slot has left: it is `-2` just when nothing is there, `-1` just when the entry
does not expire, and otherwise a count of the time left, of which there is some. -/
structure Told (s : Slot) (now : Instant) (unit : TimeUnit) (n : Int) : Prop where
  absent : n = -2 ↔ s = none
  lasting : n = -1 ↔ ∃ e, s = some e ∧ e.expiresAt = none
  expiring : ∀ e at', s = some e → e.expiresAt = some at' → now < at' ∧ unit.Tells (at' - now) n

theorem told_live (s : Slot) (now : Instant) (unit : TimeUnit) (hfits : (s.live now).LeftFits now unit) :
    (s.live now).Told now unit ((s.live now).timeLeft now unit) := by
  cases hs : s.live now with
  | none => exact ⟨iff_of_true rfl rfl, by simp [timeLeft], fun e at' he => by cases he⟩
  | some e =>
    have honly : ∀ e', some e = some e' → e' = e := fun e' he => (Option.some.inj he).symm
    cases hx : e.expiresAt with
    | none =>
      have hn : timeLeft (some e) now unit = -1 := e.timeLeft_of_lasting hx now unit
      rw [hn]
      refine ⟨by simp, iff_of_true rfl ⟨e, rfl, hx⟩, fun e' at' he hat => ?_⟩
      rw [honly e' he, hx] at hat
      cases hat
    | some at' =>
      have htells : unit.Tells (at' - now) (timeLeft (some e) now unit) :=
        (Entry.tells_timeLeft_iff hx now unit).mpr (hfits e at' hs hx)
      have hnonneg := htells.nonneg
      have hlater : now < at' := by
        have hnotdue : e.isDue now = false := by simpa using (Option.filter_eq_some_iff.mp hs).2
        simpa [Entry.isDue, hx] using hnotdue
      refine ⟨iff_of_false (by omega) (by simp), iff_of_false (by omega) (by simp [hx]), ?_⟩
      intro e' t he ht
      rw [honly e' he, hx] at ht
      rw [← Option.some.inj ht]
      exact ⟨hlater, htells⟩

theorem told_live_iff (s : Slot) (now : Instant) (unit : TimeUnit) :
    (s.live now).Told now unit ((s.live now).timeLeft now unit) ↔ (s.live now).LeftFits now unit := by
  refine ⟨fun told e at' he hat => ?_, s.told_live now unit⟩
  obtain ⟨-, htells⟩ := told.expiring e at' he hat
  rw [he] at htells
  exact (Entry.tells_timeLeft_iff hat now unit).mp htells

def ExpiresBy (t : Instant) (s : Slot) : Prop :=
  ∀ e at', s = some e → e.expiresAt = some at' → at' ≤ t

theorem expiresBy_none (t : Instant) : ExpiresBy t none := fun _ _ he => by cases he

theorem ExpiresBy.mono {t t' : Instant} {s : Slot} (h : s.ExpiresBy t) (hle : t ≤ t') : s.ExpiresBy t' :=
  fun e at' he hat => Nat.le_trans (h e at' he hat) hle

theorem ExpiresBy.filter {t : Instant} {s : Slot} (h : s.ExpiresBy t) (p : Entry → Bool) :
    ExpiresBy t (Option.filter p s) :=
  fun e at' he hat => h e at' (Option.filter_eq_some_iff.mp he).1 hat

end Slot

/-- A body that leaves the expiry of the entry that it finds, and gives none to an entry that it makes. -/
def KeepsExpiry (f : Slot → α × Slot) : Prop :=
  ∀ s e, (f s).2 = some e → e.expiresAt = s.bind (·.expiresAt)

/-- A body that leaves an expiry later than an instant only where it finds one. -/
def WritesBy (t : Instant) (f : Slot → α × Slot) : Prop := ∀ s : Slot, s.ExpiresBy t → (f s).2.ExpiresBy t

theorem KeepsExpiry.writesBy {f : Slot → α × Slot} (h : KeepsExpiry f) (t : Instant) : WritesBy t f := by
  intro s hs e at' he hat
  rw [h s e he] at hat
  obtain ⟨old, hold, hold'⟩ := Option.bind_eq_some_iff.mp hat
  exact hs old at' hold hold'

namespace Shape
variable {σ : Type} (shape : Shape σ)

theorem keepsExpiry_alter (missing : α) (f : σ → Except Error α × σ) :
    KeepsExpiry (shape.alter missing f) := by
  intro s e he
  cases s with
  | none => cases he
  | some old =>
    simp only [alter] at he
    split at he <;> rw [← Option.some.inj he] <;> rfl

theorem keepsExpiry_grow (f : σ → Except Error α × σ) : KeepsExpiry (shape.grow f) := by
  intro s e he
  have hold : (s.getD (.lasting (shape.wrap shape.fresh))).expiresAt = s.bind (·.expiresAt) := by
    cases s <;> rfl
  rw [← hold]
  simp only [grow] at he
  split at he <;> rw [← Option.some.inj he]

end Shape

namespace KeyCommand

theorem keepsExpiry_incrSlot (delta : Int64) : KeepsExpiry (incrSlot delta) := by
  intro s e he
  cases s with
  | none => rw [← Option.some.inj he]; rfl
  | some old => exact Shape.string.keepsExpiry_alter .nil _ (some old) e he

theorem keepsExpiry_pushSlot (values : List Bytes) (side : Side) (onlyExisting : Bool) :
    KeepsExpiry (pushSlot values side onlyExisting) := by
  intro s e he
  rw [pushSlot] at he
  split at he
  · rw [show s = some e from he]
    rfl
  · exact Shape.list.keepsExpiry_grow _ s e he

theorem writesBy_setSlot {t : Instant} (value : Bytes) (o : SetOptions) {expiry : Slot → Option Instant}
    (h : ∀ s : Slot, s.ExpiresBy t → ∀ at', expiry s = some at' → at' ≤ t) :
    WritesBy t (setSlot value o expiry) := by
  intro s hs
  rw [setSlot]
  split
  · exact hs
  · dsimp only
    split
    · intro e at' he hat
      rw [← Option.some.inj he] at hat
      exact h s hs at' hat
    · exact hs

theorem writesBy_expireSlot {t : Instant} {at' : Option Instant} (h : ∀ x, at' = some x → x ≤ t) :
    WritesBy t (expireSlot at') := by
  intro s _ e x he hx
  cases s with
  | none => cases he
  | some old =>
    obtain ⟨y, hy, rfl⟩ := Option.map_eq_some_iff.mp he
    rw [← Option.some.inj hx]
    exact h y hy

theorem writesBy_persistSlot (t : Instant) : WritesBy t persistSlot := by
  intro s hs
  cases s with
  | none => exact hs
  | some old =>
    rw [persistSlot]
    split
    · intro e at' he hat
      rw [← Option.some.inj he] at hat
      cases hat
    · exact hs

def lifetime? : KeyCommand → Option Nat
  | set _ _ o =>
    match o.expiry with
    | .after millis => some millis
    | _ => none
  | expire _ millis => some millis.toInt.toNat
  | _ => none

/-- The key whose expiry a command is there to set. -/
def retimes : KeyCommand → Option Key
  | set key .. | expire key _ | persist key | rename _ key => some key
  | _ => none

theorem keepsExpiry_of_edit {clock : Clock} {c : KeyCommand} {key : Key}
    {f : Slot → Except Error Reply × Slot} (hkeeps : c.retimes = none)
    (htask : c.task clock = .edit key f) : KeepsExpiry f := by
  cases c with
  | set | expire | persist | rename => cases hkeeps
  | incrBy _ delta =>
    cases htask
    exact keepsExpiry_incrSlot delta
  | push _ values side onlyExisting =>
    cases htask
    exact keepsExpiry_pushSlot values side onlyExisting
  | pop | hdel | srem | zrem =>
    cases htask
    exact Shape.keepsExpiry_alter _ _ _
  | hset | hincrBy | sadd | zadd | zincrBy =>
    cases htask
    exact Shape.keepsExpiry_grow _ _
  | _ => cases htask

end KeyCommand

def Task.WritesBy (t : Instant) : Task → Prop
  | edit _ f => KeyStore.WritesBy t f
  | together _ f =>
    ∀ h : Held, (∀ k, (h.entry k).ExpiresBy t) → ∀ k, ((f h).2.entry k).ExpiresBy t
  | _ => True

theorem Task.WritesBy.meaning {t : Instant} {task : Task} (ht : task.WritesBy t) (now : Instant)
    {v : View} (hv : ∀ k, (v k).ExpiresBy t) (k : Key) : ((task.meaning now v).2 k).ExpiresBy t := by
  cases task with
  | edit key f =>
    simp only [Task.meaning, View.write]
    split
    · exact ((ht (v key) (hv key)).filter _).filter _
    · exact hv k
  | removeEach keys =>
    simp only [Task.meaning, View.removeEach_snd]
    split
    · exact Slot.expiresBy_none t
    · exact hv k
  | together keys f =>
    have hheld : ∀ j, ((Held.ofKeys keys v).entry j).ExpiresBy t := by
      intro j
      rw [Held.entry_ofKeys]
      split
      · exact hv j
      · exact Slot.expiresBy_none t
    simp only [Task.meaning]
    split
    · exact ((ht _ hheld k).filter _).filter _
    · exact hv k
  | _ => exact hv k

namespace KeyCommand

theorem renameHeld_writesBy (t : Instant) (source destination : Key) (h : Held)
    (hh : ∀ k, (h.entry k).ExpiresBy t) (k : Key) :
    ((renameHeld source destination h).2.entry k).ExpiresBy t := by
  have htaken : ∀ j, ((h.take source).2.entry j).ExpiresBy t := by
    intro j
    rw [Held.entry_take]
    split
    · exact Slot.expiresBy_none t
    · exact hh j
  rw [renameHeld]
  split
  · rename_i held htake
    rw [htake] at htaken
    exact htaken k
  · rename_i e held htake
    have he : h.entry source = some e := by rw [← Held.take_fst, htake]
    rw [htake] at htaken
    dsimp only
    rw [Held.entry_put]
    split
    · exact he ▸ hh source
    · exact htaken k

theorem writesBy_task {clock : Clock} {t : Instant} (c : KeyCommand)
    (h : ∀ millis, c.lifetime? = some millis → clock.now + millis ≤ t) : (c.task clock).WritesBy t := by
  have hkeeps := @keepsExpiry_of_edit clock c
  cases c with
  | set key value o =>
    simp only [task, setTask]
    split
    · exact writesBy_setSlot value o fun _ _ _ hat => by cases hat
    · refine writesBy_setSlot value o fun s hs at' hat => ?_
      obtain ⟨old, hold, hold'⟩ := Option.bind_eq_some_iff.mp hat
      exact hs old at' hold hold'
    · rename_i millis hexpiry
      split
      · rename_i at' hafter
        refine writesBy_setSlot value o fun _ _ x hx => ?_
        rw [← Option.some.inj hx, Clock.eq_of_after? hafter]
        exact h millis (by simp [lifetime?, hexpiry])
      · trivial
  | expire key millis =>
    simp only [task, expireTask]
    split
    · exact writesBy_expireSlot fun x hx => by cases hx
    · split
      · rename_i at' hafter
        refine writesBy_expireSlot fun x hx => ?_
        rw [← Option.some.inj hx, Clock.eq_of_after? hafter]
        exact h _ rfl
      · trivial
  | persist key => exact writesBy_persistSlot t
  | incrBy | push | pop | hset | hincrBy | hdel | sadd | srem | zadd | zrem | zincrBy =>
    exact (hkeeps rfl rfl).writesBy t
  | combine op keys => exact fun _ hh => hh
  | rename source destination =>
    simp only [task]
    split
    · trivial
    · exact renameHeld_writesBy t source destination
  | _ => trivial

end KeyCommand

def Command.lifetime? : Command → Option Nat
  | onKeys c => c.lifetime?
  | onServer _ => none

/-- Whether a direct call can write no entry that expires. -/
def KeyspaceCall.writesLasting : KeyspaceCall → Bool
  | set _ _ expiresAt => expiresAt.isNone
  | update .. | withHeld .. => false
  | get _ | remove _ | flush | scan .. | expireIfDue _ | sweep _ => true

/-- Whether a step gives no lifetime above a limit. Words and batches are to be taken apart first. -/
def Event.givesUpTo (limit : Nat) : Event → Bool
  | execute c _ => c.lifetime?.all (· ≤ limit)
  | direct c => c.writesLasting
  | advance _ | join | handle .. => true
  | call .. | batch .. => false

/-- No live entry has more than some milliseconds left. -/
def Keyspace.LeftUpTo (limit : Nat) (ks : Keyspace) : Prop :=
  ∀ k, (ks.live k).ExpiresBy (ks.now + limit)

namespace Keyspace
variable {ks : Keyspace} {limit : Nat}

theorem leftUpTo_of_now_eq {ks' : Keyspace} (hnow : ks'.now = ks.now)
    (hlive : ∀ k, (ks'.live k).ExpiresBy (ks.now + limit)) : ks'.LeftUpTo limit := by
  intro k
  rw [hnow]
  exact hlive k

theorem LeftUpTo.advance (h : ks.LeftUpTo limit) {millis : UInt64}
    (hfits : ks.now + millis.toNat < UInt64.size) : (ks.advance millis).LeftUpTo limit := by
  have hlater : ks.now ≤ (ks.advance millis).now := by
    rw [ks.now_advance millis hfits]
    exact Nat.le_add_right ..
  intro k
  have hlive : (ks.advance millis).live k = (ks.live k).live (ks.advance millis).now :=
    (Slot.live_live_of_le (ks.slot k) hlater).symm
  rw [hlive]
  exact ((h k).filter _).mono (Nat.add_le_add_right hlater limit)

theorem LeftUpTo.after (h : ks.LeftUpTo limit) {c : KeyspaceCall} (hc : c.writesLasting = true) :
    (ks.after c).LeftUpTo limit := by
  have hnow : (ks.after c).now = ks.now :=
    (lasting_frame Keyspace.now (fun _ _ hc _ => congrArg Clock.now hc) _).after ks c rfl
  refine leftUpTo_of_now_eq hnow fun k => ?_
  -- for the calls that do no more than look
  have alike : Alike ks (ks.after c) → ((ks.after c).live k).ExpiresBy (ks.now + limit) := by
    intro hsame
    rw [← congrFun hsame.live k]
    exact h k
  cases c with
  | get key => exact alike (ks.alike_read key id)
  | scan cursor count filter => exact alike (ks.alike_scan cursor count filter)
  | expireIfDue key => exact alike (ks.alike_expireIfDue key)
  | sweep sampler => exact alike (ks.alike_sweep sampler)
  | flush =>
    rw [show (ks.after .flush).live k = none from congrFun ks.live_flush k]
    exact Slot.expiresBy_none _
  | remove key =>
    rw [show (ks.after (.remove key)).live k = _ from ks.live_remove key k]
    split
    · exact Slot.expiresBy_none _
    · exact h k
  | set key value expiresAt =>
    rw [show (ks.after (.set key value expiresAt)).live k = _ from ks.live_update key k _]
    split
    · refine Slot.ExpiresBy.filter (Slot.ExpiresBy.filter ?_ _) _
      intro e at' he hat
      rw [← Option.some.inj he] at hat
      rw [show expiresAt = none by simpa [KeyspaceCall.writesLasting] using hc] at hat
      cases hat
    · exact h k
  | update key f => cases hc
  | withHeld keys f => cases hc

end Keyspace

namespace Engine

theorem leftUpTo_execute (e : Engine Q) {limit : Nat} (he : e.keyspace.LeftUpTo limit) (c : Command)
    (nanos : Nat) (hc : c.lifetime?.all (· ≤ limit) = true) :
    (e.execute c nanos).2.keyspace.LeftUpTo limit := by
  refine Keyspace.leftUpTo_of_now_eq (e.now_execute c nanos) fun k => ?_
  cases c with
  | onKeys c =>
    have htask : (c.task e.keyspace.clock).WritesBy (e.keyspace.now + limit) := by
      refine c.writesBy_task fun millis hmillis => Nat.add_le_add_left ?_ _
      have hgiven : (KeyCommand.lifetime? c).all (· ≤ limit) = true := hc
      simpa [hmillis] using hgiven
    rw [(e.execute_onKeys c nanos).2]
    exact htask.meaning _ he k
  | onServer c =>
    by_cases hflush : c = .flushdb
    · subst hflush
      rw [show (e.execute (.onServer .flushdb) nanos).2.keyspace.live k = none from
        congrFun e.keyspace.live_flush k]
      exact Slot.expiresBy_none _
    · rw [show (e.execute (.onServer c) nanos).2.keyspace.live k = _ from
        congrFun (e.live_serve c hflush) k]
      exact he k

theorem leftUpTo_after (e : Engine Q) {limit : Nat} (he : e.keyspace.LeftUpTo limit) {step : Event}
    (h : step.givesUpTo limit = true) (hfits : e.keyspace.now + step.millis < UInt64.size) :
    (e.after step).keyspace.LeftUpTo limit := by
  cases step with
  | execute c nanos => exact e.leftUpTo_execute he c nanos h
  | advance millis => exact he.advance hfits
  | direct c => exact he.after h
  | join => exact he
  | handle id c => exact he
  | call words nanos => cases h
  | batch b nanos => cases h

/-- A run that gives no lifetime above a limit leaves no entry with more than that left. -/
theorem leftUpTo_run (e : Engine Q) {limit : Nat} (he : e.keyspace.LeftUpTo limit) (evs : List Event)
    (h : ∀ step ∈ stepwise evs, step.givesUpTo limit = true)
    (hfits : e.keyspace.now + elapsed evs < UInt64.size) : (e.run evs).keyspace.LeftUpTo limit :=
  run_keeps_of_fits (P := fun e' => e'.keyspace.LeftUpTo limit)
    (fun e' _ hstep hstepfits he' => e'.leftUpTo_after he' hstep hstepfits) evs e h hfits he

theorem leftUpTo_new (config : Config) (base : Base Q) (limit : Nat) :
    (new config base).keyspace.LeftUpTo limit := by
  intro k
  have hnone : (new config base).keyspace.live k = none := by
    simp [new, Keyspace.new, Keyspace.live, Keyspace.slot]
  rw [hnone]
  exact Slot.expiresBy_none _

theorem execute_ttl (e : Engine Q) (k : Key) (unit : TimeUnit) (nanos : Nat) :
    (e.execute (.onKeys (.ttl k unit)) nanos).1 =
      .ok (.integer ((e.keyspace.live k).timeLeft e.keyspace.now unit)) := by
  rw [(e.execute_onKeys (.ttl k unit) nanos).1]
  simp only [KeyCommand.task, Task.meaning]
  cases e.keyspace.live k <;> rfl

/-- The time left is told right. PTTL and TTL tell what a key has left just when the milliseconds fit the
word in which they are worked out; and in a run that gives no lifetime above a limit that fits, they do. -/
theorem time_left_told (unit : TimeUnit) :
    (∀ (e : Engine Q) (k : Key) (nanos : Nat), ∃ n,
      (e.execute (.onKeys (.ttl k unit)) nanos).1 = .ok (.integer n) ∧
      ((e.keyspace.live k).Told e.keyspace.now unit n ↔
        (e.keyspace.live k).LeftFits e.keyspace.now unit)) ∧
    ∀ (config : Config) (base : Base Q) (evs : List Event) (limit : Nat), unit.Fits limit →
      (∀ step ∈ stepwise evs, step.givesUpTo limit = true) → elapsed evs < UInt64.size →
      let e := (new config base).run evs
      ∀ (k : Key) (nanos : Nat), ∃ n, (e.execute (.onKeys (.ttl k unit)) nanos).1 = .ok (.integer n) ∧
        (e.keyspace.live k).Told e.keyspace.now unit n := by
  refine ⟨fun e k nanos => ?_, ?_⟩
  · exact ⟨_, e.execute_ttl k unit nanos, (e.keyspace.slot k).told_live_iff e.keyspace.now unit⟩
  intro config base evs limit hlimit hgives hfits e k nanos
  have hleft : e.keyspace.LeftUpTo limit :=
    leftUpTo_run _ (leftUpTo_new config base limit) evs hgives (by
      rw [show (new config base).keyspace.now = 0 from rfl, Nat.zero_add]
      exact hfits)
  refine ⟨_, e.execute_ttl k unit nanos, (e.keyspace.slot k).told_live e.keyspace.now unit ?_⟩
  intro entry at' hentry hat
  exact hlimit.of_le (Nat.sub_le_iff_le_add'.mpr (hleft k entry at' hentry hat))

/-- A hundred seconds, some of which have passed, and the longest lifetime that is told right in seconds. -/
theorem time_left_told_of_session :
    let evs : List Event := [
      .execute (.onKeys (.set [107] [118] { expiry := .after 100000 })) 0,
      .execute (.onKeys (.push [108] [[97]] .left false)) 0,
      .advance 1500,
      .execute (.onKeys (.expire [108] 9223372036854775307)) 0,
      .advance 1]
    let e := (new .default .standard).run evs
    (∃ n, (e.execute (.onKeys (.ttl [107] .millis)) 0).1 = .ok (.integer n) ∧
      (e.keyspace.live [107]).Told e.keyspace.now .millis n) ∧
    (∃ n, (e.execute (.onKeys (.ttl [108] .seconds)) 0).1 = .ok (.integer n) ∧
      (e.keyspace.live [108]).Told e.keyspace.now .seconds n) := by
  intro evs e
  have hfits : (e.keyspace.live [107]).LeftFits e.keyspace.now .millis := by
    intro entry at' hentry hat
    have hlive : e.keyspace.live [107] = some ⟨.string [118], some 100000⟩ := by decide
    rw [← Option.some.inj (hlive.symm.trans hentry)] at hat
    rw [← Option.some.inj hat]
    exact (by decide : 100000 - 1501 ≤ 0x7fffffffffffffff)
  obtain ⟨n, hreply, htold⟩ := (time_left_told .millis).1 e [107] 0
  refine ⟨⟨n, hreply, htold.mpr hfits⟩, ?_⟩
  exact (time_left_told .seconds).2 .default .standard evs 9223372036854775307
    (by decide : _ + 500 ≤ 0x7fffffffffffffff) (by decide) (by decide) [108] 0

/-- A lifetime in seconds may be too long to be told in milliseconds. The key is there, and PTTL tells
that it is not, and TTL that it is about to go. -/
theorem time_left_lost :
    let words := [[83, 69, 84], [107], [118], [69, 88],
      [49, 56, 52, 52, 54, 55, 52, 52, 48, 55, 51, 55, 48, 57, 53, 53, 50]]
    let e := (new .default .standard).run [.call words 0, .advance 386]
    Command.ofWords words =
        .ok (.onKeys (.set [107] [118] { expiry := .after 18446744073709552000 })) ∧
      (e.execute (.onKeys (.present [[107]])) 0).1 = .ok (.count 1) ∧
      (e.execute (.onKeys (.ttl [107] .millis)) 0).1 = .ok (.integer (-2)) ∧
      (e.execute (.onKeys (.ttl [107] .seconds)) 0).1 = .ok (.integer 0) ∧
      ¬ (e.keyspace.live [107]).Told e.keyspace.now .millis (-2) ∧
      ¬ (e.keyspace.live [107]).Told e.keyspace.now .seconds 0 := by
  intro words e
  have hlive : e.keyspace.live [107] = some ⟨.string [118], some 18446744073709552000⟩ := by decide
  have htold : ∀ (unit : TimeUnit) (n : Int),
      Slot.timeLeft (some ⟨.string [118], some 18446744073709552000⟩) e.keyspace.now unit = n →
      (e.execute (.onKeys (.ttl [107] unit)) 0).1 = .ok (.integer n) := by
    intro unit n hn
    rw [e.execute_ttl, hlive, hn]
  refine ⟨rfl, rfl, htold .millis _ (by decide), htold .seconds _ (by decide), fun told => ?_,
    fun told => ?_⟩
  · have hnone := told.absent.mp rfl
    rw [hlive] at hnone
    cases hnone
  · obtain ⟨-, -, -, hless⟩ := told.expiring _ _ hlive rfl
    exact absurd hless (by decide)

end Engine
end KeyStore
