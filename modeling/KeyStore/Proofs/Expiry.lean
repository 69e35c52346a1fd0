import KeyStore.Proofs.Meaning
import KeyStore.Proofs.Run

/-! Expiry does not show. Engines in which the same is seen at the same time answer alike and stay
alike, whichever expired entries are still in their cells; to remove such an entry is a step that
leaves the engine alike, so it may be taken at any point of a run. -/
namespace KeyStore

/-- What has gone stays gone. -/
theorem Slot.live_live_of_le (s : Slot) {now later : Instant} (h : now ≤ later) :
    (s.live now).live later = s.live later := by
  cases s with
  | none => rfl
  | some e =>
    cases hd : e.isDue now with
    | false => rw [live_of_not_isDue hd]
    | true =>
      have hl : e.isDue later = true := by
        obtain ⟨t, ht, hle⟩ := (Option.any_eq_true ..).mp hd
        have hle' : t ≤ later := Nat.le_trans (of_decide_eq_true hle) h
        exact (Option.any_eq_true ..).mpr ⟨t, ht, decide_eq_true hle'⟩
      rw [live_of_isDue hd, live_of_isDue hl, live_none]

namespace Keyspace

/-- The same is seen in both keyspaces, and at the same time. -/
structure Alike (ks ks' : Keyspace) : Prop where
  clock : ks.clock = ks'.clock
  live : ks.live = ks'.live

namespace Alike
variable {a b c : Keyspace}

theorem refl (ks : Keyspace) : Alike ks ks := ⟨rfl, rfl⟩

theorem symm (h : Alike a b) : Alike b a := ⟨h.clock.symm, h.live.symm⟩

theorem trans (h : Alike a b) (h' : Alike b c) : Alike a c :=
  ⟨h.clock.trans h'.clock, h.live.trans h'.live⟩

theorem now (h : Alike a b) : a.now = b.now := congrArg Clock.now h.clock

end Alike

theorem alike_read (ks : Keyspace) (k : Key) (f : Slot → α) : Alike ks (ks.read k f).2 :=
  ⟨(still_read ks k f).clock.symm, funext fun j => (live_read ks k j f).symm⟩

theorem alike_expireIfDue (ks : Keyspace) (k : Key) : Alike ks (ks.expireIfDue k).2 :=
  ⟨(clock_hash_expireIfDue ks k).1.symm, funext fun j => (live_expireIfDue ks k j).symm⟩

theorem alike_scan (ks : Keyspace) (cursor : UInt64) (count : Nat) (filter : Key → Entry → Bool) :
    Alike ks (ks.scan cursor count filter).2 :=
  scan_keeps (fun ks' k f h => h.trans (alike_read ks' k f)) ks _ _ _ (.refl ks)

theorem alike_sweep (ks : Keyspace) (sampler : Sampler) : Alike ks (ks.sweep sampler).2 :=
  sweep_keeps (fun ks' k h => h.trans (alike_expireIfDue ks' k)) ks sampler (.refl ks)

namespace Alike
variable {a b : Keyspace}

theorem run (h : Alike a b) (t : Task) :
    (t.run a).1 = (t.run b).1 ∧ Alike (t.run a).2 (t.run b).2 := by
  have hclock := fun c : Keyspace =>
    (lasting_frame Keyspace.clock (fun _ _ hc _ => hc) c.clock).run t c rfl
  obtain ⟨houta, hlivea⟩ := t.run_meaning a
  obtain ⟨houtb, hliveb⟩ := t.run_meaning b
  rw [h.now, h.live] at houta hlivea
  refine ⟨houta.trans houtb.symm, ?_, hlivea.trans hliveb.symm⟩
  rw [hclock, hclock, h.clock]

theorem update (h : Alike a b) (k : Key) (f : Slot → α × Slot) :
    Alike (a.update k f).2 (b.update k f).2 := by
  refine ⟨?_, funext fun j => ?_⟩
  · rw [(still_update a k f).clock, (still_update b k f).clock, h.clock]
  · rw [live_update, live_update, h.live, h.now]

theorem remove (h : Alike a b) (k : Key) : Alike (a.remove k).2 (b.remove k).2 := by
  refine ⟨?_, funext fun j => ?_⟩
  · rw [(still_remove a k).clock, (still_remove b k).clock, h.clock]
  · rw [live_remove, live_remove, h.live]

theorem withHeld (h : Alike a b) (keys : List Key) (f : Held → α × Held) :
    Alike (a.withHeld keys f).2 (b.withHeld keys f).2 := by
  refine ⟨?_, funext fun j => ?_⟩
  · rw [(still_withHeld a keys f).clock, (still_withHeld b keys f).clock, h.clock]
  · rw [live_withHeld, live_withHeld, h.live, h.now]

theorem flush (h : Alike a b) : Alike a.flush.2 b.flush.2 :=
  ⟨h.clock, (live_flush a).trans (live_flush b).symm⟩

theorem after (h : Alike a b) (c : KeyspaceCall) : Alike (a.after c) (b.after c) := by
  have hsame : ∀ {a' b' : Keyspace}, Alike a a' → Alike b b' → Alike a' b' :=
    fun ha hb => ha.symm.trans (h.trans hb)
  cases c with
  | get key => exact hsame (alike_read a key id) (alike_read b key id)
  | set key value expiresAt => exact h.update key _
  | update key f => exact h.update key _
  | remove key => exact h.remove key
  | flush => exact h.flush
  | scan cursor count filter =>
    exact hsame (alike_scan a cursor count filter) (alike_scan b cursor count filter)
  | withHeld keys f => exact h.withHeld keys _
  | expireIfDue key => exact hsame (alike_expireIfDue a key) (alike_expireIfDue b key)
  | sweep sampler => exact hsame (alike_sweep a sampler) (alike_sweep b sampler)

/-- Time that passes without wrapping the clock keeps keyspaces alike. -/
theorem advance (h : Alike a b) (millis : UInt64) (hfits : a.now + millis.toNat < UInt64.size) :
    Alike (a.advance millis) (b.advance millis) := by
  have hlater : ∀ c : Keyspace, c.now = a.now → c.now ≤ (c.advance millis).now := by
    intro c hc
    rw [c.now_advance millis (by rw [hc]; exact hfits)]
    exact Nat.le_add_right ..
  have hnow : (a.advance millis).now = (b.advance millis).now :=
    congrArg (fun c => (c.advance millis).now) h.clock
  refine ⟨congrArg (·.advance millis) h.clock, funext fun k => ?_⟩
  have ha := Slot.live_live_of_le (a.slot k) (hlater a rfl)
  have hb := Slot.live_live_of_le (b.slot k) (hlater b h.now.symm)
  calc (a.advance millis).live k = (a.live k).live (a.advance millis).now := ha.symm
    _ = (b.live k).live (b.advance millis).now := by rw [h.live, hnow]
    _ = (b.advance millis).live k := hb

end Alike
end Keyspace

/-- Whether the reply tells which cells there are: `INFO` counts them and `SCAN` pages through them. -/
def Command.peeks : Command → Bool
  | .onServer (.info _) => true
  | .onServer (.scan ..) => true
  | _ => false

namespace Engine

/-- The same is seen in both engines, which differ at most in expired entries and in statistics. -/
structure Alike (e e' : Engine Q) : Prop where
  keyspace : e.keyspace.Alike e'.keyspace
  broker : e.broker = e'.broker
  config : e.config = e'.config

namespace Alike
variable {e e' : Engine Q}

theorem refl (e : Engine Q) : Alike e e := ⟨.refl _, rfl, rfl⟩

theorem symm (h : Alike e e') : Alike e' e := ⟨h.keyspace.symm, h.broker.symm, h.config.symm⟩

theorem trans {e'' : Engine Q} (h : Alike e e') (h' : Alike e' e'') : Alike e e'' :=
  ⟨h.keyspace.trans h'.keyspace, h.broker.trans h'.broker, h.config.trans h'.config⟩

theorem serve (h : Alike e e') (c : ServerCommand) :
    ((Command.onServer c).peeks = false → (e.serve c).1 = (e'.serve c).1) ∧
      Alike (e.serve c).2 (e'.serve c).2 := by
  have hsize : e.keyspace.size = e'.keyspace.size := Keyspace.size_eq_of_live h.keyspace.live
  cases c with
  | ping message => cases message <;> exact ⟨fun _ => rfl, h⟩
  | dbsize => exact ⟨fun _ => congrArg (fun n => Except.ok (Reply.count n)) hsize, h⟩
  | flushdb => exact ⟨fun _ => rfl, h.keyspace.flush, h.broker, h.config⟩
  | info topic => exact ⟨fun hp => (by cases hp), h⟩
  | scan cursor pattern count kind =>
    refine ⟨fun hp => (by cases hp), ?_, h.broker, h.config⟩
    have hscan := fun e : Engine Q => e.keyspace.alike_scan cursor (count.getD e.config.scanCount)
      (scanFilter pattern kind)
    exact (hscan e).symm.trans (h.keyspace.trans (hscan e'))
  | configSet parameter value =>
    simp only [Engine.serve, h.config]
    split
    · exact ⟨fun _ => rfl, h.keyspace, h.broker, rfl⟩
    · exact ⟨fun _ => rfl, h⟩
  | publish channel message =>
    simp only [Engine.serve, h.config, h.broker]
    exact ⟨fun _ => trivial, h.keyspace, rfl, rfl⟩
  | configGet pattern => simp [Engine.serve, settings, h.config, h]
  | configResetStat => exact ⟨fun _ => rfl, h.keyspace, h.broker, h.config⟩
  | pubsubChannels pattern => simp [Engine.serve, h.broker, h]
  | pubsubNumSub channels => simp [Engine.serve, h.broker, h]
  | pubsubNumPat => simp [Engine.serve, h.broker, h]

/-- Engines that are alike answer a command alike and stay alike. -/
theorem execute (h : Alike e e') (c : Command) (nanos nanos' : Nat) :
    (c.peeks = false → (e.execute c nanos).1 = (e'.execute c nanos').1) ∧
      Alike (e.execute c nanos).2 (e'.execute c nanos').2 := by
  have hperform : (c.peeks = false → (e.perform c).1 = (e'.perform c).1) ∧
      Alike (e.perform c).2 (e'.perform c).2 := by
    cases c with
    | onKeys c =>
      obtain ⟨hout, hafter⟩ := h.keyspace.run (c.task e.keyspace.clock)
      rw [perform, perform, ← h.keyspace.clock]
      exact ⟨fun _ => hout, hafter, h.broker, h.config⟩
    | onServer c => exact h.serve c
  obtain ⟨hout, hafter⟩ := hperform
  exact ⟨hout, hafter.keyspace, hafter.broker, hafter.config⟩

end Alike

def Answer.plain (a : Answer) : Bool := a.1.toOption.all fun c => !c.peeks

namespace Alike
variable {e e' : Engine Q}

theorem executeParsed (h : Alike e e') (c : Except Error Command) (nanos : Nat) :
    (Answer.plain (c, (e.executeParsed c nanos).1) = true →
      (e.executeParsed c nanos).1 = (e'.executeParsed c nanos).1) ∧
      Alike (e.executeParsed c nanos).2 (e'.executeParsed c nanos).2 := by
  cases c with
  | ok c =>
    obtain ⟨hout, hafter⟩ := h.execute c nanos nanos
    exact ⟨fun hp => hout (by simpa [Answer.plain, Except.toOption] using hp), hafter⟩
  | error err => exact ⟨fun _ => rfl, h⟩

theorem runFrom (nanos : Nat → Nat) (cs : List (Except Error Command)) (i : Nat) (h : Alike e e') :
    (cs.zip (Batch.runFrom nanos i cs e).1).filter (Answer.plain ·) =
      (cs.zip (Batch.runFrom nanos i cs e').1).filter (Answer.plain ·) ∧
      Alike (Batch.runFrom nanos i cs e).2 (Batch.runFrom nanos i cs e').2 := by
  induction cs generalizing i e e' with
  | nil => exact ⟨rfl, h⟩
  | cons c cs ih =>
    obtain ⟨hout, hafter⟩ := h.executeParsed c (nanos i)
    obtain ⟨houts, hend⟩ := ih (i + 1) hafter
    refine ⟨?_, hend⟩
    simp only [Batch.runFrom, List.zip_cons_cons, List.filter_cons, houts]
    have hplain : Answer.plain (c, (e.executeParsed c (nanos i)).1) =
        Answer.plain (c, (e'.executeParsed c (nanos i)).1) := rfl
    cases hp : Answer.plain (c, (e.executeParsed c (nanos i)).1) with
    | true => rw [← hplain, hp, hout hp]
    | false => rw [← hplain, hp]; rfl

theorem after (h : Alike e e') (ev : Event) (hfits : e.keyspace.now + ev.millis < UInt64.size) :
    (e.answers ev).filter (Answer.plain ·) = (e'.answers ev).filter (Answer.plain ·) ∧
      Alike (e.after ev) (e'.after ev) := by
  cases ev with
  | execute c nanos => exact h.runFrom (fun _ => nanos) [.ok c] 0
  | call words nanos => exact h.runFrom (fun _ => nanos) [Command.ofWords words] 0
  | batch b nanos => exact h.runFrom nanos b.queued.toList 0
  | advance millis => exact ⟨rfl, h.keyspace.advance millis hfits, h.broker, h.config⟩
  | direct c => exact ⟨rfl, h.keyspace.after c, h.broker, h.config⟩
  | join =>
    refine ⟨rfl, h.keyspace, ?_, h.config⟩
    simp only [Engine.after, subscriber, h.broker, h.config]
  | handle id c => exact ⟨rfl, h.keyspace, congrArg (Broker.after · id c) h.broker, h.config⟩

end Alike
end Engine

def Event.expires : Event → Bool
  | .direct (.expireIfDue _) => true
  | .direct (.sweep _) => true
  | _ => false

def withoutExpiry (evs : List Event) : List Event := evs.filter (!·.expires)

theorem millis_of_expires {ev : Event} (h : ev.expires = true) : ev.millis = 0 := by
  cases ev with
  | direct c => rfl
  | _ => cases h

theorem elapsed_withoutExpiry (evs : List Event) : elapsed (withoutExpiry evs) = elapsed evs := by
  induction evs with
  | nil => rfl
  | cons ev evs ih =>
    cases hx : ev.expires with
    | true => simpa [withoutExpiry, elapsed, hx, millis_of_expires hx] using ih
    | false => simpa [withoutExpiry, elapsed, hx] using ih

namespace Engine

theorem alike_of_expires (e : Engine Q) {ev : Event} (h : ev.expires = true) :
    e.answers ev = [] ∧ e.Alike (e.after ev) := by
  cases ev with
  | direct c =>
    cases c with
    | expireIfDue key => exact ⟨rfl, e.keyspace.alike_expireIfDue key, rfl, rfl⟩
    | sweep sampler => exact ⟨rfl, e.keyspace.alike_sweep sampler, rfl, rfl⟩
    | _ => cases h
  | _ => cases h

theorem Alike.run {e e' : Engine Q} (h : Alike e e') (evs : List Event)
    (hfits : e.keyspace.now + elapsed evs < UInt64.size) :
    (e.transcript evs).filter (Answer.plain ·) =
      (e'.transcript (withoutExpiry evs)).filter (Answer.plain ·) ∧
      Alike (e.run evs) (e'.run (withoutExpiry evs)) := by
  induction evs generalizing e e' with
  | nil => exact ⟨rfl, h⟩
  | cons ev evs ih =>
    have hsum : e.keyspace.now + ev.millis + elapsed evs < UInt64.size := by
      rw [Nat.add_assoc]
      exact hfits
    have hev : e.keyspace.now + ev.millis < UInt64.size := Nat.lt_of_add_right_lt hsum
    have hrest : (e.after ev).keyspace.now + elapsed evs < UInt64.size := by
      rw [e.now_after ev hev]
      exact hsum
    cases hx : ev.expires with
    | true =>
      -- the other run goes without this event
      obtain ⟨hnone, hsame⟩ := e.alike_of_expires hx
      have hskip : withoutExpiry (ev :: evs) = withoutExpiry evs := by simp [withoutExpiry, hx]
      rw [hskip, transcript, hnone, List.nil_append, run_cons]
      exact ih (hsame.symm.trans h) hrest
    | false =>
      obtain ⟨hshown, hafter⟩ := h.after ev hev
      obtain ⟨hlater, hend⟩ := ih hafter hrest
      have hkeep : withoutExpiry (ev :: evs) = ev :: withoutExpiry evs := by
        simp [withoutExpiry, hx]
      rw [hkeep, transcript, transcript, List.filter_append, List.filter_append, hshown, hlater]
      exact ⟨rfl, hend⟩

/-- Expiry does not show. A command other than `INFO` and `SCAN` is answered alike by engines that
are alike, and every command leaves them alike; and as long as the clock does not wrap, two runs that
differ only in when expired entries are looked for show the same. -/
theorem expiry_unseen :
    (∀ (e e' : Engine Q) (c : Command) (nanos nanos' : Nat), e.Alike e' →
      (c.peeks = false → (e.execute c nanos).1 = (e'.execute c nanos').1) ∧
      (e.execute c nanos).2.Alike (e'.execute c nanos').2) ∧
    ∀ (e : Engine Q) (evs evs' : List Event), withoutExpiry evs = withoutExpiry evs' →
      e.keyspace.now + elapsed evs < UInt64.size →
      (e.transcript evs).filter (Answer.plain ·) = (e.transcript evs').filter (Answer.plain ·) ∧
      (e.run evs).Alike (e.run evs') := by
  refine ⟨fun e e' c nanos nanos' h => h.execute c nanos nanos', ?_⟩
  intro e evs evs' hsame hfits
  have hfits' : e.keyspace.now + elapsed evs' < UInt64.size := by
    rw [← elapsed_withoutExpiry, ← hsame, elapsed_withoutExpiry]
    exact hfits
  obtain ⟨hshown, hend⟩ := (Alike.refl e).run evs hfits
  obtain ⟨hshown', hend'⟩ := (Alike.refl e).run evs' hfits'
  rw [hshown, hshown', hsame]
  rw [hsame] at hend
  exact ⟨rfl, hend.trans hend'.symm⟩

/-- Whether or not a sweep has taken the expired entry, a key that must be absent can be set. -/
theorem expiry_unseen_of_due_entry :
    let e := (new .default .standard).run [
      .execute (.onKeys (.set [107] [118] { expiry := .after 5 })) 0, .advance 5]
    let sweep : Event := .direct (.sweep (.first 20))
    let set : Command := .onKeys (.set [107] [119] { condition := .ifAbsent })
    let evs : List Event := [.execute set 0, .advance 3, .execute (.onKeys (.get [107])) 0]
    e.keyspace.residentSize = 1 ∧ (e.after sweep).keyspace.residentSize = 0 ∧
      (e.execute set 0).1 = ((e.after sweep).execute set 0).1 ∧
      (e.transcript evs).filter (Answer.plain ·) =
        (e.transcript (sweep :: evs)).filter (Answer.plain ·) := by
  intro e sweep set evs
  have hsweep : e.Alike (e.after sweep) := (e.alike_of_expires rfl).2
  refine ⟨by decide, by decide, ?_, ?_⟩
  · exact (expiry_unseen.1 e _ set 0 0 hsweep).1 rfl
  · exact (expiry_unseen.2 e evs (sweep :: evs) rfl (by decide)).1

/-- A clock that wraps goes back to a time at which the entry had not expired. Whether it is there
again depends on who came across it in between. -/
theorem expiry_seen_when_clock_wraps :
    let e := new .default .standard
    let set : Command := .onKeys (.set [107] [118] { expiry := .after 100 })
    let get : Command := .onKeys (.get [107])
    let early : List Event := [.execute set 0, .advance 18446744073709551615]
    let late : List Event := [.advance 1, .execute get 0]
    let due : Event := .direct (.expireIfDue [107])
    withoutExpiry (early ++ due :: late) = withoutExpiry (early ++ late) ∧
      (e.transcript (early ++ late)).filter (Answer.plain ·) =
        [(.ok set, .ok .ok), (.ok get, .ok (.bulk [118]))] ∧
      (e.transcript (early ++ due :: late)).filter (Answer.plain ·) =
        [(.ok set, .ok .ok), (.ok get, .ok .nil)] := by
  exact ⟨rfl, rfl, rfl⟩

end Engine
end KeyStore
