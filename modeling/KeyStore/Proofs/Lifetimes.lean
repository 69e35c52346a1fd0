import KeyStore.Proofs.Expiry
import KeyStore.Proofs.Locality
import KeyStore.Proofs.Steps

/-! Lifetimes. Whatever happens to the other keys, what is seen under a key is what was there, for as long
as it had to live; so an entry that was given a lifetime is there until this has passed, and is gone from
then on, whether or not it has been removed. -/
namespace KeyStore

theorem Clock.after?_of_le (c : Clock) {millis : Nat} (hmillis : millis ≤ 0x7fffffffffffffff) :
    c.after? millis = some (c.now + millis) := by
  have hlast : c.now + millis ≤ c.horizon.last := calc
    c.now + millis ≤ UInt64.size + 0x7fffffffffffffff :=
      Nat.add_le_add (Nat.le_of_lt c.millis.toNat_lt_size) hmillis
    _ ≤ c.horizon.last := c.horizon.le_last
  rw [after?, if_pos hlast]

def Command.spares (k : Key) : Command → Bool
  | onKeys c => !c.keys.contains k
  | onServer c => c != .flushdb

/-- Whether a direct call leaves a key alone, apart from the removal of what has expired. -/
def KeyspaceCall.spares (k : Key) : KeyspaceCall → Bool
  | set key .. | update key _ | remove key => key != k
  | withHeld keys _ => !keys.contains k
  | flush => false
  | get _ | scan .. | expireIfDue _ | sweep _ => true

/-- Whether a step leaves a key alone. Words and batches are to be taken apart first. -/
def Event.spares (k : Key) : Event → Bool
  | execute c _ => c.spares k
  | direct c => c.spares k
  | advance _ | join | handle .. => true
  | call .. | batch .. => false

theorem Keyspace.live_after_of_spares (ks : Keyspace) {c : KeyspaceCall} {k : Key}
    (h : c.spares k = true) : (ks.after c).live k = ks.live k := by
  cases c with
  | get key => exact ks.live_read key k id
  | set key value expiresAt =>
    have hne : key ≠ k := by simpa [KeyspaceCall.spares] using h
    exact (ks.live_update key k _).trans (if_neg hne)
  | update key f =>
    have hne : key ≠ k := by simpa [KeyspaceCall.spares] using h
    exact (ks.live_update key k _).trans (if_neg hne)
  | remove key =>
    have hne : key ≠ k := by simpa [KeyspaceCall.spares] using h
    exact (ks.live_remove key k).trans (if_neg hne)
  | withHeld keys f =>
    have hnot : k ∉ keys := by simpa [KeyspaceCall.spares] using h
    exact (ks.live_withHeld keys _ k).trans (if_neg hnot)
  | flush => cases h
  | scan cursor count filter => exact congrFun (ks.live_scan cursor count filter) k
  | expireIfDue key => exact ks.live_expireIfDue key k
  | sweep sampler => exact congrFun (ks.alike_sweep sampler).live.symm k

namespace Engine

theorem live_execute_of_spares (e : Engine Q) {c : Command} (nanos : Nat) {k : Key}
    (h : c.spares k = true) : (e.execute c nanos).2.keyspace.live k = e.keyspace.live k := by
  cases c with
  | onKeys c => exact e.live_execute_of_notMem c nanos k (by simpa [Command.spares] using h)
  | onServer c => exact congrFun (e.live_serve c (by simpa [Command.spares] using h)) k

theorem live_after_of_spares (e : Engine Q) {step : Event} {k : Key} (h : step.spares k = true)
    (hfits : e.keyspace.now + step.millis < UInt64.size) :
    (e.after step).keyspace.live k = (e.keyspace.live k).live (e.after step).keyspace.now := by
  have hnow := e.now_after step hfits
  -- while the clock stands, what is seen of what is seen is the same
  have stands : step.millis = 0 → (e.after step).keyspace.live k = e.keyspace.live k →
      (e.after step).keyspace.live k = (e.keyspace.live k).live (e.after step).keyspace.now := by
    intro hmillis hsame
    rw [hnow, hmillis, Nat.add_zero, hsame]
    exact (Slot.live_live _ _).symm
  cases step with
  | advance millis => exact (Slot.live_live_of_le _ (hnow ▸ Nat.le_add_right ..)).symm
  | execute c nanos => exact stands rfl (e.live_execute_of_spares nanos h)
  | direct c => exact stands rfl (e.keyspace.live_after_of_spares h)
  | join => exact stands rfl rfl
  | handle id c => exact stands rfl rfl
  | call words nanos => cases h
  | batch b nanos => cases h

/-- A run that leaves a key alone leaves what is seen under it, for as long as it had to live. -/
theorem live_run_of_spares (e : Engine Q) {k : Key} (evs : List Event)
    (h : ∀ step ∈ stepwise evs, step.spares k = true)
    (hfits : e.keyspace.now + elapsed evs < UInt64.size) :
    (e.run evs).keyspace.live k = (e.keyspace.live k).live (e.run evs).keyspace.now := by
  refine run_keeps_of_fits (P := fun e' => e'.keyspace.live k = (e.keyspace.live k).live e'.keyspace.now)
    (fun e' step hstep hstepfits he' => ?_) evs e h hfits (Slot.live_live _ _).symm
  have hlater : e'.keyspace.now ≤ (e'.after step).keyspace.now := by
    rw [e'.now_after step hstepfits]
    exact Nat.le_add_right ..
  rw [e'.live_after_of_spares hstep hstepfits, he', Slot.live_live_of_le _ hlater]

theorem execute_set_after (e : Engine Q) (k : Key) (v : Bytes) {t : Nat} (hpos : 1 ≤ t)
    (ht : t ≤ 0x7fffffffffffffff) (nanos : Nat) :
    (e.execute (.onKeys (.set k v { expiry := .after t })) nanos).1 = .ok .ok ∧
      (e.execute (.onKeys (.set k v { expiry := .after t })) nanos).2.keyspace.live k =
        some ⟨.string v, some (e.keyspace.now + t)⟩ := by
  have htask : (KeyCommand.set k v { expiry := .after t }).task e.keyspace.clock =
      .edit k (KeyCommand.setSlot v { expiry := .after t } fun _ => some (e.keyspace.now + t)) := by
    simp only [KeyCommand.task, KeyCommand.setTask, Clock.after?_of_le _ ht, Keyspace.now]
  obtain ⟨hout, hlive⟩ := e.execute_onKeys (.set k v { expiry := .after t }) nanos
  rw [hout, hlive, htask]
  refine ⟨rfl, ?_⟩
  have hnotdue : Entry.isDue ⟨.string v, some (e.keyspace.now + t)⟩ e.keyspace.now = false := by
    have hlater : ¬ e.keyspace.now + t ≤ e.keyspace.now := Nat.not_le.mpr (Nat.lt_add_of_pos_right hpos)
    simp only [Entry.isDue, Option.any_some, decide_eq_false hlater]
  exact (if_pos rfl).trans (Slot.live_of_not_isDue hnotdue)

theorem replies_of_live (e : Engine Q) {k : Key} {v : Bytes} {left : Nat} (hleft : left ≤ 0x7fffffffffffffff)
    (h : e.keyspace.live k = some ⟨.string v, some (e.keyspace.now + left)⟩) (nanos : Nat) :
    (e.execute (.onKeys (.get k)) nanos).1 = .ok (.bulk v) ∧
      (e.execute (.onKeys (.ttl k .millis)) nanos).1 = .ok (.integer left) := by
  have hword : (Int64.ofNat (e.keyspace.now + left - e.keyspace.now)).toInt = left := by
    rw [Nat.add_sub_cancel_left]
    exact Int64.toInt_ofNat_of_lt (Nat.lt_succ_of_le hleft)
  rw [(e.execute_onKeys (.get k) nanos).1, (e.execute_onKeys (.ttl k .millis) nanos).1]
  simp only [KeyCommand.task, Task.meaning, h]
  exact ⟨rfl, congrArg (fun n => Except.ok (Reply.integer n)) hword⟩

theorem replies_of_live_none (e : Engine Q) {k : Key} (h : e.keyspace.live k = none) (nanos : Nat) :
    (e.execute (.onKeys (.get k)) nanos).1 = .ok .nil ∧
      (e.execute (.onKeys (.ttl k .millis)) nanos).1 = .ok (.integer (-2)) ∧
      (e.execute (.onKeys (.present [k])) nanos).1 = .ok (.count 0) ∧
      (e.execute (.onKeys (.type k)) nanos).1 = .ok (.status "none") := by
  rw [(e.execute_onKeys (.get k) nanos).1, (e.execute_onKeys (.ttl k .millis) nanos).1,
    (e.execute_onKeys (.present [k]) nanos).1, (e.execute_onKeys (.type k) nanos).1]
  simp [KeyCommand.task, Task.meaning, Shape.look, h]

/-- A string that is set to live for some milliseconds lives for just these. Whatever happens in between
to other keys, and whenever expired entries are looked for: before they have passed it is there, and the
time left is told; from then on the key is told to be absent. -/
theorem lifetime_kept (e : Engine Q) (k : Key) (v : Bytes) (t : Nat) (hpos : 1 ≤ t)
    (ht : t ≤ 0x7fffffffffffffff) (nanos : Nat) (evs : List Event)
    (hspares : ∀ step ∈ stepwise evs, step.spares k = true)
    (hfits : e.keyspace.now + elapsed evs < UInt64.size) :
    let set : Command := .onKeys (.set k v { expiry := .after t })
    let e' := (e.execute set nanos).2.run evs
    (e.execute set nanos).1 = .ok .ok ∧
    (elapsed evs < t → ∀ nanos' : Nat,
      (e'.execute (.onKeys (.get k)) nanos').1 = .ok (.bulk v) ∧
      (e'.execute (.onKeys (.ttl k .millis)) nanos').1 = .ok (.integer (t - elapsed evs : Nat))) ∧
    (t ≤ elapsed evs → ∀ nanos' : Nat,
      (e'.execute (.onKeys (.get k)) nanos').1 = .ok .nil ∧
      (e'.execute (.onKeys (.ttl k .millis)) nanos').1 = .ok (.integer (-2)) ∧
      (e'.execute (.onKeys (.present [k])) nanos').1 = .ok (.count 0) ∧
      (e'.execute (.onKeys (.type k)) nanos').1 = .ok (.status "none")) := by
  intro set e'
  obtain ⟨hout, hset⟩ := e.execute_set_after k v hpos ht nanos
  have hstart : (e.execute set nanos).2.keyspace.now = e.keyspace.now := e.now_execute set nanos
  have hfits' : (e.execute set nanos).2.keyspace.now + elapsed evs < UInt64.size := by
    rw [hstart]
    exact hfits
  have hnow : e'.keyspace.now = e.keyspace.now + elapsed evs := by
    rw [now_run _ evs hfits', hstart]
  have hlive : e'.keyspace.live k =
      Slot.live (some ⟨.string v, some (e.keyspace.now + t)⟩) e'.keyspace.now := by
    rw [live_run_of_spares _ evs hspares hfits', hset]
  have hdue : Entry.isDue ⟨.string v, some (e.keyspace.now + t)⟩ e'.keyspace.now =
      decide (t ≤ elapsed evs) := by
    rw [hnow]
    simp [Entry.isDue]
  refine ⟨hout, fun hbefore => ?_, fun hafter => ?_⟩
  · have hend : e.keyspace.now + t = e'.keyspace.now + (t - elapsed evs) := by
      rw [hnow, Nat.add_assoc, Nat.add_sub_cancel' (Nat.le_of_lt hbefore)]
    rw [Slot.live_of_not_isDue (hdue.trans (decide_eq_false (Nat.not_le.mpr hbefore))), hend] at hlive
    exact e'.replies_of_live (Nat.le_trans (Nat.sub_le ..) ht) hlive
  · rw [Slot.live_of_isDue (hdue.trans (decide_eq_true hafter))] at hlive
    exact e'.replies_of_live_none hlive

/-- A string over a list, one millisecond before its end and at its end; a sweep, a command that fails and
a removal of the expired entry come in between. -/
theorem lifetime_kept_over_list :
    let e := (new .default .standard).run [
      .execute (.onKeys (.push [107] [[97]] .left false)) 0, .advance 7]
    let before : List Event := [
      .advance 40, .direct (.sweep (.first 20)), .execute (.onKeys (.rename [97] [98])) 0, .advance 59]
    let after : List Event := before ++ [.advance 1, .direct (.expireIfDue [107])]
    let set : Command := .onKeys (.set [107] [118] { expiry := .after 100 })
    let early := (e.execute set 0).2.run before
    let late := (e.execute set 0).2.run after
    ((early.execute (.onKeys (.get [107])) 0).1 = .ok (.bulk [118]) ∧
      (early.execute (.onKeys (.ttl [107] .millis)) 0).1 = .ok (.integer 1)) ∧
    (late.execute (.onKeys (.get [107])) 0).1 = .ok .nil ∧
      (late.execute (.onKeys (.ttl [107] .millis)) 0).1 = .ok (.integer (-2)) ∧
      (late.execute (.onKeys (.present [[107]])) 0).1 = .ok (.count 0) ∧
      (late.execute (.onKeys (.type [107])) 0).1 = .ok (.status "none") := by
  intro e before after set early late
  have kept := e.lifetime_kept [107] [118] 100 (by decide) (by decide) 0
  exact ⟨(kept before (by decide) (by decide)).2.1 (by decide) 0,
    (kept after (by decide) (by decide)).2.2 (by decide) 0⟩

end Engine
end KeyStore
