import KeyStore.Proofs.Meaning
import KeyStore.Proofs.Tidy

/-! Failures: a command that fails changes nothing but the statistics. A body that begins a
collection and then fails leaves it empty, and an empty collection is not kept. -/
namespace KeyStore

/-- A step on contents that fails without having changed them. -/
def Harmless (f : σ → Except Error α × σ) : Prop :=
  ∀ x err, (f x).1 = .error err → (f x).2 = x

/-- A body that fails without having changed its slot; a collection without elements that it leaves
in the slot does not count. -/
def Careful (f : Slot → Except Error α × Slot) : Prop :=
  ∀ s : Slot, s.nonempty = s → ∀ err, (f s).1 = .error err → (f s).2.nonempty = s

namespace KeyCommand

theorem harmless_attempt (r : σ → Except Error α) (reply : α → Reply) (new : α → σ) :
    Harmless fun x => attempt x (r x) reply new := by
  intro x err h
  simp only [attempt] at h ⊢
  split
  · simp_all
  · rfl

theorem harmless_counted (step : σ → α → Bool × σ) (as : List α) : Harmless (counted step as) := by
  intro x err h
  simp [counted] at h

theorem harmless_popItems (side : Side) (count : Option Nat) : Harmless (popItems side count) := by
  intro d err h
  cases count <;> simp [popItems] at h

end KeyCommand

theorem Harmless.map {f : σ → Except Error α × σ} (h : Harmless f) (reply : α → Reply) :
    Harmless fun x => ((f x).1.map reply, (f x).2) := by
  intro x err he
  cases hx : (f x).1 with
  | ok a => simp [hx, Except.map] at he
  | error e => exact h x e hx

theorem FieldMap.harmless_increment (field : Bytes) (delta : Int64) :
    Harmless fun h : FieldMap => h.increment field delta := by
  intro h err he
  simp only [increment] at he ⊢
  split
  · simp_all
  · rfl

theorem SortedSet.harmless_increment (member : Bytes) (delta : Double) :
    Harmless fun z : SortedSet => z.increment member delta := by
  intro z err he
  simp only [increment] at he ⊢
  split
  · rfl
  · simp_all

namespace Shape
variable {σ : Type} (shape : Shape σ)

theorem open?_wrap (x : σ) : shape.open? (shape.wrap x) = some x :=
  (shape.open?_eq_some _ x).mpr rfl

theorem rewrap {e : Entry} {x : σ} (h : shape.open? e.value = some x) :
    { e with value := shape.wrap x } = e := by
  rw [← (shape.open?_eq_some e.value x).mp h]

theorem careful_alter (missing : α) (f : σ → Except Error α × σ) (hf : Harmless f) :
    Careful (shape.alter missing f) := by
  intro s hs err he
  cases s with
  | none => simp [alter] at he
  | some e =>
    cases ho : shape.open? e.value with
    | none => simpa [alter, ho] using hs
    | some x =>
      simp only [alter, ho] at he ⊢
      rw [hf x err he, shape.rewrap ho]
      exact hs

theorem careful_grow (hfresh : (shape.wrap shape.fresh).isEmptyCollection = true)
    (f : σ → Except Error α × σ) (hf : Harmless f) : Careful (shape.grow f) := by
  intro s hs err he
  cases s with
  | none =>
    simp only [grow, Option.getD_none, Entry.lasting, open?_wrap] at he ⊢
    rw [hf _ err he]
    simp [Slot.nonempty, Option.filter, hfresh]
  | some e =>
    cases ho : shape.open? e.value with
    | none => simpa [grow, ho] using hs
    | some x =>
      simp only [grow, Option.getD_some, ho] at he ⊢
      rw [hf x err he, shape.rewrap ho]
      exact hs

end Shape

namespace KeyCommand

theorem careful_setSlot (value : Bytes) (o : SetOptions) (expiry : Slot → Option Instant) :
    Careful (setSlot value o expiry) := by
  intro s hs err he
  rw [setSlot] at he ⊢
  split
  · exact hs
  · simp_all

theorem careful_incrSlot (delta : Int64) : Careful (incrSlot delta) := by
  intro s hs err he
  cases s with
  | none => simp [incrSlot] at he
  | some e =>
    have hf := harmless_attempt (Counter.increment · delta) (fun n => .integer n.toInt) Counter.write
    exact Shape.string.careful_alter .nil _ hf (some e) hs err he

theorem careful_expireSlot (at' : Option Instant) : Careful (expireSlot at') := by
  intro s hs err he
  cases s <;> simp [expireSlot] at he

theorem careful_persistSlot : Careful persistSlot := by
  intro s hs err he
  cases s with
  | none => simp [persistSlot] at he
  | some e =>
    simp only [persistSlot] at he
    split at he <;> cases he

theorem careful_pushSlot (values : List Bytes) (side : Side) (onlyExisting : Bool) :
    Careful (pushSlot values side onlyExisting) := by
  intro s hs err he
  rw [pushSlot] at he ⊢
  split
  · exact hs
  · rename_i hc
    rw [if_neg hc] at he
    refine Shape.list.careful_grow rfl _ ?_ s hs err he
    intro d err hd
    cases hd

end KeyCommand

namespace Task

def Careful : Task → Prop
  | edit _ f => KeyStore.Careful f
  | together _ f => ∀ h err, (f h).1 = .error err → ∀ k, (f h).2.entry k = h.entry k
  | _ => True

end Task

namespace KeyCommand

theorem careful_task (clock : Clock) (c : KeyCommand) : (c.task clock).Careful := by
  cases c with
  | set key value o =>
    rw [task]
    rcases setTask_cases clock key value o with htask | ⟨expiry, htask⟩
    · rw [htask]
      trivial
    · rw [htask]
      exact careful_setSlot value o expiry
  | incrBy key delta => exact careful_incrSlot delta
  | expire key millis =>
    rw [task]
    rcases expireTask_cases clock key millis with htask | ⟨at', htask⟩
    · rw [htask]
      trivial
    · rw [htask]
      exact careful_expireSlot at'
  | persist key => exact careful_persistSlot
  | push key values side onlyExisting => exact careful_pushSlot values side onlyExisting
  | pop key side count => exact Shape.list.careful_alter _ _ (harmless_popItems side count)
  | hset key fields => exact Shape.hash.careful_grow rfl _ (harmless_counted _ _)
  | hincrBy key field delta =>
    exact Shape.hash.careful_grow rfl _ ((FieldMap.harmless_increment field delta).map _)
  | hdel key fields => exact Shape.hash.careful_alter _ _ (harmless_counted _ _)
  | sadd key members => exact Shape.set.careful_grow rfl _ (harmless_counted _ _)
  | srem key members => exact Shape.set.careful_alter _ _ (harmless_counted _ _)
  | zadd key members => exact Shape.zset.careful_grow rfl _ (harmless_counted _ _)
  | zrem key members => exact Shape.zset.careful_alter _ _ (harmless_counted _ _)
  | zincrBy key delta member =>
    exact Shape.zset.careful_grow rfl _ ((SortedSet.harmless_increment member delta).map _)
  | combine op keys => exact fun _ _ _ _ => rfl
  | rename source destination =>
    simp only [task]
    split
    · trivial
    · exact fun h err he k => entry_renameHeld source destination h err he k
  | _ => trivial

end KeyCommand

namespace Task
open Keyspace

/-- A task that writes back what it finds in a view; a collection without elements does not count. -/
def Leaves (v : View) : Task → Prop
  | edit key f => (f (v key)).2.nonempty = v key
  | removeEach _ => False
  | together keys f => ∀ k ∈ keys, ((f (.ofKeys keys v)).2.entry k).nonempty = v k
  | _ => True

theorem Leaves.looked {t : Task} {ks : Keyspace} (h : t.Leaves ks.live) : ks.Looked (t.run ks).2 := by
  cases t with
  | refuse e => exact .refl ks
  | look key f => exact (Looked.refl ks).read key f
  | lookEach keys f => exact readEach_keeps (fun _ k hks => hks.read k id) keys ks (.refl ks)
  | edit key f =>
    refine { still_update ks key f with slot := fun k => ?_ }
    rw [run, slot_update]
    split
    · rename_i hk
      exact .inr (hk ▸ h)
    · exact .inl rfl
  | removeEach keys => cases h
  | together keys f =>
    refine { still_withHeld ks keys f with slot := fun k => ?_ }
    rw [run, slot_withHeld]
    split
    · rename_i hk
      exact .inr (h k hk)
    · exact .inl rfl

theorem Careful.leaves {t : Task} (hcare : t.Careful) {ks : Keyspace} (h : ks.Tidy) {err : Error}
    (he : (t.run ks).1 = .error err) : t.Leaves ks.live := by
  cases t with
  | edit key f =>
    rw [run, update_fst] at he
    exact hcare _ (h.live_nonempty key) err he
  | removeEach keys => cases he
  | together keys f =>
    rw [run, withHeld_fst] at he
    intro k hk
    rw [hcare _ err he, Held.entry_ofKeys_of_mem hk, h.live_nonempty]
  | _ => trivial

end Task

namespace Engine

theorem sheds_of_error (e : Engine Q) (he : e.keyspace.Tidy) (c : KeyCommand) (err : Error)
    (herr : (e.perform (.onKeys c)).1 = .error err) :
    e.keyspace.Sheds (e.perform (.onKeys c)).2.keyspace := by
  have hleaves : (c.task e.keyspace.clock).Leaves e.keyspace.live :=
    (c.careful_task e.keyspace.clock).leaves he herr
  exact hleaves.looked.sheds he (Keyspace.lasting_tidy.run _ e.keyspace he)

/-- After a command that failed, every key holds what it held, no key is held that was not, and the
settings and the broker are the same; what may be missing are entries that had expired. -/
theorem failure_changes_nothing (e : Engine Q) (he : e.Reachable) (c : Command) (nanos : Nat)
    (err : Error) (herr : (e.execute c nanos).1 = .error err) :
    let e' := (e.execute c nanos).2
    (∀ k, e'.keyspace.live k = e.keyspace.live k) ∧
    (∀ k, k ∈ e'.keyspace.cells → k ∈ e.keyspace.cells) ∧
    e.keyspace.Sheds e'.keyspace ∧ e'.config = e.config ∧ e'.broker = e.broker := by
  have hsheds : e.keyspace.Sheds (e.execute c nanos).2.keyspace ∧
      (e.execute c nanos).2.config = e.config ∧ (e.execute c nanos).2.broker = e.broker := by
    cases c with
    | onKeys c => exact ⟨e.sheds_of_error he.tidy c err herr, rfl, rfl⟩
    | onServer c =>
      have hrefl : e.keyspace.Sheds e.keyspace :=
        (Keyspace.Looked.refl e.keyspace).sheds he.tidy he.tidy
      cases c with
      | configSet parameter value =>
        simp only [execute, perform, serve] at herr ⊢
        split
        · simp_all
        · exact ⟨hrefl, rfl, rfl⟩
      | ping message => cases message <;> cases herr
      | _ => cases herr
  obtain ⟨hs, hconfig, hbroker⟩ := hsheds
  exact ⟨hs.live, hs.mem_cells, hs, hconfig, hbroker⟩

/-- An increment that is not a number, on a key that has none yet: the sorted set that was begun is
not kept. -/
theorem failure_changes_nothing_of_nan :
    let e := (new .default .standard).run [
      .execute (.onKeys (.push [108] [[97], [98]] .left false)) 0,
      .execute (.onKeys (.set [107] [118] { expiry := .after 5 })) 0,
      .advance 5]
    let e' := (e.execute (.onKeys (.zincrBy [122] .nan [109])) 0).2
    e.Reachable ∧ (e.execute (.onKeys (.zincrBy [122] .nan [109])) 0).1 = .error .nanScore ∧
      (∀ k, e'.keyspace.live k = e.keyspace.live k) ∧
      (∀ k, k ∈ e'.keyspace.cells → k ∈ e.keyspace.cells) ∧
      e.keyspace.Sheds e'.keyspace ∧ e'.config = e.config ∧ e'.broker = e.broker :=
  ⟨⟨_, _, _, rfl⟩, by rfl, failure_changes_nothing _ ⟨_, _, _, rfl⟩ _ 0 _ (by rfl)⟩

end Engine
end KeyStore
