import KeyStore.Proofs.Meaning
import KeyStore.Proofs.Run

/-! Locality. A command on keys sees the clock and the live entries of the keys it names, and leaves
every other key as it was. Commands on different keys therefore change places freely. -/
namespace KeyStore

namespace View

def AgreeOn (keys : List Key) (v w : View) : Prop := ∀ k ∈ keys, v k = w k

theorem AgreeOn.without {k : Key} {keys : List Key} {v w : View} (h : AgreeOn (k :: keys) v w) :
    AgreeOn keys (v.without k) (w.without k) := by
  intro j hj
  simp only [View.without]
  split
  · rfl
  · exact h j (List.mem_cons_of_mem k hj)

theorem removeEach_fst_congr (keys : List Key) (v w : View) (h : AgreeOn keys v w) :
    (removeEach keys v).1 = (removeEach keys w).1 := by
  induction keys generalizing v w with
  | nil => rfl
  | cons k keys ih =>
    have hk : v k = w k := h k List.mem_cons_self
    have hrest := ih _ _ h.without
    simp only [removeEach, hk, hrest]

theorem removeEach_snd (keys : List Key) (v : View) (j : Key) :
    (removeEach keys v).2 j = if j ∈ keys then none else v j := by
  induction keys generalizing v with
  | nil => simp [removeEach]
  | cons k keys ih =>
    rw [removeEach]
    dsimp only
    rw [ih, View.without]
    by_cases hj : j ∈ keys
    · simp [hj]
    · by_cases hk : k = j
      · simp [hk]
      · simp [hj, hk, Ne.symm hk]

end View

theorem Slot.eq_of_live_nonempty {s : Slot} {now : Instant} {e : Entry}
    (h : s.nonempty.live now = some e) : s = some e :=
  (Option.filter_eq_some_iff.mp (Option.filter_eq_some_iff.mp h).1).1

namespace Task
open View

theorem meaning_snd_of_notMem (now : Instant) (v : View) (t : Task) (j : Key) (hj : j ∉ t.keys) :
    (t.meaning now v).2 j = v j := by
  cases t with
  | refuse e => rfl
  | look key f => rfl
  | lookEach keys f => rfl
  | edit key f =>
    have hne : key ≠ j := fun h => hj (by simp [keys, h])
    simp [meaning, View.write, hne]
  | removeEach keys =>
    have hn : j ∉ keys := hj
    simp [meaning, removeEach_snd, hn]
  | together keys f =>
    have hn : j ∉ keys := hj
    simp [meaning, hn]

theorem meaning_congr (now : Instant) (v w : View) (t : Task) (h : AgreeOn t.keys v w) :
    (t.meaning now v).1 = (t.meaning now w).1 ∧
      AgreeOn t.keys (t.meaning now v).2 (t.meaning now w).2 := by
  cases t with
  | refuse e => exact ⟨rfl, h⟩
  | look key f =>
    have hkey : v key = w key := h key List.mem_cons_self
    exact ⟨congrArg f hkey, h⟩
  | lookEach keys f =>
    have hslots : keys.map v = keys.map w := List.map_congr_left h
    exact ⟨congrArg (fun slots => Except.ok (f slots)) hslots, h⟩
  | edit key f =>
    have hkey : v key = w key := h key List.mem_cons_self
    refine ⟨congrArg (fun s => (f s).1) hkey, fun j hj => ?_⟩
    simp only [meaning, View.write, hkey]
    split
    · rfl
    · exact h j hj
  | removeEach keys =>
    refine ⟨congrArg (fun n => Except.ok (Reply.count n)) (removeEach_fst_congr keys v w h), ?_⟩
    intro j hj
    have hmem : j ∈ keys := hj
    simp [meaning, removeEach_snd, hmem]
  | together keys f =>
    have hheld : Held.ofKeys keys v = Held.ofKeys keys w := Held.ofKeys_congr h
    refine ⟨congrArg (fun h => (f h).1) hheld, fun j hj => ?_⟩
    have hmem : j ∈ keys := hj
    simp [meaning, hheld, hmem]

/-- What a task writes under a key stands in a relation to what it found there. -/
def Writes (R : Slot → Entry → Prop) (k : Key) : Task → Prop
  | edit key f => key = k → ∀ s e, (f s).2 = some e → R s e
  | together keys f => k ∈ keys → ∀ (h : Held) (e : Entry), (f h).2.entry k = some e → R (h.entry k) e
  | _ => True

theorem writes_of_notMem {R : Slot → Entry → Prop} {k : Key} {t : Task} (hk : k ∉ t.keys) :
    t.Writes R k := by
  cases t with
  | edit key f => exact fun h => absurd (List.mem_singleton.mpr h.symm) hk
  | together keys f => exact fun h => absurd h hk
  | _ => trivial

theorem Writes.meaning {R : Slot → Entry → Prop} {k : Key} {t : Task} (ht : t.Writes R k)
    (hstays : ∀ e, R (some e) e) (now : Instant) {v : View} {e : Entry}
    (he : (t.meaning now v).2 k = some e) : R (v k) e := by
  have stays : v k = some e → R (v k) e := fun h => h ▸ hstays e
  cases t with
  | edit key f =>
    simp only [Task.meaning, View.write] at he
    split at he
    · rename_i hk
      subst hk
      exact ht rfl (v key) e (Slot.eq_of_live_nonempty he)
    · exact stays he
  | removeEach keys =>
    simp only [Task.meaning, View.removeEach_snd] at he
    split at he
    · cases he
    · exact stays he
  | together keys f =>
    simp only [Task.meaning, List.contains_iff_mem] at he
    split at he
    · rename_i hk
      have hheld : (Held.ofKeys keys v).entry k = v k := Held.entry_ofKeys_of_mem hk v
      rw [← hheld]
      exact ht hk _ e (Slot.eq_of_live_nonempty he)
    · exact stays he
  | _ => exact stays he

end Task

namespace KeyCommand

theorem keys_task (clock : Clock) (c : KeyCommand) : ∀ k ∈ (c.task clock).keys, k ∈ c.keys := by
  intro k hk
  cases c with
  | set key value o =>
    rw [task] at hk
    rcases setTask_cases clock key value o with htask | ⟨expiry, htask⟩
    · rw [htask] at hk
      cases hk
    · rw [htask] at hk
      exact hk
  | expire key millis =>
    rw [task] at hk
    rcases expireTask_cases clock key millis with htask | ⟨at', htask⟩
    · rw [htask] at hk
      cases hk
    · rw [htask] at hk
      exact hk
  | rename source destination =>
    simp only [task] at hk
    split at hk
    · exact List.mem_cons.mpr (.inl (List.mem_singleton.mp hk))
    · exact hk
  | _ => exact hk

end KeyCommand

theorem Keyspace.live_scan (ks : Keyspace) (cursor : UInt64) (count : Nat)
    (filter : Key → Entry → Bool) : (ks.scan cursor count filter).2.live = ks.live :=
  scan_keeps (P := fun ks' => ks'.live = ks.live)
    (fun ks' k f h => (funext (live_read ks' k · f)).trans h) ks cursor count filter rfl

namespace Engine

theorem execute_onKeys (e : Engine Q) (c : KeyCommand) (nanos : Nat) :
    (e.execute (.onKeys c) nanos).1 =
        ((c.task e.keyspace.clock).meaning e.keyspace.now e.keyspace.live).1 ∧
      (e.execute (.onKeys c) nanos).2.keyspace.live =
        ((c.task e.keyspace.clock).meaning e.keyspace.now e.keyspace.live).2 :=
  (c.task e.keyspace.clock).run_meaning e.keyspace

theorem clock_execute (e : Engine Q) (c : Command) (nanos : Nat) :
    (e.execute c nanos).2.keyspace.clock = e.keyspace.clock :=
  (Keyspace.lasting_frame Keyspace.clock (fun _ _ hclock _ => hclock) _).execute e c nanos rfl

theorem now_execute (e : Engine Q) (c : Command) (nanos : Nat) :
    (e.execute c nanos).2.keyspace.now = e.keyspace.now := congrArg Clock.now (e.clock_execute c nanos)

theorem live_execute_of_notMem (e : Engine Q) (c : KeyCommand) (nanos : Nat) (k : Key)
    (hk : k ∉ c.keys) :
    (e.execute (.onKeys c) nanos).2.keyspace.live k = e.keyspace.live k := by
  rw [(e.execute_onKeys c nanos).2]
  exact Task.meaning_snd_of_notMem _ _ _ k fun h => hk (c.keys_task _ k h)

theorem live_serve (e : Engine Q) (c : ServerCommand) (h : c ≠ .flushdb) :
    (e.serve c).2.keyspace.live = e.keyspace.live := by
  rcases e.keyspace_serve c with ⟨hflush, -⟩ | ⟨cursor, count, filter, hscan⟩ | hsame
  · exact absurd hflush h
  · rw [hscan]
    exact e.keyspace.live_scan cursor count filter
  · rw [hsame]

/-- An entry that is seen after a command was written by its task, or was left alone. -/
theorem execute_of_writes (e : Engine Q) {R : Slot → Entry → Prop} {k : Key} {c : Command} (nanos : Nat)
    (hwrites : ∀ c', c = .onKeys c' → (c'.task e.keyspace.clock).Writes R k)
    (hstays : ∀ entry, R (some entry) entry) {entry' : Entry}
    (h' : (e.execute c nanos).2.keyspace.live k = some entry') : R (e.keyspace.live k) entry' := by
  cases c with
  | onKeys c =>
    rw [(e.execute_onKeys c nanos).2] at h'
    exact (hwrites c rfl).meaning hstays _ h'
  | onServer c =>
    rw [e.keyspace_execute_onServer c nanos] at h'
    by_cases hflush : c = .flushdb
    · have hnone : (e.serve .flushdb).2.keyspace.live k = none := congrFun e.keyspace.live_flush k
      rw [hflush, hnone] at h'
      cases h'
    · rw [e.live_serve c hflush] at h'
      rw [h']
      exact hstays entry'

/-- Engines with one clock that show the same under the keys of a command answer it alike, and show the
same under its keys again. -/
theorem execute_congr (e e' : Engine Q) (c : KeyCommand) (nanos nanos' : Nat)
    (hclock : e.keyspace.clock = e'.keyspace.clock)
    (h : View.AgreeOn c.keys e.keyspace.live e'.keyspace.live) :
    (e.execute (.onKeys c) nanos).1 = (e'.execute (.onKeys c) nanos').1 ∧
      View.AgreeOn c.keys (e.execute (.onKeys c) nanos).2.keyspace.live
        (e'.execute (.onKeys c) nanos').2.keyspace.live := by
  have htask := fun k hk => h k (c.keys_task e'.keyspace.clock k hk)
  obtain ⟨hout, hlive⟩ := Task.meaning_congr e'.keyspace.now _ _ _ htask
  obtain ⟨houte, hlivee⟩ := e.execute_onKeys c nanos
  obtain ⟨houte', hlivee'⟩ := e'.execute_onKeys c nanos'
  have hnow : e.keyspace.now = e'.keyspace.now := congrArg Clock.now hclock
  rw [hclock, hnow] at houte hlivee
  rw [houte, hlivee, houte', hlivee']
  refine ⟨hout, fun k hk => ?_⟩
  -- a key that is named but not touched is as it was
  by_cases ht : k ∈ (c.task e'.keyspace.clock).keys
  · exact hlive k ht
  · rw [Task.meaning_snd_of_notMem _ _ _ k ht, Task.meaning_snd_of_notMem _ _ _ k ht, h k hk]

theorem execute_after_other (e : Engine Q) (c c' : KeyCommand) (nanos nanos' : Nat)
    (hdisjoint : ∀ k ∈ c.keys, k ∉ c'.keys) :
    ((e.execute (.onKeys c) nanos).2.execute (.onKeys c') nanos').1 =
        (e.execute (.onKeys c') nanos').1 ∧
      View.AgreeOn c'.keys ((e.execute (.onKeys c) nanos).2.execute (.onKeys c') nanos').2.keyspace.live
        (e.execute (.onKeys c') nanos').2.keyspace.live := by
  apply execute_congr
  · exact e.clock_execute (.onKeys c) nanos
  · intro k hk
    exact e.live_execute_of_notMem c nanos k fun hc => hdisjoint k hc hk

/-- Commands on keys are local. Their outcomes, and what they leave under their keys, depend on the
clock and on the live entries of their keys, and no other key is changed; two commands without a
common key have the same outcomes in either order and leave the same to be seen. -/
theorem commands_local :
    (∀ (e e' : Engine Q) (c : KeyCommand) (nanos nanos' : Nat), e.keyspace.clock = e'.keyspace.clock →
      (∀ k ∈ c.keys, e.keyspace.live k = e'.keyspace.live k) →
      (e.execute (.onKeys c) nanos).1 = (e'.execute (.onKeys c) nanos').1 ∧
      ∀ k ∈ c.keys, (e.execute (.onKeys c) nanos).2.keyspace.live k =
        (e'.execute (.onKeys c) nanos').2.keyspace.live k) ∧
    (∀ (e : Engine Q) (c : KeyCommand) (nanos : Nat) (k : Key), k ∉ c.keys →
      (e.execute (.onKeys c) nanos).2.keyspace.live k = e.keyspace.live k) ∧
    ∀ (e : Engine Q) (c c' : KeyCommand) (nanos nanos' : Nat), (∀ k ∈ c.keys, k ∉ c'.keys) →
      let e₁ := (e.execute (.onKeys c) nanos).2
      let e₂ := (e.execute (.onKeys c') nanos').2
      (e₂.execute (.onKeys c) nanos).1 = (e.execute (.onKeys c) nanos).1 ∧
      (e₁.execute (.onKeys c') nanos').1 = (e.execute (.onKeys c') nanos').1 ∧
      (e₁.execute (.onKeys c') nanos').2.keyspace.live =
        (e₂.execute (.onKeys c) nanos).2.keyspace.live := by
  refine ⟨fun e e' c nanos nanos' hclock h => e.execute_congr e' c nanos nanos' hclock h,
    live_execute_of_notMem, ?_⟩
  intro e c c' nanos nanos' hdisjoint e₁ e₂
  obtain ⟨hout, hlive⟩ := e.execute_after_other c' c nanos' nanos fun k hk' hk => hdisjoint k hk hk'
  obtain ⟨hout', hlive'⟩ := e.execute_after_other c c' nanos nanos' hdisjoint
  -- a key is named by the first command, by the second, or by neither
  refine ⟨hout, hout', funext fun k => ?_⟩
  by_cases hk : k ∈ c.keys
  · have hk' : k ∉ c'.keys := hdisjoint k hk
    rw [e₁.live_execute_of_notMem c' nanos' k hk']
    exact (hlive k hk).symm
  · rw [e₂.live_execute_of_notMem c nanos k hk]
    by_cases hk' : k ∈ c'.keys
    · exact hlive' k hk'
    · rw [e₁.live_execute_of_notMem c' nanos' k hk', e.live_execute_of_notMem c nanos k hk,
        e.live_execute_of_notMem c' nanos' k hk']

/-- A rename of a list over an expired string, and an increment of a counter that it does not name. -/
theorem commands_local_of_rename :
    let e := (new .default .standard).run [
      .execute (.onKeys (.push [108] [[97], [98]] .left false)) 0,
      .execute (.onKeys (.set [107] [118] { expiry := .after 5 })) 0,
      .advance 5,
      .execute (.onKeys (.set [110] [52, 49] {})) 0]
    let other := (new .default .standard).run [
      .advance 5, .execute (.onKeys (.push [108] [[97], [98]] .left false)) 0]
    let rename : KeyCommand := .rename [108] [107]
    let incr : KeyCommand := .incrBy [110] 1
    (e.execute (.onKeys rename) 0).1 = (other.execute (.onKeys rename) 0).1 ∧
      (e.execute (.onKeys rename) 0).2.keyspace.live [110] = e.keyspace.live [110] ∧
      ((e.execute (.onKeys rename) 0).2.execute (.onKeys incr) 0).2.keyspace.live =
        ((e.execute (.onKeys incr) 0).2.execute (.onKeys rename) 0).2.keyspace.live := by
  intro e other rename incr
  refine ⟨?_, ?_, ?_⟩
  · exact (commands_local.1 e other rename 0 0 rfl (by decide)).1
  · exact commands_local.2.1 e rename 0 [110] (by decide)
  · exact (commands_local.2.2 e rename incr 0 0 (by decide)).2.2

end Engine
end KeyStore
