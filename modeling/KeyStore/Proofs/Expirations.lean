import KeyStore.Proofs.Maps
import KeyStore.Proofs.Steps

/-! The count of expired entries. An entry that has expired stays until a step comes across it, and the
step then counts it, once. Only the removal of a key does not: what it finds expired goes uncounted. -/
namespace KeyStore
open Std

namespace Keyspace

/-- The expired entries that were counted, by whichever step came across them. -/
def expired (ks : Keyspace) : Nat := ks.lazilyExpired + ks.activelyExpired

def holdsDue (ks : Keyspace) (k : Key) : Bool := (ks.slot k).any (·.isDue ks.now)

def dueKeys (ks : Keyspace) : List Key := ks.cells.keys.filter ks.holdsDue

theorem nodup_dueKeys (ks : Keyspace) : ks.dueKeys.Nodup := (nodup_keys ks.cells).filter _

theorem mem_dueKeys (ks : Keyspace) (k : Key) : k ∈ ks.dueKeys ↔ ks.holdsDue k = true := by
  rw [dueKeys, List.mem_filter, and_iff_right_iff_imp]
  intro hdue
  obtain ⟨e, he, -⟩ := (Option.any_eq_true ..).mp hdue
  have hcell : ks.cells[k]? = some (some e) := Option.join_eq_some_iff.mp he
  rw [ExtTreeMap.mem_keys, ExtTreeMap.mem_iff_isSome_getElem?, hcell]
  rfl

theorem live_eq_ite (ks : Keyspace) (k : Key) :
    ks.live k = if ks.holdsDue k = true then none else ks.slot k := by
  rw [live, holdsDue]
  cases ks.slot k with
  | none => rfl
  | some e =>
    cases hd : e.isDue ks.now with
    | true => simp [Slot.live_of_isDue hd, hd]
    | false => simp [Slot.live_of_not_isDue hd, hd]

theorem expiring_of_holdsDue {ks : Keyspace} {k : Key} (h : ks.holdsDue k = true) :
    ∃ e, ks.slot k = some e ∧ e.expiresAt.isSome := by
  obtain ⟨e, he, hdue⟩ := (Option.any_eq_true ..).mp h
  obtain ⟨t, ht, -⟩ := (Option.any_eq_true ..).mp hdue
  exact ⟨e, he, by simp [ht]⟩

theorem holdsDue_of_slot_eq {ks ks' : Keyspace} {k : Key} (hnow : ks'.now = ks.now)
    (hslot : ks'.slot k = ks.slot k) : ks'.holdsDue k = ks.holdsDue k := by
  rw [holdsDue, holdsDue, hnow, hslot]

@[simp] theorem expired_hold (ks : Keyspace) (k : Key) : (ks.hold k).expired = ks.expired := rfl

@[simp] theorem expired_settle (ks : Keyspace) (k : Key) (s : Slot) :
    (ks.settle k s).expired = ks.expired := rfl

@[simp] theorem expired_release (ks : Keyspace) (k : Key) : (ks.release k).expired = ks.expired := by
  rw [release]
  split <;> rfl

theorem expired_lapse (ks : Keyspace) (k : Key) : (ks.lapse k).2.expired = ks.expired := by
  rw [lapse]
  split <;> rfl

theorem lapse_fst (ks : Keyspace) (k : Key) : (ks.lapse k).1 = ks.holdsDue k := by
  rw [lapse, holdsDue]
  split
  · rename_i hdue
    exact hdue.symm
  · rename_i hdue
    exact (Bool.not_eq_true _).mp hdue |>.symm

theorem expired_lapseLazily (ks : Keyspace) (k : Key) :
    (ks.lapseLazily k).expired = ks.expired + if ks.holdsDue k = true then 1 else 0 := by
  rw [lapseLazily, ← lapse_fst, ← ks.expired_lapse k]
  dsimp only
  split
  · exact Nat.add_right_comm ..
  · rfl

theorem holdsDue_of_notMem (ks : Keyspace) {k : Key} (h : ¬ ks.cells.contains k = true) :
    ks.holdsDue k = false := by
  have hcell : ks.cells[k]? = none := ExtTreeMap.getElem?_eq_none (by simpa using h)
  simp [holdsDue, slot, hcell]

theorem expired_read (ks : Keyspace) (k : Key) (f : Slot → α) :
    (ks.read k f).2.expired = ks.expired + if ks.holdsDue k = true then 1 else 0 := by
  rw [read]
  split
  · exact (expired_release ..).trans (ks.expired_lapseLazily k)
  · rename_i h
    simp [ks.holdsDue_of_notMem h]

theorem expired_expireIfDue (ks : Keyspace) (k : Key) :
    (ks.expireIfDue k).2.expired = ks.expired + if ks.holdsDue k = true then 1 else 0 := by
  rw [expireIfDue]
  split
  · have hstays : ((ks.lapse k).2.release k).expired = ks.expired :=
      (expired_release ..).trans (ks.expired_lapse k)
    rw [← lapse_fst, ← hstays]
    dsimp only
    split <;> rfl
  · rename_i h
    simp [ks.holdsDue_of_notMem h, expired]

theorem slot_expireIfDue (ks : Keyspace) (k j : Key) :
    (ks.expireIfDue k).2.slot j = if k = j then ks.live k else ks.slot j := by
  rw [← slot_row, row_expireIfDue]
  split
  · rename_i h
    subst h
    split
    · exact Row.slot_looked ..
    · rename_i hc
      have hnone : ks.slot k = none := by
        rw [← slot_row, Row.slot, show (ks.row k).cell = none by simpa using hc]
        rfl
      rw [live, hnone]
      rfl
  · rfl

theorem expired_update (ks : Keyspace) (k : Key) (f : Slot → α × Slot) :
    (ks.update k f).2.expired = ks.expired + if ks.holdsDue k = true then 1 else 0 := by
  have hdue : (ks.hold k).holdsDue k = ks.holdsDue k := holdsDue_of_slot_eq rfl (ks.slot_hold k k)
  rw [← hdue]
  simp only [update, expired_release, expired_settle]
  exact expired_lapseLazily ..

theorem expired_remove (ks : Keyspace) (k : Key) : (ks.remove k).2.expired = ks.expired := by
  rw [remove]
  split
  · exact (expired_release ..).trans (ks.expired_lapse k)
  · rfl

theorem slot_remove (ks : Keyspace) (k j : Key) :
    (ks.remove k).2.slot j = if k = j then none else ks.slot j := by
  rw [← slot_row, row_remove]
  split <;> rfl

theorem expired_foldl_lapseLazily (keys : List Key) (hnd : keys.Nodup) (ks : Keyspace) :
    (keys.foldl lapseLazily ks).expired = ks.expired + keys.countP ks.holdsDue := by
  induction keys generalizing ks with
  | nil => rfl
  | cons k keys ih =>
    obtain ⟨hk, hnd⟩ := List.nodup_cons.mp hnd
    have hothers : keys.countP (ks.lapseLazily k).holdsDue = keys.countP ks.holdsDue := by
      apply List.countP_congr
      intro j hj
      have hne : k ≠ j := fun h => hk (h ▸ hj)
      have hslot : (ks.lapseLazily k).slot j = ks.slot j := by rw [slot_lapseLazily, if_neg hne]
      rw [holdsDue_of_slot_eq (now_lapseLazily ks k) hslot]
    rw [List.foldl_cons, ih hnd, hothers, expired_lapseLazily, List.countP_cons]
    omega

theorem expired_withHeld (ks : Keyspace) (keys : List Key) (f : Held → α × Held) :
    (ks.withHeld keys f).2.expired = ks.expired + (inOrder keys).countP ks.holdsDue := by
  have hdue : ((inOrder keys).foldl hold ks).holdsDue = ks.holdsDue := funext fun k =>
    holdsDue_of_slot_eq (now_foldl hold now_hold _ ks)
      (foldl_frame (slot · k) hold (slot_hold · · k) _ ks)
  have hgrasp : (ks.grasp keys).expired = ks.expired + (inOrder keys).countP ks.holdsDue := by
    rw [grasp, expired_foldl_lapseLazily _ (nodup_inOrder keys), hdue,
      foldl_frame expired hold expired_hold]
  rw [withHeld_snd, foldl_frame expired release expired_release,
    foldl_frame expired _ fun _ _ => expired_settle .., hgrasp]

/-- The second keyspace is the first after looks at some keys: what had expired of what they looked at has
gone, and was counted. -/
structure Drops (ks ks' : Keyspace) (gone : List Key) : Prop where
  now : ks'.now = ks.now
  nodup : gone.Nodup
  due : ∀ k ∈ gone, ks.holdsDue k = true
  slot : ∀ k, ks'.slot k = if k ∈ gone then none else ks.slot k
  expired : ks'.expired = ks.expired + gone.length

namespace Drops
variable {a b c : Keyspace} {gone gone' : List Key}

theorem refl (ks : Keyspace) : Drops ks ks [] := ⟨rfl, List.nodup_nil, by simp, by simp, rfl⟩

theorem disjoint (h : Drops a b gone) (h' : Drops b c gone') {k : Key} (hk : k ∈ gone) : k ∉ gone' := by
  intro hk'
  have hdue := h'.due k hk'
  rw [holdsDue, h.slot, if_pos hk] at hdue
  cases hdue

theorem trans (h : Drops a b gone) (h' : Drops b c gone') : Drops a c (gone ++ gone') where
  now := h'.now.trans h.now
  nodup := List.nodup_append.mpr ⟨h.nodup, h'.nodup, fun _ hk _ hk' heq => h.disjoint h' hk (heq ▸ hk')⟩
  due k hk := by
    rcases List.mem_append.mp hk with hfirst | hsecond
    · exact h.due k hfirst
    · have hnot : k ∉ gone := fun hfirst => h.disjoint h' hfirst hsecond
      have hslot : b.slot k = a.slot k := by rw [h.slot, if_neg hnot]
      rw [← holdsDue_of_slot_eq h.now hslot]
      exact h'.due k hsecond
  slot k := by
    rw [h'.slot, h.slot]
    by_cases hfirst : k ∈ gone <;> by_cases hsecond : k ∈ gone' <;> simp [hfirst, hsecond]
  expired := by
    rw [h'.expired, h.expired, List.length_append]
    omega

theorem of_look {ks ks' : Keyspace} (k : Key) (hnow : ks'.now = ks.now)
    (hslot : ∀ j, ks'.slot j = if k = j then ks.live k else ks.slot j)
    (hexpired : ks'.expired = ks.expired + if ks.holdsDue k = true then 1 else 0) :
    Drops ks ks' ([k].filter ks.holdsDue) where
  now := hnow
  nodup := (List.nodup_singleton k).filter _
  due j hj := (List.mem_filter.mp hj).2
  slot j := by
    simp only [hslot, live_eq_ite, List.mem_filter, List.mem_singleton]
    by_cases hkj : k = j
    · subst hkj
      simp
    · simp [hkj, Ne.symm hkj]
  expired := by rw [hexpired, ← List.countP_eq_length_filter, List.countP_singleton]

end Drops

def DropsSome (ks ks' : Keyspace) : Prop := ∃ gone, Drops ks ks' gone

theorem DropsSome.refl (ks : Keyspace) : DropsSome ks ks := ⟨[], Drops.refl ks⟩

theorem DropsSome.trans {a b c : Keyspace} (h : DropsSome a b) (h' : DropsSome b c) : DropsSome a c := by
  obtain ⟨gone, h⟩ := h
  obtain ⟨gone', h'⟩ := h'
  exact ⟨gone ++ gone', h.trans h'⟩

theorem dropsSome_read (ks : Keyspace) (k : Key) (f : Slot → α) : DropsSome ks (ks.read k f).2 :=
  ⟨_, .of_look k (still_read ks k f).now (slot_read ks k · f) (ks.expired_read k f)⟩

theorem drops_expireIfDue (ks : Keyspace) (k : Key) :
    Drops ks (ks.expireIfDue k).2 ([k].filter ks.holdsDue) :=
  .of_look k (congrArg Clock.now (clock_hash_expireIfDue ks k).1) (ks.slot_expireIfDue k)
    (ks.expired_expireIfDue k)

theorem dropsSome_expireIfDue (ks : Keyspace) (k : Key) : DropsSome ks (ks.expireIfDue k).2 :=
  ⟨_, ks.drops_expireIfDue k⟩

theorem dropsSome_readEach (f : Slot → α) (keys : List Key) (ks : Keyspace) :
    DropsSome ks (readEach f keys ks).2 :=
  readEach_keeps (fun ks' k h => h.trans (ks'.dropsSome_read k f)) keys ks (.refl ks)

theorem dropsSome_scan (ks : Keyspace) (cursor : UInt64) (count : Nat) (filter : Key → Entry → Bool) :
    DropsSome ks (ks.scan cursor count filter).2 :=
  scan_keeps (fun ks' k f h => h.trans (ks'.dropsSome_read k f)) ks _ _ _ (.refl ks)

theorem dropsSome_sweep (ks : Keyspace) (sampler : Sampler) : DropsSome ks (ks.sweep sampler).2 :=
  sweep_keeps (fun ks' k h => h.trans (ks'.dropsSome_expireIfDue k)) ks sampler (.refl ks)

/-- The keys whose expired entries a step removed or replaced: it wrote them, or they hold no longer what
they held. -/
def lost (ks ks' : Keyspace) (written : List Key) : List Key :=
  ks.dueKeys.filter fun k => written.contains k || ks'.slot k != ks.slot k

/-- All that was lost was counted, but for what was found under the keys that were removed. -/
def Accounts (ks ks' : Keyspace) (written removed : List Key) : Prop :=
  ks'.expired = ks.expired + ((ks.lost ks' written).filter fun k => !removed.contains k).length

theorem mem_lost {ks ks' : Keyspace} {written : List Key} {k : Key} :
    k ∈ ks.lost ks' written ↔ ks.holdsDue k = true ∧ (k ∈ written ∨ ks'.slot k ≠ ks.slot k) := by
  simp [lost, mem_dueKeys]

theorem accounts_of_list {ks ks' : Keyspace} {written removed : List Key} (keys : List Key)
    (hnd : keys.Nodup)
    (hmem : ∀ k, k ∈ keys ↔
      (ks.holdsDue k = true ∧ (k ∈ written ∨ ks'.slot k ≠ ks.slot k)) ∧ k ∉ removed)
    (hexpired : ks'.expired = ks.expired + keys.length) : Accounts ks ks' written removed := by
  have hlost : (ks.lost ks' written).Nodup := ks.nodup_dueKeys.filter _
  have hperm : keys.Perm ((ks.lost ks' written).filter fun k => !removed.contains k) := by
    apply (List.perm_ext_iff_of_nodup hnd (hlost.filter _)).mpr
    intro k
    rw [hmem, List.mem_filter, mem_lost]
    simp
  rw [Accounts, hexpired, hperm.length_eq]

theorem slot_ne_none_of_holdsDue {ks : Keyspace} {k : Key} (h : ks.holdsDue k = true) :
    ks.slot k ≠ none := by
  intro hnone
  rw [holdsDue, hnone] at h
  cases h

theorem DropsSome.accounts {ks ks' : Keyspace} (h : DropsSome ks ks') : Accounts ks ks' [] [] := by
  obtain ⟨gone, h⟩ := h
  refine accounts_of_list gone h.nodup (fun k => ⟨fun hk => ?_, fun hk => ?_⟩) h.expired
  · have hdue := h.due k hk
    have hgone : ks'.slot k = none := by rw [h.slot, if_pos hk]
    exact ⟨⟨hdue, .inr (hgone ▸ (slot_ne_none_of_holdsDue hdue).symm)⟩, List.not_mem_nil⟩
  · obtain ⟨⟨-, hwritten | hchanged⟩, -⟩ := hk
    · cases hwritten
    · exact Classical.byContradiction fun hnot => hchanged (by rw [h.slot, if_neg hnot])

theorem accounts_of_written {ks ks' : Keyspace} {written : List Key} (keys : List Key) (hnd : keys.Nodup)
    (hmem : ∀ k, k ∈ keys ↔ k ∈ written) (hslot : ∀ k, k ∉ written → ks'.slot k = ks.slot k)
    (hexpired : ks'.expired = ks.expired + keys.countP ks.holdsDue) : Accounts ks ks' written [] := by
  refine accounts_of_list (keys.filter ks.holdsDue) (hnd.filter _) (fun k => ?_) ?_
  · rw [List.mem_filter, hmem]
    constructor
    · rintro ⟨hk, hdue⟩
      exact ⟨⟨hdue, .inl hk⟩, List.not_mem_nil⟩
    · rintro ⟨⟨hdue, hk | hchanged⟩, -⟩
      · exact ⟨hk, hdue⟩
      · exact Classical.byContradiction fun hnot => hchanged (hslot k fun hk => hnot ⟨hk, hdue⟩)
  · rw [hexpired, List.countP_eq_length_filter]

theorem accounts_update (ks : Keyspace) (k : Key) (f : Slot → α × Slot) :
    Accounts ks (ks.update k f).2 [k] [] := by
  refine accounts_of_written [k] (by simp) (fun _ => Iff.rfl) (fun j hj => ?_) ?_
  · rw [slot_update, if_neg fun h => hj (by simp [h])]
  · rw [expired_update, List.countP_singleton]

theorem accounts_withHeld (ks : Keyspace) (keys : List Key) (f : Held → α × Held) :
    Accounts ks (ks.withHeld keys f).2 keys [] := by
  refine accounts_of_written (inOrder keys) (nodup_inOrder keys) (mem_inOrder keys) (fun j hj => ?_)
    (ks.expired_withHeld keys f)
  rw [slot_withHeld, if_neg hj]

theorem accounts_of_removed {ks ks' : Keyspace} {removed : List Key}
    (hslot : ∀ k, k ∉ removed → ks'.slot k = ks.slot k) (hexpired : ks'.expired = ks.expired) :
    Accounts ks ks' [] removed := by
  refine accounts_of_list [] List.nodup_nil (fun k => ?_) hexpired
  refine iff_of_false List.not_mem_nil ?_
  rintro ⟨⟨-, hwritten | hchanged⟩, hnot⟩
  · cases hwritten
  · exact hchanged (hslot k hnot)

theorem accounts_of_same {ks ks' : Keyspace} (hslot : ∀ k, ks'.slot k = ks.slot k)
    (hexpired : ks'.expired = ks.expired) : Accounts ks ks' [] [] :=
  accounts_of_removed (fun k _ => hslot k) hexpired

theorem removeEach_frame (keys : List Key) (ks : Keyspace) :
    (removeEach keys ks).2.expired = ks.expired ∧
      ∀ j, j ∉ keys → (removeEach keys ks).2.slot j = ks.slot j := by
  induction keys generalizing ks with
  | nil => exact ⟨rfl, fun _ _ => rfl⟩
  | cons k keys ih =>
    obtain ⟨hexpired, hslot⟩ := ih (ks.remove k).2
    refine ⟨hexpired.trans (ks.expired_remove k), fun j hj => ?_⟩
    have hne : k ≠ j := fun h => hj (h ▸ List.mem_cons_self)
    have hnot : j ∉ keys := fun h => hj (List.mem_cons_of_mem k h)
    exact (hslot j hnot).trans ((ks.slot_remove k j).trans (if_neg hne))

end Keyspace

namespace Task

def written : Task → List Key
  | edit key _ => [key]
  | together keys _ => keys
  | _ => []

def removed : Task → List Key
  | removeEach keys => keys
  | _ => []

theorem accounts (t : Task) (ks : Keyspace) : ks.Accounts (t.run ks).2 t.written t.removed := by
  cases t with
  | refuse e => exact Keyspace.accounts_of_same (fun _ => rfl) rfl
  | look key f => exact (ks.dropsSome_read key f).accounts
  | lookEach keys f => exact (Keyspace.dropsSome_readEach id keys ks).accounts
  | edit key f => exact ks.accounts_update key f
  | together keys f => exact ks.accounts_withHeld keys f
  | removeEach keys =>
    obtain ⟨hexpired, hslot⟩ := Keyspace.removeEach_frame keys ks
    exact Keyspace.accounts_of_removed hslot hexpired

end Task

namespace KeyspaceCall

def written : KeyspaceCall → List Key
  | set key .. | update key _ => [key]
  | withHeld keys _ => keys
  | _ => []

def removed : KeyspaceCall → List Key
  | remove key => [key]
  | _ => []

def flushes : KeyspaceCall → Bool
  | flush => true
  | _ => false

end KeyspaceCall

theorem Keyspace.accounts_after (ks : Keyspace) (c : KeyspaceCall) (h : c.flushes = false) :
    ks.Accounts (ks.after c) c.written c.removed := by
  cases c with
  | get key => exact (ks.dropsSome_read key id).accounts
  | set key value expiresAt => exact ks.accounts_update key _
  | update key f => exact ks.accounts_update key _
  | withHeld keys f => exact ks.accounts_withHeld keys _
  | scan cursor count filter => exact (ks.dropsSome_scan cursor count filter).accounts
  | expireIfDue key => exact (ks.dropsSome_expireIfDue key).accounts
  | sweep sampler => exact (ks.dropsSome_sweep sampler).accounts
  | flush => cases h
  | remove key =>
    refine accounts_of_removed (fun j hj => ?_) (ks.expired_remove key)
    have hne : key ≠ j := fun h => hj (List.mem_singleton.mpr h.symm)
    exact (ks.slot_remove key j).trans (if_neg hne)

namespace Event

def flushes : Event → Bool
  | execute (.onServer .flushdb) _ => true
  | direct c => c.flushes
  | _ => false

end Event

namespace Engine

def writtenAt (e : Engine Q) : Event → List Key
  | .execute (.onKeys c) _ => (c.task e.keyspace.clock).written
  | .direct c => c.written
  | _ => []

/-- The keys that a step removes outright. -/
def removedAt (e : Engine Q) : Event → List Key
  | .execute (.onKeys c) _ => (c.task e.keyspace.clock).removed
  | .direct c => c.removed
  | _ => []

def lostAt (e : Engine Q) (step : Event) : List Key :=
  e.keyspace.lost (e.after step).keyspace (e.writtenAt step)

/-- Those of them that a step does not remove outright. -/
def countedAt (e : Engine Q) (step : Event) : List Key :=
  (e.lostAt step).filter fun k => !(e.removedAt step).contains k

theorem accounts_serve (e : Engine Q) {c : ServerCommand} (h : c ≠ .flushdb) :
    e.keyspace.Accounts (e.serve c).2.keyspace [] [] := by
  rcases e.keyspace_serve c with ⟨hflush, -⟩ | ⟨cursor, count, filter, hscan⟩ | hsame
  · exact absurd hflush h
  · rw [hscan]
    exact (e.keyspace.dropsSome_scan cursor count filter).accounts
  · rw [hsame]
    exact Keyspace.accounts_of_same (fun _ => rfl) rfl

/-- A step counts the expired entries that it removes or replaces, but for those that it removes outright. -/
theorem expired_after (e : Engine Q) {step : Event} (hstep : step.IsStep) (hflush : step.flushes = false) :
    (e.after step).keyspace.expired = e.keyspace.expired + (e.countedAt step).length := by
  cases step with
  | call words nanos => cases hstep
  | batch b nanos => cases hstep
  | execute c nanos =>
    cases c with
    | onKeys c => exact (c.task e.keyspace.clock).accounts e.keyspace
    | onServer c =>
      refine e.accounts_serve fun h => ?_
      subst h
      cases hflush
  | direct c => exact e.keyspace.accounts_after c hflush
  | _ => exact Keyspace.accounts_of_same (fun _ => rfl) rfl

theorem expired_run (steps : List Event)
    (h : ∀ step ∈ steps, step.IsStep ∧ step.flushes = false) (e : Engine Q) :
    (e.run steps).keyspace.expired = e.keyspace.expired + (e.gather countedAt steps).length := by
  induction steps generalizing e with
  | nil => rfl
  | cons step steps ih =>
    obtain ⟨⟨hstep, hflush⟩, hrest⟩ := List.forall_mem_cons.mp h
    rw [run_cons, ih hrest, e.expired_after hstep hflush, gather, List.length_append, Nat.add_assoc]

def expiredLine (n : Nat) : String := "expired_keys:" ++ toString n ++ crlf

theorem statsInfo_eq (e : Engine Q) :
    ∃ before after : String, e.statsInfo = before ++ expiredLine e.keyspace.expired ++ after := by
  refine ⟨"# Stats" ++ crlf ++ "total_commands_processed:" ++ toString e.stats.totalCalls ++ crlf,
    "expired_keys_active:" ++ toString e.keyspace.activelyExpired ++ crlf ++
      "expired_keys_lazy:" ++ toString e.keyspace.lazilyExpired ++ crlf ++ crlf, ?_⟩
  unfold statsInfo expiredLine Keyspace.expired
  simp only [String.append_assoc]

theorem execute_info_stats (e : Engine Q) (nanos : Nat) :
    (e.execute (.onServer (.info (some "stats"))) nanos).1 = .ok (.text e.statsInfo) := by
  have hkeyspace : (some "stats" == some "keyspace") = false := by decide
  have hpubsub : (some "stats" == some "pubsub") = false := by decide
  have hcommands : (some "stats" == some "commandstats") = false := by decide
  have hinfo : e.info (some "stats") = e.statsInfo := by simp [info, hkeyspace, hpubsub, hcommands]
  rw [← hinfo]
  rfl

/-- Expirations are counted. After any run, a step that does not empty the keyspace counts each expired
entry that it removes or replaces, once, save those under keys that it removes outright; so after a run that
never emptied it, INFO tells how many expired entries have gone in another way than by removal. -/
theorem expirations_counted (config : Config) (base : Base Q) (evs : List Event) :
    let e := (new config base).run evs
    let counted := (new config base).gather countedAt (stepwise evs)
    (∀ step : Event, step.IsStep → step.flushes = false →
      (e.after step).keyspace.expired = e.keyspace.expired + (e.countedAt step).length) ∧
    ((∀ step ∈ stepwise evs, step.flushes = false) →
      e.keyspace.expired = counted.length ∧
      ∀ nanos : Nat, ∃ before after, (e.execute (.onServer (.info (some "stats"))) nanos).1 =
        .ok (.text (before ++ expiredLine counted.length ++ after))) := by
  intro e counted
  refine ⟨fun step hstep hflush => e.expired_after hstep hflush, fun hflush => ?_⟩
  have hexpired : e.keyspace.expired = counted.length := by
    have hrun := expired_run (stepwise evs)
      (fun step hmem => ⟨isStep_of_mem_stepwise hmem, hflush step hmem⟩) (new config base)
    rw [run_stepwise] at hrun
    exact hrun.trans (Nat.zero_add _)
  obtain ⟨before, after, htext⟩ := e.statsInfo_eq
  refine ⟨hexpired, fun nanos => ⟨before, after, ?_⟩⟩
  rw [e.execute_info_stats, htext, hexpired]

/-- Of four strings that have expired one is read, one is written over and one is removed. The last is not
counted; a sweep then counts the fourth. -/
theorem expirations_counted_of_session :
    let set (k : Key) : Event := .execute (.onKeys (.set k [118] { expiry := .after 5 })) 0
    let read : Event := .execute (.onKeys (.get [97])) 0
    let write : Event := .execute (.onKeys (.sadd [98] [[120]])) 0
    let remove : Event := .execute (.onKeys (.del [[99]])) 0
    let evs : List Event := [set [97], set [98], set [99], set [100], .advance 5, read, write, remove]
    let e := (new .default .standard).run evs
    (e.after (.direct (.sweep (.first 20)))).keyspace.expired = 3 ∧ e.keyspace.expired = 2 ∧
      ∀ nanos : Nat, ∃ before after, (e.execute (.onServer (.info (some "stats"))) nanos).1 =
        .ok (.text (before ++ expiredLine 2 ++ after)) := by
  intro set read write remove evs e
  obtain ⟨hstep, hrun⟩ := expirations_counted .default .standard evs
  obtain ⟨hexpired, hline⟩ := hrun (by decide)
  have hcounted : ((new .default .standard).gather countedAt (stepwise evs)).length = 2 := by decide
  rw [hcounted] at hexpired hline
  have hswept : e.countedAt (.direct (.sweep (.first 20))) = [[100]] := by decide
  refine ⟨?_, hexpired, hline⟩
  rw [hstep (.direct (.sweep (.first 20))) trivial rfl, hswept, hexpired]
  rfl

/-- A removal that comes across an expired entry does not count it, though a read would. -/
theorem removal_uncounted :
    let e := (new .default .standard).run [
      .execute (.onKeys (.set [107] [118] { expiry := .after 100 })) 0, .advance 100]
    let remove : Event := .execute (.onKeys (.del [[107]])) 0
    let read : Event := .execute (.onKeys (.get [107])) 0
    e.lostAt remove = [[107]] ∧ (e.after remove).keyspace.expired = e.keyspace.expired ∧
      e.lostAt read = [[107]] ∧ (e.after read).keyspace.expired = e.keyspace.expired + 1 := by
  exact ⟨by decide, by decide, by decide, by decide⟩

end Engine
end KeyStore
