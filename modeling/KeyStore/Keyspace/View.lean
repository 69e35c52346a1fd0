import KeyStore.Keyspace

/-! The live view of a keyspace: what each step on a cell, and each operation on one key, does to the
entries that commands see. An operation on a key leaves every other key as it was, and what it does
to its own key does not depend on whether an expired entry is still in its cell. -/
namespace KeyStore
namespace Slot

@[simp] theorem live_live (s : Slot) (now : Instant) : (s.live now).live now = s.live now := by
  cases s with
  | none => rfl
  | some e => by_cases h : e.isDue now = true <;> simp [live, Option.filter, h]

theorem live_of_isDue {e : Entry} {now : Instant} (h : e.isDue now = true) :
    Slot.live (some e) now = none := by simp [live, Option.filter, h]

theorem live_of_not_isDue {e : Entry} {now : Instant} (h : e.isDue now = false) :
    Slot.live (some e) now = some e := by simp [live, Option.filter, h]

@[simp] theorem live_none (now : Instant) : Slot.live none now = none := rfl

@[simp] theorem nonempty_none : Slot.nonempty none = none := rfl

end Slot

namespace Keyspace
open Std

@[simp] theorem now_hold (ks : Keyspace) (k : Key) : (ks.hold k).now = ks.now := rfl

@[simp] theorem now_settle (ks : Keyspace) (k : Key) (s : Slot) : (ks.settle k s).now = ks.now := rfl

@[simp] theorem now_lapse (ks : Keyspace) (k : Key) : (ks.lapse k).2.now = ks.now := by
  rw [lapse]; split <;> rfl

@[simp] theorem now_lapseLazily (ks : Keyspace) (k : Key) : (ks.lapseLazily k).now = ks.now := by
  rw [lapseLazily, lapse]
  by_cases h : (ks.slot k).any (·.isDue ks.now) = true <;> simp only [h] <;> rfl

@[simp] theorem now_release (ks : Keyspace) (k : Key) : (ks.release k).now = ks.now := by
  rw [release]; split <;> rfl

@[simp] theorem slot_hold (ks : Keyspace) (k j : Key) : (ks.hold k).slot j = ks.slot j := by
  simp only [slot, hold, ExtTreeMap.getElem?_insertIfNew]
  grind

theorem slot_insert (ks : Keyspace) (k j : Key) (s : Slot) (v : ExtTreeSet Key) :
    { ks with cells := ks.cells.insert k s, volatile := v }.slot j =
      if k = j then s else ks.slot j := by
  simp only [slot, ExtTreeMap.getElem?_insert]
  split <;> simp_all

theorem slot_lapse (ks : Keyspace) (k j : Key) :
    (ks.lapse k).2.slot j = if k = j then ks.live k else ks.slot j := by
  rw [lapse]
  cases h : ks.slot k with
  | none =>
    simp only [Option.any_none, Bool.false_eq_true, if_false, live, h, Slot.live_none]
    split
    · simp_all
    · rfl
  | some e =>
    cases hd : e.isDue ks.now with
    | true => simp only [Option.any_some, hd, if_true, slot_insert, live, h, Slot.live_of_isDue hd]
    | false =>
      simp only [Option.any_some, hd, Bool.false_eq_true, if_false, live, h, Slot.live_of_not_isDue hd]
      split
      · simp_all
      · rfl

theorem slot_lapseLazily (ks : Keyspace) (k j : Key) :
    (ks.lapseLazily k).slot j = if k = j then ks.live k else ks.slot j := by
  rw [← slot_lapse, lapseLazily]; dsimp only; split <;> rfl

theorem slot_settle (ks : Keyspace) (k j : Key) (s : Slot) :
    (ks.settle k s).slot j = if k = j then s.nonempty else ks.slot j := slot_insert ..

@[simp] theorem slot_release (ks : Keyspace) (k j : Key) : (ks.release k).slot j = ks.slot j := by
  rw [release]
  split
  · simp only [slot, ExtTreeMap.getElem?_erase]; grind
  · rfl

@[simp] theorem live_hold (ks : Keyspace) (k j : Key) : (ks.hold k).live j = ks.live j := by
  simp [live]

@[simp] theorem live_release (ks : Keyspace) (k j : Key) : (ks.release k).live j = ks.live j := by
  simp [live]

@[simp] theorem live_lapse (ks : Keyspace) (k j : Key) : (ks.lapse k).2.live j = ks.live j := by
  simp only [live, slot_lapse, now_lapse]
  split <;> simp_all

@[simp] theorem live_lapseLazily (ks : Keyspace) (k j : Key) :
    (ks.lapseLazily k).live j = ks.live j := by
  simp only [live, slot_lapseLazily, now_lapseLazily]
  split <;> simp_all

theorem live_settle (ks : Keyspace) (k j : Key) (s : Slot) :
    (ks.settle k s).live j = if k = j then s.nonempty.live ks.now else ks.live j := by
  simp only [live, slot_settle, now_settle]
  split <;> rfl

theorem live_eq_none (ks : Keyspace) (k : Key) (h : k ∉ ks.cells) : ks.live k = none := by
  simp [live, slot, ExtTreeMap.getElem?_eq_none h]

theorem mem_cells_of_live (ks : Keyspace) (k : Key) (h : (ks.live k).isSome) : k ∈ ks.cells := by
  by_cases hk : k ∈ ks.cells
  · exact hk
  · rw [ks.live_eq_none k hk] at h
    cases h

theorem read_fst (ks : Keyspace) (k : Key) (f : Slot → α) : (ks.read k f).1 = f (ks.live k) := by
  rw [read]
  split
  · simp [slot_lapseLazily]
  · simp_all [live_eq_none]

@[simp] theorem live_read (ks : Keyspace) (k j : Key) (f : Slot → α) :
    (ks.read k f).2.live j = ks.live j := by
  rw [read]; split <;> simp

theorem update_fst (ks : Keyspace) (k : Key) (f : Slot → α × Slot) :
    (ks.update k f).1 = (f (ks.live k)).1 := by
  simp [update, slot_lapseLazily]

/-- What a writer leaves is seen by the next, unless it is empty or has expired already. -/
theorem live_update (ks : Keyspace) (k j : Key) (f : Slot → α × Slot) :
    (ks.update k f).2.live j =
      if k = j then (f (ks.live k)).2.nonempty.live ks.now else ks.live j := by
  simp [update, slot_lapseLazily, live_settle]

theorem remove_fst (ks : Keyspace) (k : Key) : (ks.remove k).1 = (ks.live k).isSome := by
  rw [remove]
  split
  · simp [slot_lapse]
  · simp_all [live_eq_none]

theorem live_remove (ks : Keyspace) (k j : Key) :
    (ks.remove k).2.live j = if k = j then none else ks.live j := by
  rw [remove]
  split
  · rw [live_release, live, slot_insert, ← live_lapse ks k j, live]
    split <;> rfl
  · split
    · simp_all [live_eq_none]
    · rfl

@[simp] theorem live_expireIfDue (ks : Keyspace) (k j : Key) :
    (ks.expireIfDue k).2.live j = ks.live j := by
  rw [expireIfDue]
  split
  · rw [← live_lapse ks k j, ← live_release (ks.lapse k).2 k j]
    dsimp only
    split <;> rfl
  · rfl

end Keyspace
end KeyStore
