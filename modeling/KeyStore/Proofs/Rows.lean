import KeyStore.Keyspace.Held
import KeyStore.Keyspace.View

/-! Rows: all that a keyspace keeps about one key. Each step on a cell changes one row and no other,
so that an operation on keys is known by what it does to their rows. -/
namespace KeyStore
open Std

/-- What is kept about a key: its cell, if it has one, and whether the index lists it. -/
structure Row where
  cell : Option Slot
  indexed : Bool

namespace Row

def slot (r : Row) : Slot := r.cell.join

def hold (r : Row) : Row := ⟨some r.slot, r.indexed⟩

def lapse (now : Instant) (r : Row) : Row :=
  if r.slot.any (·.isDue now) then ⟨some none, false⟩ else r

def settled (s : Slot) : Row := ⟨some s, s.any (·.expiresAt.isSome)⟩

def release (r : Row) : Row :=
  match r.cell with
  | some none => ⟨none, r.indexed⟩
  | _ => r

/-- The row of a key in good order: a cell for an entry and none for nothing. -/
def tidy (s : Slot) : Row := ⟨s.map some, s.any (·.expiresAt.isSome)⟩

def looked (now : Instant) (r : Row) : Row :=
  if r.cell.isSome then (r.lapse now).release else r

@[simp] theorem slot_tidy (s : Slot) : (tidy s).slot = s := by cases s <;> rfl

@[simp] theorem release_settled (s : Slot) : (settled s).release = tidy s := by cases s <;> rfl

theorem slot_lapse (now : Instant) (r : Row) : (r.lapse now).slot = r.slot.live now := by
  rw [lapse]
  cases h : r.slot with
  | none => simp [h]
  | some e =>
    cases hd : e.isDue now with
    | true => simp [hd, Slot.live_of_isDue hd, slot]
    | false => simp [hd, Slot.live_of_not_isDue hd, h]

@[simp] theorem slot_release (r : Row) : r.release.slot = r.slot := by
  rw [release]
  split
  · rename_i h
    simp [slot, h]
  · rfl

@[simp] theorem slot_hold (r : Row) : r.hold.slot = r.slot := rfl

theorem slot_looked (now : Instant) (r : Row) : (r.looked now).slot = r.slot.live now := by
  rw [looked]
  split
  · rw [slot_release, slot_lapse]
  · rename_i h
    have hn : r.slot = none := by simp_all [slot]
    rw [hn, Slot.live_none]

end Row

namespace Keyspace

def row (ks : Keyspace) (k : Key) : Row := ⟨ks.cells[k]?, ks.volatile.contains k⟩

@[simp] theorem slot_row (ks : Keyspace) (k : Key) : (ks.row k).slot = ks.slot k := rfl

theorem row_insert (ks : Keyspace) (k j : Key) (s : Slot) (b : Bool) :
    { ks with
      cells := ks.cells.insert k s
      volatile := if b then ks.volatile.insert k else ks.volatile.erase k }.row j =
      if k = j then ⟨some s, b⟩ else ks.row j := by
  simp only [row, ExtTreeMap.getElem?_insert]
  by_cases h : k = j
  · subst h
    cases b <;> simp
  · cases b <;> simp [h]

theorem row_clear (ks : Keyspace) (k j : Key) :
    { ks with cells := ks.cells.insert k none, volatile := ks.volatile.erase k }.row j =
      if k = j then ⟨some none, false⟩ else ks.row j := row_insert ks k j none false

theorem isSome_cell_row (ks : Keyspace) (k : Key) :
    (ks.row k).cell.isSome = ks.cells.contains k := ExtTreeMap.contains_eq_isSome_getElem?.symm

theorem row_hold (ks : Keyspace) (k j : Key) :
    (ks.hold k).row j = if k = j then (ks.row j).hold else ks.row j := by
  simp only [row, Row.hold, Row.slot, hold, ExtTreeMap.getElem?_insertIfNew]
  by_cases h : k = j
  · subst h
    by_cases hm : k ∈ ks.cells <;> simp [hm]
  · simp [h]

theorem row_lapse (ks : Keyspace) (k j : Key) :
    (ks.lapse k).2.row j = if k = j then (ks.row j).lapse ks.now else ks.row j := by
  rw [lapse]
  split
  · rename_i hd
    rw [row_clear]
    split
    · rename_i hkj
      subst hkj
      simp [Row.lapse, hd]
    · rfl
  · rename_i hd
    split
    · rename_i hkj
      subst hkj
      simp [Row.lapse, hd]
    · rfl

theorem row_lapseLazily (ks : Keyspace) (k j : Key) :
    (ks.lapseLazily k).row j = if k = j then (ks.row j).lapse ks.now else ks.row j := by
  rw [← row_lapse]
  simp only [lapseLazily]
  split <;> rfl

theorem row_settle (ks : Keyspace) (k j : Key) (s : Slot) :
    (ks.settle k s).row j = if k = j then .settled s.nonempty else ks.row j :=
  row_insert ks k j s.nonempty _

theorem row_release (ks : Keyspace) (k j : Key) :
    (ks.release k).row j = if k = j then (ks.row j).release else ks.row j := by
  rw [release, Row.release]
  by_cases h : k = j
  · subst h
    cases hc : ks.cells[k]? with
    | none => simp [row, hc]
    | some s => cases s <;> simp [row, hc]
  · split <;> simp [row, h, ExtTreeMap.getElem?_erase]

theorem row_read (ks : Keyspace) (k j : Key) (f : Slot → α) :
    (ks.read k f).2.row j = if k = j then (ks.row j).looked ks.now else ks.row j := by
  rw [read, Row.looked]
  have hc := ks.isSome_cell_row k
  split
  · rename_i hm
    simp only [row_release, row_lapseLazily]
    by_cases h : k = j
    · subst h
      simp [hc, hm]
    · simp [h]
  · rename_i hm
    by_cases h : k = j
    · subst h
      simp [hc, hm]
    · simp [h]

theorem slot_read (ks : Keyspace) (k j : Key) (f : Slot → α) :
    (ks.read k f).2.slot j = if k = j then ks.live k else ks.slot j := by
  rw [← slot_row, row_read]
  split
  · rename_i h
    subst h
    exact Row.slot_looked ..
  · rfl

theorem row_update (ks : Keyspace) (k j : Key) (f : Slot → α × Slot) :
    (ks.update k f).2.row j =
      if k = j then .tidy (f (ks.live k)).2.nonempty else ks.row j := by
  simp only [update, row_release, row_settle, row_lapseLazily, row_hold, slot_lapseLazily,
    live_hold, if_true]
  by_cases h : k = j
  · simp [h]
  · simp [h]

theorem slot_update (ks : Keyspace) (k j : Key) (f : Slot → α × Slot) :
    (ks.update k f).2.slot j = if k = j then (f (ks.live k)).2.nonempty else ks.slot j := by
  rw [← slot_row, row_update]
  split
  · exact Row.slot_tidy _
  · rfl

theorem row_remove (ks : Keyspace) (k j : Key) :
    (ks.remove k).2.row j =
      if k = j then ⟨none, (ks.row j).cell.isNone && (ks.row j).indexed⟩ else ks.row j := by
  rw [remove]
  have hc := ks.isSome_cell_row k
  split
  · rename_i hm
    simp only [row_release, row_clear, row_lapse]
    by_cases hkj : k = j
    · subst hkj
      rw [hm] at hc
      obtain ⟨s, hs⟩ := Option.isSome_iff_exists.mp hc
      simp [Row.release, hs]
    · simp [hkj]
  · rename_i hm
    by_cases hkj : k = j
    · subst hkj
      have hn : (ks.row k).cell = none := by simpa [hm] using hc
      simp only [hn, if_true, Option.isNone_none, Bool.true_and]
      exact congrArg (Row.mk · _) hn
    · simp [hkj]

theorem row_expireIfDue (ks : Keyspace) (k j : Key) :
    (ks.expireIfDue k).2.row j =
      if k = j then
        if (ks.row j).cell.isSome then (ks.row j).looked ks.now else ⟨none, false⟩
      else ks.row j := by
  rw [expireIfDue]
  have hc := ks.isSome_cell_row k
  split
  · rename_i hm
    have hr : ((ks.lapse k).2.release k).row j =
        if k = j then ((ks.row j).lapse ks.now).release else ks.row j := by
      simp only [row_release, row_lapse]
      split <;> rfl
    have hl : (if k = j then ((ks.row j).lapse ks.now).release else ks.row j) =
        if k = j then
          if (ks.row j).cell.isSome then (ks.row j).looked ks.now else ⟨none, false⟩
        else ks.row j := by
      by_cases h : k = j
      · subst h
        simp [hc, hm, Row.looked]
      · simp [h]
    rw [← hl, ← hr]
    dsimp only
    split <;> rfl
  · rename_i hm
    by_cases h : k = j
    · subst h
      have hn : ks.cells[k]? = none := ExtTreeMap.getElem?_eq_none (by simpa using hm)
      simp [row, hn]
    · simp [row, h]

theorem nodup_inOrder (keys : List Key) : (inOrder keys).Nodup := by
  have h := ExtTreeSet.distinct_toList (t := ExtTreeSet.ofList keys)
  exact h.imp fun hne heq => hne (by simp [heq])

/-- A step that touches the row of its key alone, taken for each of some keys. -/
theorem row_foldl (step : Keyspace → Key → Keyspace) (f : Instant → Key → Row → Row)
    (hnow : ∀ ks k, (step ks k).now = ks.now)
    (hrow : ∀ ks k j, (step ks k).row j = if k = j then f ks.now k (ks.row j) else ks.row j)
    (keys : List Key) (hnd : keys.Nodup) (ks : Keyspace) (j : Key) :
    (keys.foldl step ks).row j = if j ∈ keys then f ks.now j (ks.row j) else ks.row j := by
  induction keys generalizing ks with
  | nil => simp
  | cons k keys ih =>
    obtain ⟨hk, hnd⟩ := List.nodup_cons.mp hnd
    rw [List.foldl_cons, ih hnd, hrow, hnow]
    by_cases h : k = j
    · subst h
      simp [hk]
    · simp [h, Ne.symm h]

theorem foldl_frame {β : Type} (g : Keyspace → β) (step : Keyspace → Key → Keyspace)
    (h : ∀ ks k, g (step ks k) = g ks) (keys : List Key) (ks : Keyspace) :
    g (keys.foldl step ks) = g ks := by
  induction keys generalizing ks with
  | nil => rfl
  | cons k keys ih => rw [List.foldl_cons, ih, h]

theorem now_foldl (step : Keyspace → Key → Keyspace) (hnow : ∀ ks k, (step ks k).now = ks.now)
    (keys : List Key) (ks : Keyspace) : (keys.foldl step ks).now = ks.now :=
  foldl_frame Keyspace.now step hnow keys ks

end Keyspace

namespace Held

theorem mem_ofKeys {keys : List Key} {k : Key} (hk : k ∈ keys) (view : Key → Slot) :
    k ∈ ofKeys keys view := (mem_ofKeys_iff ..).mpr hk

theorem entry_ofKeys_of_mem {keys : List Key} {k : Key} (hk : k ∈ keys) (view : Key → Slot) :
    (ofKeys keys view).entry k = view k := by
  rw [entry_ofKeys, if_pos hk]

theorem ofKeys_congr {keys : List Key} {v w : Key → Slot} (h : ∀ k ∈ keys, v k = w k) :
    ofKeys keys v = ofKeys keys w := by
  have hviews : (Keyspace.inOrder keys).map v = (Keyspace.inOrder keys).map w :=
    List.map_congr_left fun k hk => h k ((Keyspace.mem_inOrder keys k).mp hk)
  simp only [ofKeys, hviews]

end Held

namespace Keyspace

def grasp (ks : Keyspace) (keys : List Key) : Keyspace :=
  (inOrder keys).foldl lapseLazily ((inOrder keys).foldl hold ks)

@[simp] theorem now_grasp (ks : Keyspace) (keys : List Key) : (ks.grasp keys).now = ks.now := by
  rw [grasp, now_foldl _ now_lapseLazily, now_foldl _ now_hold]

theorem row_grasp (ks : Keyspace) (keys : List Key) (j : Key) :
    (ks.grasp keys).row j =
      if j ∈ keys then (ks.row j).hold.lapse ks.now else ks.row j := by
  have hh := row_foldl hold (fun _ _ => Row.hold) now_hold (fun ks k j => row_hold ks k j)
    (inOrder keys) (nodup_inOrder keys) ks j
  have hl := row_foldl lapseLazily (fun now _ => Row.lapse now) now_lapseLazily
    (fun ks k j => row_lapseLazily ks k j) (inOrder keys) (nodup_inOrder keys)
    ((inOrder keys).foldl hold ks) j
  rw [grasp, hl, hh, now_foldl _ now_hold]
  simp only [mem_inOrder]
  split <;> rfl

theorem slot_grasp (ks : Keyspace) (keys : List Key) (j : Key) :
    (ks.grasp keys).slot j = if j ∈ keys then ks.live j else ks.slot j := by
  rw [← slot_row, row_grasp]
  split
  · rw [Row.slot_lapse, Row.slot_hold]
    rfl
  · rfl

theorem ofKeys_grasp (ks : Keyspace) (keys : List Key) :
    Held.ofKeys keys (ks.grasp keys).slot = Held.ofKeys keys ks.live :=
  Held.ofKeys_congr fun k hk => by rw [slot_grasp, if_pos hk]

theorem withHeld_fst (ks : Keyspace) (keys : List Key) (f : Held → α × Held) :
    (ks.withHeld keys f).1 = (f (.ofKeys keys ks.live)).1 :=
  congrArg (fun h => (f h).1) (ofKeys_grasp ks keys)

theorem withHeld_snd (ks : Keyspace) (keys : List Key) (f : Held → α × Held) :
    (ks.withHeld keys f).2 = (inOrder keys).foldl release
      ((inOrder keys).foldl (fun ks' k => ks'.settle k ((f (.ofKeys keys ks.live)).2.entry k))
        (ks.grasp keys)) := by
  rw [← ofKeys_grasp]
  rfl

@[simp] theorem now_withHeld (ks : Keyspace) (keys : List Key) (f : Held → α × Held) :
    (ks.withHeld keys f).2.now = ks.now := by
  rw [withHeld_snd, now_foldl _ now_release, now_foldl _ fun _ _ => now_settle .., now_grasp]

theorem row_withHeld (ks : Keyspace) (keys : List Key) (f : Held → α × Held) (j : Key) :
    (ks.withHeld keys f).2.row j =
      if j ∈ keys then .tidy ((f (.ofKeys keys ks.live)).2.entry j).nonempty else ks.row j := by
  generalize hheld : (f (.ofKeys keys ks.live)).2 = held
  have hs := row_foldl (fun ks' k => ks'.settle k (held.entry k))
    (fun _ k _ => .settled (held.entry k).nonempty) (fun _ _ => now_settle ..)
    (fun ks' k j => row_settle ks' k j _)
    (inOrder keys) (nodup_inOrder keys) (ks.grasp keys) j
  have hr := row_foldl release (fun _ _ => Row.release) now_release (fun ks k j => row_release ks k j)
    (inOrder keys) (nodup_inOrder keys)
    ((inOrder keys).foldl (fun ks' k => ks'.settle k (held.entry k)) (ks.grasp keys)) j
  rw [withHeld_snd, hheld, hr, hs, row_grasp]
  simp only [mem_inOrder]
  by_cases h : j ∈ keys
  · simp [h]
  · simp [h]

theorem slot_withHeld (ks : Keyspace) (keys : List Key) (f : Held → α × Held) (j : Key) :
    (ks.withHeld keys f).2.slot j =
      if j ∈ keys then ((f (.ofKeys keys ks.live)).2.entry j).nonempty else ks.slot j := by
  rw [← slot_row, row_withHeld]
  split
  · rw [Row.slot_tidy]
  · rfl

theorem live_withHeld (ks : Keyspace) (keys : List Key) (f : Held → α × Held) (j : Key) :
    (ks.withHeld keys f).2.live j =
      if j ∈ keys then ((f (.ofKeys keys ks.live)).2.entry j).nonempty.live ks.now
      else ks.live j := by
  rw [live, slot_withHeld, now_withHeld]
  split <;> rfl

/-- The clock, the hash and the count of swept entries are the same. -/
structure Still (ks ks' : Keyspace) : Prop where
  clock : ks'.clock = ks.clock
  hash : ks'.hash = ks.hash
  swept : ks'.activelyExpired = ks.activelyExpired

namespace Still

theorem refl (ks : Keyspace) : Still ks ks := ⟨rfl, rfl, rfl⟩

theorem trans {a b c : Keyspace} (h : Still a b) (h' : Still b c) : Still a c :=
  ⟨h'.clock.trans h.clock, h'.hash.trans h.hash, h'.swept.trans h.swept⟩

theorem now {a b : Keyspace} (h : Still a b) : b.now = a.now := congrArg Clock.now h.clock

theorem foldl (step : Keyspace → Key → Keyspace) (h : ∀ ks k, Still ks (step ks k))
    (keys : List Key) (ks : Keyspace) : Still ks (keys.foldl step ks) := by
  induction keys generalizing ks with
  | nil => exact refl ks
  | cons k keys ih => exact (h ks k).trans (ih _)

end Still

theorem still_hold (ks : Keyspace) (k : Key) : Still ks (ks.hold k) := ⟨rfl, rfl, rfl⟩

theorem still_settle (ks : Keyspace) (k : Key) (s : Slot) : Still ks (ks.settle k s) :=
  ⟨rfl, rfl, rfl⟩

theorem still_lapse (ks : Keyspace) (k : Key) : Still ks (ks.lapse k).2 := by
  rw [lapse]
  split <;> exact ⟨rfl, rfl, rfl⟩

theorem still_lapseLazily (ks : Keyspace) (k : Key) : Still ks (ks.lapseLazily k) := by
  have h := still_lapse ks k
  simp only [lapseLazily]
  split
  · exact ⟨h.clock, h.hash, h.swept⟩
  · exact h

theorem still_release (ks : Keyspace) (k : Key) : Still ks (ks.release k) := by
  rw [release]
  split <;> exact ⟨rfl, rfl, rfl⟩

theorem still_read (ks : Keyspace) (k : Key) (f : Slot → α) : Still ks (ks.read k f).2 := by
  rw [read]
  split
  · exact (still_lapseLazily ks k).trans (still_release _ k)
  · exact .refl ks

theorem still_update (ks : Keyspace) (k : Key) (f : Slot → α × Slot) :
    Still ks (ks.update k f).2 :=
  ((still_hold ks k).trans (still_lapseLazily _ k)).trans
    ((still_settle _ k _).trans (still_release _ k))

theorem still_remove (ks : Keyspace) (k : Key) : Still ks (ks.remove k).2 := by
  rw [remove]
  split
  · have h := still_lapse ks k
    dsimp only
    refine Still.trans ?_ (still_release _ k)
    exact ⟨h.clock, h.hash, h.swept⟩
  · exact .refl ks

theorem clock_hash_expireIfDue (ks : Keyspace) (k : Key) :
    (ks.expireIfDue k).2.clock = ks.clock ∧ (ks.expireIfDue k).2.hash = ks.hash := by
  rw [expireIfDue]
  split
  · have h := (still_lapse ks k).trans (still_release _ k)
    dsimp only
    split <;> exact ⟨h.clock, h.hash⟩
  · exact ⟨rfl, rfl⟩

theorem still_withHeld (ks : Keyspace) (keys : List Key) (f : Held → α × Held) :
    Still ks (ks.withHeld keys f).2 := by
  rw [withHeld_snd, grasp]
  have hg := (Still.foldl hold still_hold (inOrder keys) ks).trans
    (Still.foldl lapseLazily still_lapseLazily (inOrder keys) _)
  have hs := Still.foldl (fun ks' k => ks'.settle k ((f (.ofKeys keys ks.live)).2.entry k))
    (fun _ _ => still_settle ..) (inOrder keys)
  exact (hg.trans (hs _)).trans (Still.foldl release still_release (inOrder keys) _)

end Keyspace
end KeyStore
