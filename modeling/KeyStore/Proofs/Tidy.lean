import KeyStore.Proofs.Run

/-! Good order: a keyspace holds a cell for each entry and no other, no entry is a collection without
elements, and the index lists just the keys whose entries expire. Every operation leaves the rows it
touches in good order, so every run does; the sizes that a keyspace reports follow. -/
namespace KeyStore
open Std

namespace Slot

@[simp] theorem nonempty_nonempty (s : Slot) : s.nonempty.nonempty = s.nonempty := by
  simp [nonempty, Option.filter_filter]

theorem nonempty_live (s : Slot) (now : Instant) : (s.live now).nonempty = s.nonempty.live now := by
  simp [nonempty, live, Option.filter_filter, Bool.and_comm]

end Slot

namespace Row

def Tidy (r : Row) : Prop := r = tidy r.slot.nonempty

theorem tidy_tidy (s : Slot) : (tidy s.nonempty).Tidy := by simp [Tidy]

theorem Tidy.slot_nonempty {r : Row} (h : r.Tidy) : r.slot.nonempty = r.slot :=
  ((congrArg Row.slot h).trans (slot_tidy _)).symm

theorem Tidy.eq_tidy {r : Row} (h : r.Tidy) : r = tidy r.slot := by
  rw [← h.slot_nonempty]
  exact h

theorem Tidy.eq_of_cell {r : Row} (h : r.Tidy) (hc : r.cell = none) : r = ⟨none, false⟩ := by
  have hs : r.slot = none := by simp [slot, hc]
  rw [h.eq_tidy, hs]
  rfl

/-- A look at a row in good order leaves the live entry and nothing else. -/
theorem Tidy.looked_eq {r : Row} (h : r.Tidy) (now : Instant) :
    r.looked now = tidy (r.slot.live now) := by
  rw [h.eq_tidy, slot_tidy]
  cases r.slot with
  | none => rfl
  | some e =>
    cases hd : e.isDue now with
    | true => simp [looked, lapse, release, tidy, slot, hd, Slot.live_of_isDue hd]
    | false => simp [looked, lapse, release, tidy, slot, hd, Slot.live_of_not_isDue hd]

theorem Tidy.looked {r : Row} (h : r.Tidy) (now : Instant) : (r.looked now).Tidy := by
  rw [h.looked_eq, ← h.slot_nonempty, ← Slot.nonempty_live]
  exact tidy_tidy _

end Row

namespace Keyspace

def Tidy (ks : Keyspace) : Prop := ∀ k, (ks.row k).Tidy

theorem tidy_new (hash : Key → UInt64) (horizon : Horizon) : (new hash horizon).Tidy := by
  intro k
  simp [Row.Tidy, Row.tidy, row, new, Row.slot]

theorem Tidy.of_row {ks ks' : Keyspace} (h : ks.Tidy) (k : Key) (r : Row) (hr : r.Tidy)
    (hrow : ∀ j, ks'.row j = if k = j then r else ks.row j) : ks'.Tidy := by
  intro j
  rw [hrow]
  split
  · exact hr
  · exact h j

theorem lasting_tidy : Lasting Tidy where
  read ks k f h := by
    apply h.of_row k ((ks.row k).looked ks.now) ((h k).looked _)
    intro j
    rw [row_read]
    split <;> simp_all
  update ks k f h := h.of_row k _ (Row.tidy_tidy _) (row_update ks k · f)
  remove ks k h := by
    apply h.of_row k (.tidy (Slot.nonempty none)) (Row.tidy_tidy _)
    intro j
    rw [row_remove]
    split
    · cases hc : (ks.row j).cell with
      | none => simp [(h j).eq_of_cell hc, Row.tidy]
      | some s => simp [Row.tidy]
    · rfl
  withHeld ks keys f h := by
    intro j
    rw [row_withHeld]
    split
    · exact Row.tidy_tidy _
    · exact h j
  flush ks h := fun k => by simp [Row.Tidy, Row.tidy, row, flush, Row.slot]
  expireIfDue ks k h := by
    apply h.of_row k ((ks.row k).looked ks.now) ((h k).looked _)
    intro j
    rw [row_expireIfDue]
    by_cases hkj : k = j
    · subst hkj
      cases hc : (ks.row k).cell with
      | none => simp [(h k).eq_of_cell hc, Row.looked]
      | some s => simp
    · simp [hkj]

theorem Tidy.getElem?_cells {ks : Keyspace} (h : ks.Tidy) (k : Key) : ks.cells[k]? = (ks.slot k).map some :=
  congrArg Row.cell (h k).eq_tidy

theorem Tidy.cell {ks : Keyspace} (h : ks.Tidy) {k : Key} {s : Slot} (hs : ks.cells[k]? = some s) :
    ∃ e, s = some e ∧ ks.slot k = some e ∧ e.value.isEmptyCollection = false := by
  have hk : ks.slot k = s := by simp [slot, hs]
  have hc : some s = (ks.slot k).map some := by
    rw [← hs]
    exact h.getElem?_cells k
  have hn := (h k).slot_nonempty
  rw [hk] at hc
  rw [slot_row, hk] at hn
  cases s with
  | none => simp at hc
  | some e =>
    refine ⟨e, rfl, hk, ?_⟩
    simpa [Slot.nonempty, Option.filter_eq_some_iff] using hn

theorem Tidy.mem_volatile {ks : Keyspace} (h : ks.Tidy) (k : Key) :
    k ∈ ks.volatile ↔ ∃ e, ks.slot k = some e ∧ e.expiresAt.isSome := by
  have hi : ks.volatile.contains k = (ks.slot k).any (·.expiresAt.isSome) :=
    congrArg Row.indexed (h k).eq_tidy
  rw [ExtTreeSet.mem_iff_contains, hi, Option.any_eq_true]

theorem Tidy.live_nonempty {ks : Keyspace} (h : ks.Tidy) (k : Key) :
    (ks.live k).nonempty = ks.live k := by
  rw [live, Slot.nonempty_live]
  exact congrArg (Slot.live · ks.now) (h k).slot_nonempty

/-- The second keyspace is the first without some of the entries that had expired. -/
structure Sheds (ks ks' : Keyspace) : Prop extends Still ks ks' where
  cells : ∀ k : Key, ks'.cells[k]? = ks.cells[k]? ∨
    (ks.slot k).any (·.isDue ks.now) = true ∧ ks'.cells[k]? = none

theorem Sheds.live {ks ks' : Keyspace} (h : Sheds ks ks') (k : Key) : ks'.live k = ks.live k := by
  rw [Keyspace.live, Keyspace.live, h.now]
  rcases h.cells k with hk | ⟨hdue, hk⟩
  · rw [slot, slot, hk]
  · cases hs : ks.slot k with
    | none => simp [hs] at hdue
    | some e =>
      rw [hs] at hdue
      rw [Slot.live_of_isDue hdue, slot, hk]
      rfl

theorem Sheds.mem_cells {ks ks' : Keyspace} (h : Sheds ks ks') (k : Key) (hk : k ∈ ks'.cells) :
    k ∈ ks.cells := by
  rw [ExtTreeMap.mem_iff_isSome_getElem?] at hk ⊢
  rcases h.cells k with hc | ⟨-, hc⟩
  · rwa [← hc]
  · simp [hc] at hk

/-- The second keyspace is the first after some of its keys were looked at: a slot is as it was, or has
only its live entry left. -/
structure Looked (ks ks' : Keyspace) : Prop extends Still ks ks' where
  slot : ∀ k, ks'.slot k = ks.slot k ∨ ks'.slot k = ks.live k

namespace Looked

theorem refl (ks : Keyspace) : Looked ks ks := { Still.refl ks with slot := fun _ => .inl rfl }

theorem live {ks ks' : Keyspace} (h : Looked ks ks') (k : Key) : ks'.live k = ks.live k := by
  rw [Keyspace.live, h.now]
  rcases h.slot k with hk | hk
  · rw [hk, Keyspace.live]
  · rw [hk, Keyspace.live, Slot.live_live]

theorem read {ks ks' : Keyspace} (h : Looked ks ks') (k : Key) (f : Slot → α) :
    Looked ks (ks'.read k f).2 := by
  refine { h.toStill.trans (still_read ks' k f) with slot := fun j => ?_ }
  rw [slot_read]
  split
  · rename_i hk
    subst hk
    exact .inr (h.live k)
  · exact h.slot j

/-- In good order, a slot that has only its live entry left is a cell that may have been given up. -/
theorem sheds {ks ks' : Keyspace} (h : Looked ks ks') (htidy : ks.Tidy) (htidy' : ks'.Tidy) :
    Sheds ks ks' := by
  refine { h.toStill with cells := fun k => ?_ }
  have hc := htidy.getElem?_cells k
  have hc' := htidy'.getElem?_cells k
  rcases h.slot k with hk | hk
  · exact .inl (by rw [hc', hc, hk])
  · cases hs : ks.slot k with
    | none => exact .inl (by rw [hc', hc, hk, Keyspace.live, hs, Slot.live_none])
    | some e =>
      cases hd : e.isDue ks.now with
      | true => exact .inr ⟨hd, by rw [hc', hk, Keyspace.live, hs, Slot.live_of_isDue hd]; rfl⟩
      | false => exact .inl (by rw [hc', hc, hk, Keyspace.live, hs, Slot.live_of_not_isDue hd])

end Looked

/-- How many entries have expired and are still there. -/
def dueSize (ks : Keyspace) : Nat := ks.cells.toList.countP fun c => c.2.any (·.isDue ks.now)

def expiringSize (ks : Keyspace) : Nat :=
  ks.cells.toList.countP fun c => c.2.any (·.expiresAt.isSome)

theorem Tidy.residentSize_eq {ks : Keyspace} (h : ks.Tidy) :
    ks.residentSize = ks.size + ks.dueSize := by
  have hlive : ∀ c ∈ ks.cells.toList,
      (¬ (Slot.live c.2 ks.now).isSome = true) ↔ c.2.any (·.isDue ks.now) = true := by
    intro c hc
    obtain ⟨e, he, -⟩ := h.cell (ExtTreeMap.mem_toList_iff_getElem?_eq_some.mp hc)
    rw [he]
    cases hd : e.isDue ks.now with
    | true => simp [Slot.live_of_isDue hd, hd]
    | false => simp [Slot.live_of_not_isDue hd, hd]
  rw [residentSize, ← ExtTreeMap.length_toList, size, dueSize,
    List.length_eq_countP_add_countP fun c => (Slot.live c.2 ks.now).isSome]
  congr 1
  apply List.countP_congr
  intro c hc
  simpa using hlive c hc

theorem Tidy.volatileSize_eq {ks : Keyspace} (h : ks.Tidy) : ks.volatileSize = ks.expiringSize := by
  have hperm : ks.volatile.toList.Perm
      ((ks.cells.toList.filter fun c => c.2.any (·.expiresAt.isSome)).map Prod.fst) := by
    apply (List.perm_ext_iff_of_nodup _ _).mpr
    · intro k
      rw [ExtTreeSet.mem_toList, h.mem_volatile, List.mem_map]
      constructor
      · rintro ⟨e, hk, he⟩
        refine ⟨(k, some e), List.mem_filter.mpr ⟨?_, by simpa using he⟩, rfl⟩
        exact ExtTreeMap.mem_toList_iff_getElem?_eq_some.mpr (Option.join_eq_some_iff.mp hk)
      · rintro ⟨c, hc, rfl⟩
        obtain ⟨hm, hx⟩ := List.mem_filter.mp hc
        obtain ⟨e, he, hk, -⟩ := h.cell (ExtTreeMap.mem_toList_iff_getElem?_eq_some.mp hm)
        exact ⟨e, hk, by simpa [he] using hx⟩
    · exact ExtTreeSet.distinct_toList.imp fun hne heq => hne (by simp [heq])
    · have hd := (ExtTreeMap.distinct_keys_toList (t := ks.cells)).filter
        fun c => c.2.any (·.expiresAt.isSome)
      exact List.pairwise_map.mpr (hd.imp fun hne heq => hne (by simp [heq]))
  rw [volatileSize, ← ExtTreeSet.length_toList, hperm.length_eq, List.length_map, expiringSize,
    List.countP_eq_length_filter]

/-- Cells, index and sizes agree. -/
structure BooksAgree (ks : Keyspace) : Prop where
  /-- A cell holds an entry, and no entry is a collection without elements. -/
  cells : ∀ (k : Key) (s : Slot), ks.cells[k]? = some s →
    ∃ e, s = some e ∧ e.value.isEmptyCollection = false
  /-- The index lists the keys whose entries carry an expiry. -/
  volatile : ∀ k : Key, k ∈ ks.volatile ↔ ∃ e, ks.slot k = some e ∧ e.expiresAt.isSome
  residentSize : ks.residentSize = ks.size + ks.dueSize
  volatileSize : ks.volatileSize = ks.expiringSize

end Keyspace

namespace Engine

theorem Reachable.tidy {e : Engine Q} (he : e.Reachable) : e.keyspace.Tidy := by
  obtain ⟨config, base, evs, rfl⟩ := he
  exact run_keeps Keyspace.lasting_tidy (fun _ _ h => h) evs _ (Keyspace.tidy_new _ _)

/-- Whatever has happened to an engine, the books of its keyspace agree. -/
theorem books_agree (e : Engine Q) (he : e.Reachable) : e.keyspace.BooksAgree where
  cells k s hs := by
    obtain ⟨e, he, -, hv⟩ := he.tidy.cell hs
    exact ⟨e, he, hv⟩
  volatile := he.tidy.mem_volatile
  residentSize := he.tidy.residentSize_eq
  volatileSize := he.tidy.volatileSize_eq

/-- An entry has expired unnoticed, an increment was refused, and an empty list was put directly. -/
theorem books_agree_of_session :
    let e := (new .default .standard).run [
      .execute (.onKeys (.set [107] [118] { expiry := .after 5 })) 0,
      .execute (.onKeys (.push [108] [[97], [98]] .left false)) 0,
      .execute (.onKeys (.zincrBy [122] .nan [109])) 0,
      .direct (.set [101] (.list .empty) none),
      .advance 5]
    e.Reachable ∧ e.keyspace.BooksAgree ∧ e.keyspace.residentSize = 2 ∧ e.keyspace.dueSize = 1 :=
  ⟨⟨_, _, _, rfl⟩, books_agree _ ⟨_, _, _, rfl⟩, by decide, by decide⟩

end Engine
end KeyStore
