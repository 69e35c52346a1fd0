import KeyStore.Proofs.Maps
import KeyStore.Proofs.Run

/-! One page of a scan: which keys it lists. The candidates stand in the order of their hashes, a
page ends where a hash ends, and so the page lists the live keys that pass the filter and whose
hashes lie between its cursor and the next. -/
namespace KeyStore
namespace Keyspace
open Std

theorem Hashed.le_trans (a b c : Hashed) (h : Hashed.le a b) (h' : Hashed.le b c) : Hashed.le a c :=
  TransCmp.isLE_trans h h'

theorem Hashed.le_total (a b : Hashed) : (Hashed.le a b || Hashed.le b a) = true := by
  have hswap : compareLex (compareOn Prod.fst) (compareOn Prod.snd) a b =
      (compareLex (compareOn Prod.fst) (compareOn Prod.snd) b a).swap := OrientedCmp.eq_swap
  rw [Hashed.le, Hashed.le, hswap]
  cases compareLex (compareOn Prod.fst) (compareOn Prod.snd) b a <;> rfl

theorem Hashed.fst_le_of_le {a b : Hashed} (h : Hashed.le a b = true) : a.1 ≤ b.1 := by
  have hfst : (compare a.1 b.1).isLE = true := Ordering.isLE_left_of_isLE_then h
  exact isLE_compare.mp hfst

abbrev Ascending (cs : List Hashed) : Prop := cs.Pairwise fun a b => a.1 ≤ b.1

theorem ascending_candidates (ks : Keyspace) (cursor : UInt64) : Ascending (ks.candidates cursor) :=
  (List.pairwise_mergeSort Hashed.le_trans Hashed.le_total _).imp Hashed.fst_le_of_le

theorem mem_candidates (ks : Keyspace) (cursor : UInt64) (c : Hashed) :
    c ∈ ks.candidates cursor ↔ c.2 ∈ ks.cells ∧ c.1 = ks.hash c.2 ∧ cursor ≤ c.1 := by
  simp only [candidates, List.mem_mergeSort, List.mem_filter, List.mem_map, ExtTreeMap.mem_keys,
    decide_eq_true_eq]
  constructor
  · rintro ⟨⟨k, hk, rfl⟩, hcursor⟩
    exact ⟨hk, rfl, hcursor⟩
  · rintro ⟨hk, hhash, hcursor⟩
    exact ⟨⟨c.2, hk, Prod.ext hhash.symm rfl⟩, hcursor⟩

theorem nodup_candidates (ks : Keyspace) (cursor : UInt64) :
    ((ks.candidates cursor).map Prod.snd).Nodup := by
  have hperm := List.mergeSort_perm
    ((ks.cells.keys.map fun key => (ks.hash key, key)).filter fun c => cursor ≤ c.1) Hashed.le
  rw [candidates, (hperm.map Prod.snd).nodup_iff]
  have hall : ((ks.cells.keys.map fun key => (ks.hash key, key)).map Prod.snd).Nodup := by
    rw [List.map_map]
    exact (List.map_id ks.cells.keys).symm ▸ nodup_keys ks.cells
  exact (List.filter_sublist.map Prod.snd).nodup hall

theorem cutPage_append (count : Nat) (cs : List Hashed) :
    (cutPage count cs).1 ++ (cutPage count cs).2 = cs := by
  simp only [cutPage]
  split
  · rw [List.append_assoc, List.takeWhile_append_dropWhile, List.take_append_drop]
  · exact List.take_append_drop count cs

theorem lt_of_mem_dropWhile (h : UInt64) (cs : List Hashed) (hasc : Ascending cs)
    (hle : ∀ c ∈ cs, h ≤ c.1) (b : Hashed) (hb : b ∈ cs.dropWhile (·.1 == h)) : h < b.1 := by
  induction cs with
  | nil => cases hb
  | cons c cs ih =>
    obtain ⟨hc, hasc⟩ := List.pairwise_cons.mp hasc
    obtain ⟨hlec, hle⟩ := List.forall_mem_cons.mp hle
    by_cases hh : c.1 = h
    · rw [List.dropWhile_cons_of_pos (by simp [hh])] at hb
      exact ih hasc hle hb
    · rw [List.dropWhile_cons_of_neg (by simp [hh])] at hb
      have hlt : h < c.1 := UInt64.lt_of_le_of_ne hlec (Ne.symm hh)
      rcases List.mem_cons.mp hb with rfl | hb
      · exact hlt
      · exact UInt64.lt_of_lt_of_le hlt (hc b hb)

theorem cutPage_lt (count : Nat) (cs : List Hashed) (hasc : Ascending cs) (a b : Hashed)
    (ha : a ∈ (cutPage count cs).1) (hb : b ∈ (cutPage count cs).2) : a.1 < b.1 := by
  rw [← List.take_append_drop count cs] at hasc
  obtain ⟨htake, hdrop, hacross⟩ := List.pairwise_append.mp hasc
  simp only [cutPage] at ha hb
  split at ha
  · rename_i h k hlast
    simp only [hlast] at hb
    obtain ⟨ys, hys⟩ := List.getLast?_eq_some_iff.mp hlast
    have hle : ∀ c ∈ cs.drop count, h ≤ c.1 := hacross (h, k) (List.mem_of_getLast? hlast)
    have hlt : h < b.1 := lt_of_mem_dropWhile h _ hdrop hle b hb
    -- The last hash bounds the page, also where the page was stretched.
    have hah : a.1 ≤ h := by
      rcases List.mem_append.mp ha with ha | ha
      · rw [hys] at ha htake
        rcases List.mem_append.mp ha with ha | ha
        · exact (List.pairwise_append.mp htake).2.2 a ha (h, k) List.mem_cons_self
        · rw [List.mem_singleton.mp ha]
          exact UInt64.le_refl h
      · have heq := List.all_eq_true.mp List.all_takeWhile a ha
        rw [eq_of_beq heq]
        exact UInt64.le_refl h
    exact UInt64.lt_of_le_of_lt hah hlt
  · rename_i hnone
    rw [List.getLast?_eq_none_iff.mp hnone] at ha
    cases ha

theorem cutPage_ne_nil (count : Nat) (hcount : 0 < count) (cs : List Hashed) (hcs : cs ≠ []) :
    (cutPage count cs).1 ≠ [] := by
  obtain ⟨c, cs, rfl⟩ := List.exists_cons_of_ne_nil hcs
  obtain ⟨n, rfl⟩ := Nat.exists_eq_add_of_lt hcount
  simp only [cutPage]
  split <;> simp

def nextCursor : List Hashed → UInt64
  | (h, _) :: _ => h
  | [] => 0

/-- The next cursor separates what a page lists from what it leaves out. -/
theorem cutPage_nextCursor (count : Nat) (hcount : 0 < count) (cs : List Hashed)
    (hasc : Ascending cs) :
    let page := (cutPage count cs).1
    let rest := (cutPage count cs).2
    (rest = [] ∧ nextCursor rest = 0) ∨
      nextCursor rest ≠ 0 ∧ page ≠ [] ∧ (∀ c ∈ page, c.1 < nextCursor rest) ∧
        ∀ c ∈ rest, nextCursor rest ≤ c.1 := by
  intro page rest
  have happ : page ++ rest = cs := cutPage_append count cs
  have hlt : ∀ a ∈ page, ∀ b ∈ rest, a.1 < b.1 := fun a ha b hb => cutPage_lt count cs hasc a b ha hb
  cases hrest : rest with
  | nil => exact .inl ⟨rfl, rfl⟩
  | cons b bs =>
    rw [hrest] at happ hlt
    have hne : page ≠ [] := cutPage_ne_nil count hcount cs (by simp [← happ])
    have hb : ∀ a ∈ page, a.1 < b.1 := fun a ha => hlt a ha b List.mem_cons_self
    refine .inr ⟨?_, hne, hb, List.forall_mem_cons.mpr ⟨UInt64.le_refl b.1, ?_⟩⟩
    · obtain ⟨a, ha⟩ := List.exists_mem_of_ne_nil page hne
      intro hzero
      have hlt : a.1 < nextCursor (b :: bs) := hb a ha
      rw [hzero] at hlt
      exact UInt64.not_lt_zero hlt
    · rw [← happ] at hasc
      exact (List.pairwise_cons.mp (List.pairwise_append.mp hasc).2.1).1

theorem sift_fst (filter : Key → Entry → Bool) (keys : List Key) (ks : Keyspace) :
    (sift filter keys ks).1 = keys.filter fun k => (ks.live k).any (filter k) := by
  induction keys generalizing ks with
  | nil => rfl
  | cons k keys ih =>
    have hlive : (ks.read k fun s => s.any (filter k)).2.live = ks.live :=
      funext fun j => live_read ks k j _
    rw [sift]
    dsimp only
    rw [ih, read_fst, hlive, List.filter_cons]

theorem scan_fst (ks : Keyspace) (cursor : UInt64) (count : Nat) (filter : Key → Entry → Bool) :
    (ks.scan cursor count filter).1 =
      let cut := cutPage (max count 1) (ks.candidates cursor)
      (nextCursor cut.2, (cut.1.map Prod.snd).filter fun k => (ks.live k).any (filter k)) :=
  congrArg (nextCursor _, ·) (sift_fst filter _ ks)

theorem read_snd_of_live (ks : Keyspace) (k : Key) (f : Slot → α) (h : (ks.live k).isSome) :
    (ks.read k f).2 = ks := by
  obtain ⟨e, he⟩ := Option.isSome_iff_exists.mp h
  obtain ⟨hslot, hdue⟩ := Option.filter_eq_some_iff.mp he
  have hcell : ks.cells[k]? = some (some e) := Option.join_eq_some_iff.mp hslot
  have hlapse : ks.lapseLazily k = ks := by
    have hnot : (ks.slot k).any (·.isDue ks.now) = false := by simpa [hslot] using hdue
    simp [lapseLazily, lapse, hnot]
  rw [read]
  split
  · simp only [hlapse]
    simp [release, hcell]
  · rfl

theorem sift_snd_of_live (filter : Key → Entry → Bool) (keys : List Key) (ks : Keyspace)
    (h : ∀ k ∈ keys, (ks.live k).isSome) : (sift filter keys ks).2 = ks := by
  induction keys with
  | nil => rfl
  | cons k keys ih =>
    obtain ⟨hk, hkeys⟩ := List.forall_mem_cons.mp h
    rw [sift]
    dsimp only
    rw [ks.read_snd_of_live k _ hk]
    exact ih hkeys

theorem scan_snd_of_live (ks : Keyspace) (cursor : UInt64) (count : Nat)
    (filter : Key → Entry → Bool) (h : ∀ k ∈ ks.cells.keys, (ks.live k).isSome) :
    (ks.scan cursor count filter).2 = ks := by
  apply sift_snd_of_live
  intro k hk
  obtain ⟨c, hc, rfl⟩ := List.mem_map.mp hk
  have hcand : c ∈ ks.candidates cursor := by
    rw [← cutPage_append (max count 1) (ks.candidates cursor)]
    exact List.mem_append_left _ hc
  exact h c.2 (ExtTreeMap.mem_keys.mpr ((ks.mem_candidates cursor c).mp hcand).1)

/-- What a page is from a cursor on: the next cursor and the keys listed. -/
structure IsPage (ks : Keyspace) (cursor : UInt64) (filter : Key → Entry → Bool)
    (page : UInt64 × List Key) : Prop where
  mem : ∀ k, k ∈ page.2 ↔
    cursor ≤ ks.hash k ∧ (page.1 = 0 ∨ ks.hash k < page.1) ∧ (ks.live k).any (filter k) = true
  nodup : page.2.Nodup
  cursor_lt : page.1 ≠ 0 → cursor < page.1

theorem mem_candidates_of_live (ks : Keyspace) (cursor : UInt64) (k : Key) (p : Entry → Bool)
    (hcursor : cursor ≤ ks.hash k) (hk : (ks.live k).any p = true) :
    (ks.hash k, k) ∈ ks.candidates cursor := by
  have hcell : k ∈ ks.cells := ks.mem_cells_of_live k (Option.isSome_of_any hk)
  exact (ks.mem_candidates cursor _).mpr ⟨hcell, rfl, hcursor⟩

theorem scan_isPage (ks : Keyspace) (cursor : UInt64) (count : Nat) (filter : Key → Entry → Bool) :
    ks.IsPage cursor filter (ks.scan cursor count filter).1 := by
  have hcand := ks.mem_candidates cursor
  have hlive := ks.mem_candidates_of_live cursor
  have hnodup := ks.nodup_candidates cursor
  have hnext := cutPage_nextCursor (max count 1) (Nat.le_max_right count 1) _
    (ks.ascending_candidates cursor)
  rw [scan_fst]
  -- what is cut off and what is left out are the candidates
  rw [← cutPage_append (max count 1) (ks.candidates cursor)] at hcand hlive hnodup
  generalize cutPage (max count 1) (ks.candidates cursor) = cut at hcand hlive hnodup hnext ⊢
  obtain ⟨page, rest⟩ := cut
  dsimp only at hcand hlive hnodup hnext ⊢
  rw [List.map_append] at hnodup
  obtain ⟨hpage, -, -⟩ := List.nodup_append.mp hnodup
  refine ⟨fun k => ?_, hpage.filter _, fun hne => ?_⟩
  · rw [List.mem_filter, List.mem_map]
    constructor
    · rintro ⟨⟨c, hc, rfl⟩, hk⟩
      obtain ⟨-, hhash, hcursor⟩ := (hcand c).mp (List.mem_append_left _ hc)
      rw [← hhash]
      rcases hnext with ⟨-, hzero⟩ | ⟨-, -, hbelow, -⟩
      · exact ⟨hcursor, .inl hzero, hk⟩
      · exact ⟨hcursor, .inr (hbelow c hc), hk⟩
    · rintro ⟨hcursor, hbelow, hk⟩
      refine ⟨⟨(ks.hash k, k), ?_, rfl⟩, hk⟩
      rcases List.mem_append.mp (hlive k _ hcursor hk) with hc | hc
      · exact hc
      · rcases hnext with ⟨hnil, -⟩ | ⟨hne, -, -, habove⟩
        · rw [hnil] at hc
          cases hc
        · exact absurd (hbelow.resolve_left hne) (UInt64.not_lt.mpr (habove _ hc))
  · rcases hnext with ⟨-, hzero⟩ | ⟨-, hcells, hbelow, -⟩
    · exact absurd hzero hne
    · obtain ⟨c, hc⟩ := List.exists_mem_of_ne_nil page hcells
      obtain ⟨-, -, hcursor⟩ := (hcand c).mp (List.mem_append_left _ hc)
      exact UInt64.lt_of_le_of_lt hcursor (hbelow c hc)

end Keyspace
end KeyStore
