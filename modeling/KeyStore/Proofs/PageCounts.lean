import Mathlib.Algebra.Order.Floor.Div
import Mathlib.Data.List.Perm.Subperm
import Mathlib.Data.Set.Function
import KeyStore.Proofs.Pages

/-! How many pages a scan takes. A page that is not the last takes at least as many resident keys off those that
are still to come as were asked for, whether or not it lists them, and the cursor keeps them off for good. So
the resident keys of the start bound the pages, unless keys are added in between; and where no hashes collide and
only time passes, a page takes off just what was asked for, and the bound is met. -/
namespace KeyStore
open Std
namespace Keyspace

theorem length_candidates_zero (ks : Keyspace) : (ks.candidates 0).length = ks.residentSize := by
  have hall : ((ks.cells.keys.map fun key => (ks.hash key, key)).filter fun c => decide (0 ≤ c.1)) =
      ks.cells.keys.map fun key => (ks.hash key, key) :=
    List.filter_eq_self.mpr fun c _ => decide_eq_true UInt64.zero_le
  rw [candidates, List.length_mergeSort, hall, List.length_map, ExtTreeMap.length_keys, residentSize]

theorem le_length_cutPage {count : Nat} {cs : List Hashed} (h : (cutPage count cs).2 ≠ []) :
    count ≤ (cutPage count cs).1.length := by
  have hlt : count < cs.length := by
    refine Nat.lt_of_not_le fun hle => h ?_
    simp only [cutPage, List.drop_eq_nil_of_le hle]
    split <;> rfl
  have htake : (cs.take count).length = count := List.length_take_of_le (Nat.le_of_lt hlt)
  simp only [cutPage]
  split
  · rw [List.length_append, htake]
    exact Nat.le_add_right ..
  · exact Nat.le_of_eq htake.symm

/-- A page is only stretched over a collision. -/
theorem length_cutPage_le {count : Nat} {cs : List Hashed} (h : cs.Pairwise fun a b => a.1 ≠ b.1) :
    (cutPage count cs).1.length ≤ count := by
  rw [← List.take_append_drop count cs] at h
  obtain ⟨-, -, hacross⟩ := List.pairwise_append.mp h
  simp only [cutPage]
  split
  · rename_i hash k hlast
    have hnone : (cs.drop count).takeWhile (·.1 == hash) = [] := by
      have hne := hacross (hash, k) (List.mem_of_getLast? hlast)
      cases hdrop : cs.drop count with
      | nil => rfl
      | cons c cs' =>
        have hc : hash ≠ c.1 := hne c (hdrop ▸ List.mem_cons_self)
        exact List.takeWhile_cons_of_neg (by simpa using Ne.symm hc)
    rw [hnone, List.append_nil]
    exact List.length_take_le ..
  · exact List.length_take_le ..

theorem pairwise_candidates {ks : Keyspace} (h : Set.InjOn ks.hash {k | k ∈ ks.cells}) (cursor : UInt64) :
    (ks.candidates cursor).Pairwise fun a b => a.1 ≠ b.1 := by
  have hdistinct := List.pairwise_map.mp (ks.nodup_candidates cursor)
  refine hdistinct.imp_of_mem fun {a b} ha hb hne heq => hne ?_
  obtain ⟨hacell, hahash, -⟩ := (ks.mem_candidates cursor a).mp ha
  obtain ⟨hbcell, hbhash, -⟩ := (ks.mem_candidates cursor b).mp hb
  exact h hacell hbcell (hahash.symm.trans (heq.trans hbhash))

theorem mem_cells_of_read {ks : Keyspace} {k j : Key} {f : Slot → α} (h : j ∈ (ks.read k f).2.cells) :
    j ∈ ks.cells := by
  have hrow : ((ks.read k f).2.row j).cell.isSome = true := by
    rw [isSome_cell_row]
    exact h
  rw [row_read, Row.looked] at hrow
  have hcell : (ks.row j).cell.isSome = true := by
    split at hrow
    · split at hrow
      · assumption
      · exact hrow
    · exact hrow
  rw [isSome_cell_row] at hcell
  exact hcell

theorem mem_cells_of_scan {ks : Keyspace} {cursor : UInt64} {count : Nat} {filter : Key → Entry → Bool} {j : Key}
    (h : j ∈ (ks.scan cursor count filter).2.cells) : j ∈ ks.cells :=
  scan_keeps (P := fun ks' => ∀ j, j ∈ ks'.cells → j ∈ ks.cells) (fun _ _ _ hks j hj => hks j (mem_cells_of_read hj))
    ks cursor count filter (fun _ hj => hj) j h

theorem getElem?_cells_sift {filter : Key → Entry → Bool} {keys : List Key} {j : Key} (hj : j ∉ keys) (ks : Keyspace) :
    (sift filter keys ks).2.cells[j]? = ks.cells[j]? := by
  induction keys generalizing ks with
  | nil => rfl
  | cons k keys ih =>
    obtain ⟨hne, hj⟩ := List.ne_and_not_mem_of_not_mem_cons hj
    have hread : (ks.read k fun s => s.any (filter k)).2.row j = ks.row j := by
      rw [row_read, if_neg (Ne.symm hne)]
    exact (ih hj _).trans (congrArg Row.cell hread)

theorem mem_cells_scan {ks : Keyspace} {cursor : UInt64} {count : Nat} (filter : Key → Entry → Bool) {c : Hashed}
    (hc : c ∈ (cutPage (max count 1) (ks.candidates cursor)).2) : c.2 ∈ (ks.scan cursor count filter).2.cells := by
  have hnodup := ks.nodup_candidates cursor
  have hcell := ((ks.mem_candidates cursor c).mp
    (cutPage_append (max count 1) (ks.candidates cursor) ▸ List.mem_append_right _ hc)).1
  rw [← cutPage_append (max count 1) (ks.candidates cursor), List.map_append] at hnodup
  have hout : c.2 ∉ (cutPage (max count 1) (ks.candidates cursor)).1.map Prod.snd := fun hin =>
    (List.nodup_append.mp hnodup).2.2 _ hin _ (List.mem_map_of_mem hc) rfl
  rw [ExtTreeMap.mem_iff_isSome_getElem?] at hcell ⊢
  rw [← hcell]
  exact congrArg Option.isSome (getElem?_cells_sift hout ks)

end Keyspace

namespace Page

def size (p : Page Q) : Nat := p.count.getD p.engine.config.scanCount

/-- The resident keys from the cursor of a page on. -/
def remaining (p : Page Q) : List Keyspace.Hashed := p.engine.keyspace.candidates p.cursor

def NoneAdded (p p' : Page Q) : Prop := ∀ k, k ∈ p'.engine.keyspace.cells → k ∈ p.engine.keyspace.cells

def Waits (q : Query) (p p' : Page Q) : Prop :=
  ∃ millis : List UInt64, p'.engine = (p.engine.execute (p.command q) p.nanos).2.run (millis.map .advance)

/-- The keys that a page takes up, whether or not it lists them. -/
def stretch (p : Page Q) : List Keyspace.Hashed := (Keyspace.cutPage (max p.size 1) p.remaining).1

/-- The keys that a page leaves to the next. -/
def leftOut (p : Page Q) : List Keyspace.Hashed := (Keyspace.cutPage (max p.size 1) p.remaining).2

variable {q : Query} {p p' : Page Q}

theorem stretch_append_leftOut (p : Page Q) : p.stretch ++ p.leftOut = p.remaining := Keyspace.cutPage_append ..

theorem nodup_remaining (p : Page Q) : p.remaining.Nodup := (p.engine.keyspace.nodup_candidates p.cursor).of_map

theorem next_eq (p : Page Q) (q : Query) : p.next q = Keyspace.nextCursor p.leftOut :=
  congrArg Prod.fst (p.engine.keyspace.scan_fst ..)

/-- The cursor ends the scan if nothing is left out, else it separates what is taken up from what is left out. -/
theorem next_cases (p : Page Q) (q : Query) : p.leftOut = [] ∧ p.next q = 0 ∨
    p.leftOut ≠ [] ∧ p.next q ≠ 0 ∧ (∀ c ∈ p.stretch, c.1 < p.next q) ∧ ∀ c ∈ p.leftOut, p.next q ≤ c.1 := by
  rw [next_eq]
  rcases Keyspace.cutPage_nextCursor (max p.size 1) (Nat.le_max_right ..) p.remaining
    (p.engine.keyspace.ascending_candidates p.cursor) with hlast | ⟨hne, -, hbelow, habove⟩
  · exact .inl hlast
  · exact .inr ⟨fun hnil => hne (congrArg Keyspace.nextCursor hnil), hne, hbelow, habove⟩

theorem length_remaining (p : Page Q) : p.remaining.length = p.stretch.length + p.leftOut.length := by
  rw [← p.stretch_append_leftOut, List.length_append]

theorem full_of_next (hne : p.next q ≠ 0) : p.size ≤ p.stretch.length ∧ 0 < p.leftOut.length := by
  rcases p.next_cases q with ⟨-, hzero⟩ | ⟨hout, -⟩
  · exact absurd hzero hne
  · exact ⟨Nat.le_trans (Nat.le_max_left ..) (Keyspace.le_length_cutPage hout), List.length_pos_of_ne_nil hout⟩

theorem Follows.cursor_between (h : Follows q p p') :
    (∀ c ∈ p.stretch, c.1 < p'.cursor) ∧ ∀ c ∈ p.leftOut, p'.cursor ≤ c.1 := by
  rw [h.2.1]
  rcases p.next_cases q with ⟨-, hzero⟩ | ⟨-, -, hseparates⟩
  · exact absurd hzero h.1
  · exact hseparates

theorem Follows.remaining_subset (h : Follows q p p') (hadded : NoneAdded p p') : p'.remaining ⊆ p.leftOut := by
  intro c hc
  obtain ⟨hcell, hhash, hcursor⟩ := (p'.engine.keyspace.mem_candidates p'.cursor c).mp hc
  rw [h.hash] at hhash
  have hlt : p.cursor < p'.cursor := h.2.1 ▸ (p.isPage q).cursor_lt h.1
  have hle : p.cursor ≤ c.1 := UInt64.le_trans (UInt64.le_of_lt hlt) hcursor
  have hmem : c ∈ p.remaining := (p.engine.keyspace.mem_candidates p.cursor c).mpr ⟨hadded c.2 hcell, hhash, hle⟩
  rw [← p.stretch_append_leftOut] at hmem
  rcases List.mem_append.mp hmem with hin | hout
  · exact absurd (h.cursor_between.1 c hin) (UInt64.not_lt.mpr hcursor)
  · exact hout

theorem Follows.length_remaining_le (h : Follows q p p') (hadded : NoneAdded p p') :
    p.size + p'.remaining.length ≤ p.remaining.length := by
  have hsubset := List.subperm_of_subset p'.nodup_remaining (h.remaining_subset hadded)
  rw [p.length_remaining]
  exact Nat.add_le_add (full_of_next h.1).1 hsubset.length_le

theorem Waits.cells (h : Waits q p p') : p'.engine.keyspace.cells =
    (p.engine.keyspace.scan p.cursor p.size (Engine.scanFilter q.pattern q.kind)).2.cells := by
  obtain ⟨millis, hengine⟩ := h
  have hadvance (millis : List UInt64) (e : Engine Q) :
      (e.run (millis.map .advance)).keyspace.cells = e.keyspace.cells := by
    induction millis generalizing e with
    | nil => rfl
    | cons m millis ih => exact ih (e.advance m)
  rw [hengine, hadvance]
  rfl

theorem Waits.noneAdded (h : Waits q p p') : NoneAdded p p' := by
  intro k hk
  rw [h.cells] at hk
  exact Keyspace.mem_cells_of_scan hk

theorem Follows.leftOut_subset (h : Follows q p p') (hwaits : Waits q p p') : p.leftOut ⊆ p'.remaining := by
  intro c hc
  have hmem : c ∈ p.remaining := by
    rw [← p.stretch_append_leftOut]
    exact List.mem_append_right _ hc
  obtain ⟨-, hhash, -⟩ := (p.engine.keyspace.mem_candidates p.cursor c).mp hmem
  refine (p'.engine.keyspace.mem_candidates p'.cursor c).mpr ⟨?_, ?_, h.cursor_between.2 c hc⟩
  · rw [hwaits.cells]
    exact Keyspace.mem_cells_scan _ hc
  · rw [h.hash]
    exact hhash

def Distinct (p : Page Q) : Prop := Set.InjOn p.engine.keyspace.hash {k | k ∈ p.engine.keyspace.cells}

theorem Distinct.length_stretch_le (h : p.Distinct) (hsize : 1 ≤ p.size) : p.stretch.length ≤ p.size := by
  rw [stretch, Nat.max_eq_left hsize]
  exact Keyspace.length_cutPage_le (Keyspace.pairwise_candidates h p.cursor)

theorem Distinct.of_follows (h : p.Distinct) (hfollows : Follows q p p') (hadded : NoneAdded p p') : p'.Distinct := by
  rw [Distinct, hfollows.hash]
  exact h.mono hadded

theorem Follows.le_length_remaining (h : Follows q p p') (hwaits : Waits q p p') (hdistinct : p.Distinct)
    (hsize : 1 ≤ p.size) : p.remaining.length ≤ p.size + p'.remaining.length := by
  have hnodup : p.leftOut.Nodup := p.nodup_remaining.sublist (p.stretch_append_leftOut ▸ List.sublist_append_right ..)
  have hsubset := List.subperm_of_subset hnodup (h.leftOut_subset hwaits)
  rw [p.length_remaining]
  exact Nat.add_le_add (hdistinct.length_stretch_le hsize) hsubset.length_le

namespace Scans
variable {ps : List (Page Q)} {size : Nat}

/-- Of pages that are not the last, each has taken its size off, and something is left. -/
theorem length_mul_lt (h : Scans q (p :: ps)) (hadded : (p :: ps).IsChain NoneAdded)
    (hsize : ∀ p' ∈ p :: ps, p'.size = size) :
    (ps ≠ [] → ps.length * size < p.remaining.length) ∧
      ((p :: ps).getLast?.map (·.next q) ≠ some 0 → (ps.length + 1) * size < p.remaining.length) := by
  -- from the last page back; each page takes its size off what the one before it left
  induction ps generalizing p with
  | nil =>
    refine ⟨absurd rfl, fun hlast => ?_⟩
    obtain ⟨hfull, hleft⟩ := full_of_next (q := q) (p := p) fun hzero => hlast (congrArg some hzero)
    have hp : p.size = size := hsize p List.mem_cons_self
    rw [p.length_remaining, List.length_nil]
    omega
  | cons p' ps ih =>
    cases h with
    | cons hfollows hrest =>
      obtain ⟨hnone, hadded⟩ := List.isChain_cons_cons.mp hadded
      obtain ⟨hp, hsize⟩ := List.forall_mem_cons.mp hsize
      obtain ⟨hmany, hunfinished⟩ := ih hrest hadded hsize
      have hstep := hfollows.length_remaining_le hnone
      obtain ⟨hfull, hleft⟩ := full_of_next hfollows.1
      rw [hp] at hstep hfull
      rw [List.length_cons, List.getLast?_cons_cons, Nat.succ_mul]
      refine ⟨fun _ => ?_, fun hlast => ?_⟩
      · cases ps with
        | nil =>
          rw [List.length_nil, p.length_remaining]
          omega
        | cons _ _ =>
          have := hmany (List.cons_ne_nil _ _)
          omega
      · have := hunfinished hlast
        rw [Nat.succ_mul (ps.length + 1)]
        omega

theorem length_remaining_le (h : Scans q (p :: ps)) (hwaits : (p :: ps).IsChain (Waits q)) (hdistinct : p.Distinct)
    (hpos : 1 ≤ size) (hsize : ∀ p' ∈ p :: ps, p'.size = size)
    (hlast : (p :: ps).getLast?.map (·.next q) = some 0) : p.remaining.length ≤ (ps.length + 1) * size := by
  induction ps generalizing p with
  | nil =>
    have hp : p.size = size := hsize p List.mem_cons_self
    have hstretch := hdistinct.length_stretch_le (hp ▸ hpos)
    rcases p.next_cases q with ⟨hnone, -⟩ | ⟨-, hne, -⟩
    · rw [p.length_remaining, hnone, List.length_nil, List.length_nil]
      omega
    · exact absurd (Option.some.inj hlast) hne
  | cons p' ps ih =>
    cases h with
    | cons hfollows hrest =>
      obtain ⟨hwait, hwaits⟩ := List.isChain_cons_cons.mp hwaits
      obtain ⟨hp, hsize⟩ := List.forall_mem_cons.mp hsize
      have hrest := ih hrest hwaits (hdistinct.of_follows hfollows hwait.noneAdded) hsize
        (by rw [← hlast, List.getLast?_cons_cons])
      have hstep := hfollows.le_length_remaining hwait hdistinct (hp ▸ hpos)
      rw [List.length_cons, Nat.succ_mul]
      omega

end Scans
end Page

/-- How many pages a scan takes. If it began at zero, every page asks for `c` keys, and no key becomes resident
between the pages, the scan ends within one page for every `c` of the keys that were resident at first, and one
more for the rest; there is one page in any case. If only time passes between the pages and no two of these keys
share a hash, it takes just as many. -/
theorem scan_page_count (q : Query) (p : Page Q) (ps : List (Page Q)) (h : Page.Scans q (p :: ps))
    (hfirst : p.cursor = 0) (c : Nat) (hc : 1 ≤ c) (hsize : ∀ p' ∈ p :: ps, p'.size = c) :
    let pages := p :: ps
    let ended := pages.getLast?.map (·.next q) = some 0
    let bound := max 1 (p.engine.keyspace.residentSize ⌈/⌉ c)
    (pages.IsChain Page.NoneAdded → pages.length ≤ bound ∧ (pages.length = bound → ended)) ∧
      (pages.IsChain (Page.Waits q) → p.Distinct → (ended ↔ pages.length = bound)) := by
  intro pages ended bound
  have hresident : p.remaining.length = p.engine.keyspace.residentSize := by
    rw [Page.remaining, hfirst, Keyspace.length_candidates_zero]
  have hceil (n : Nat) : p.engine.keyspace.residentSize ⌈/⌉ c ≤ n ↔ p.remaining.length ≤ n * c := by
    rw [ceilDiv_le_iff_le_mul hc, hresident, Nat.mul_comm]
  have hbound (hadded : pages.IsChain Page.NoneAdded) : pages.length ≤ bound ∧ (pages.length = bound → ended) := by
    obtain ⟨hmany, hunfinished⟩ := h.length_mul_lt hadded hsize
    have hlength : pages.length = ps.length + 1 := rfl
    constructor
    · cases ps with
      | nil => exact Nat.le_max_left ..
      | cons p' ps =>
        have hlt := mt (hceil _).mp (Nat.not_le.mpr (hmany (List.cons_ne_nil _ _)))
        omega
    · intro heq
      by_contra hnot
      have hlt := mt (hceil _).mp (Nat.not_le.mpr (hunfinished hnot))
      omega
  refine ⟨hbound, fun hwaits hdistinct => ?_⟩
  obtain ⟨hle, hend⟩ := hbound (hwaits.imp fun _ _ hwait => hwait.noneAdded)
  refine ⟨fun hended => Nat.le_antisymm hle ?_, hend⟩
  have hge := (hceil _).mpr (h.length_remaining_le hwaits hdistinct hc hsize hended)
  exact Nat.max_le.mpr ⟨Nat.succ_le_succ (Nat.zero_le _), hge⟩

/-- Two keys of three are asked for at a time. A scan during which only time passes has two pages, and so has one
before whose second page the third key is deleted, at which the cursor points. -/
theorem scan_page_count_of_deletion :
    let hash : Key → UInt64 := fun key => (key.headD 0).toUInt64
    let set (key : Key) : Event := .execute (.onKeys (.set key [120] {})) 0
    let q : Query := ⟨none, none⟩
    let e := (Engine.new .default { Base.standard with hash }).run [set [97], set [98], set [99]]
    let p : Page Queue := ⟨e, 0, some 2, 0⟩
    let next (evs : List Event) : Page Queue := ⟨(e.execute (p.command q) 0).2.run evs, 99, some 2, 0⟩
    let deletion : List Event := [.execute (.onKeys (.del [[99]])) 0]
    let later := next [.advance 5]
    let fewer := next deletion
    p.engine.keyspace.residentSize = 3 ∧ p.found q = (99, [[97], [98]]) ∧
      later.next q = 0 ∧ fewer.next q = 0 ∧ [99] ∉ fewer.engine.keyspace.cells := by
  intro hash set q e p next deletion later fewer
  have hsize : p.engine.keyspace.residentSize = 3 := by decide
  have hbound : 2 = max 1 (p.engine.keyspace.residentSize ⌈/⌉ 2) := by
    rw [hsize]
    decide
  have hp : p.found q = (99, [[97], [98]]) := by
    rw [Page.found, Keyspace.scan_fst, Keyspace.candidates, List.mergeSort_of_pairwise (by decide)]
    decide
  have hnext : p.next q = 99 := congrArg Prod.fst hp
  have hfollows (evs : List Event) : Page.Follows q p (next evs) := ⟨by rw [hnext]; decide, hnext.symm, evs, rfl⟩
  have hsizes (p' : Page Queue) (hp' : p'.size = 2) : ∀ p'' ∈ [p, p'], p''.size = 2 :=
    List.forall_mem_cons.mpr ⟨rfl, List.forall_mem_singleton.mpr hp'⟩
  have hfewer : fewer.engine = (e.record "scan" 0 (.ok .ok)).run deletion :=
    congrArg (·.run deletion) (p.execute_snd_of_live q (by decide))
  have hdistinct : p.Distinct := by
    have hkeys : ∀ j ∈ p.engine.keyspace.cells.keys, ∀ k ∈ p.engine.keyspace.cells.keys, hash j = hash k → j = k := by
      decide
    intro j hj k hk
    exact hkeys j (ExtTreeMap.mem_keys.mpr hj) k (ExtTreeMap.mem_keys.mpr hk)
  have hnone : Page.NoneAdded p fewer := by
    have hkeys : ∀ k ∈ fewer.engine.keyspace.cells.keys, k ∈ p.engine.keyspace.cells := by
      rw [hfewer]
      decide
    exact fun k hk => hkeys k (ExtTreeMap.mem_keys.mpr hk)
  obtain ⟨-, hexact⟩ :=
    scan_page_count q p [later] (.cons (hfollows _) (.first later)) rfl 2 (by decide) (hsizes later rfl)
  obtain ⟨hatMost, -⟩ :=
    scan_page_count q p [fewer] (.cons (hfollows _) (.first fewer)) rfl 2 (by decide) (hsizes fewer rfl)
  have hlater := (hexact (.cons_cons ⟨[5], rfl⟩ (.singleton later)) hdistinct).mpr hbound
  have hended := (hatMost (.cons_cons hnone (.singleton fewer))).2 hbound
  refine ⟨hsize, hp, Option.some.inj hlater, Option.some.inj hended, ?_⟩
  rw [hfewer]
  decide

end KeyStore
