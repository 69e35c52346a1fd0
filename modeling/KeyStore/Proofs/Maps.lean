import Mathlib.Algebra.Ring.Nat
import Mathlib.Data.List.Sort
import Std.Data.ExtTreeMap
import Std.Data.ExtTreeSet.Lemmas
import KeyStore.Bytes

/-! Maps and sets as lists. A map has each of its keys once and is listed by its keys, byte strings in the
order of a dictionary; what its entries count for together changes with one of them by as much. -/
namespace KeyStore
open Std

variable {α : Type} [Ord α] [TransOrd α] [LawfulEqOrd α] {β : Type}

theorem nodup_keys (m : ExtTreeMap α β) : m.keys.Nodup :=
  ExtTreeMap.distinct_keys.imp fun hne heq => hne (by simp [heq])

theorem nodup_toList (s : ExtTreeSet α) : s.toList.Nodup :=
  (ExtTreeSet.distinct_toList (t := s)).imp fun hne heq => hne (by simp [heq])

theorem size_eq_length {m : ExtTreeMap α β} {l : List α} (hl : l.Nodup) (hmem : ∀ k, k ∈ m ↔ k ∈ l) :
    m.size = l.length := by
  have hperm : m.keys.Perm l := (List.perm_ext_iff_of_nodup (nodup_keys m) hl).mpr fun k =>
    ExtTreeMap.mem_keys.trans (hmem k)
  rw [← ExtTreeMap.length_keys, hperm.length_eq]

theorem toList_eq_of_mem_iff {m : ExtTreeMap α β} {l : List (α × β)}
    (hl : l.Pairwise fun a b => compare a.1 b.1 = .lt) (hmem : ∀ k x, (k, x) ∈ l ↔ m[k]? = some x) :
    m.toList = l := by
  let Below (a b : α × β) : Prop := compare a.1 b.1 = .lt
  have : Std.Irrefl Below := ⟨fun a h => by simp [Below] at h⟩
  have : Std.Antisymm Below := ⟨fun a b hab hba => by simp [Below, OrientedCmp.gt_of_lt hab] at hba⟩
  refine List.Pairwise.eq_of_mem_iff (r := Below) ExtTreeMap.ordered_keys_toList hl fun ⟨k, x⟩ => ?_
  rw [ExtTreeMap.mem_toList_iff_getElem?_eq_some, hmem]

theorem toList_insert_last {m : ExtTreeMap α β} {k : α} (x : β)
    (hlast : ∀ j y, m[j]? = some y → compare j k = .lt) : (m.insert k x).toList = m.toList ++ [(k, x)] := by
  refine toList_eq_of_mem_iff ?_ fun j y => ?_
  · refine List.pairwise_append.mpr ⟨ExtTreeMap.ordered_keys_toList, List.pairwise_singleton .., ?_⟩
    intro a ha b hb
    rw [List.mem_singleton.mp hb]
    exact hlast a.1 a.2 (ExtTreeMap.mem_toList_iff_getElem?_eq_some.mp ha)
  · rw [List.mem_append, ExtTreeMap.mem_toList_iff_getElem?_eq_some, List.mem_singleton,
      ExtTreeMap.getElem?_insert, Prod.mk.injEq]
    by_cases hj : k = j
    · subst hj
      have hnew : m[k]? ≠ some y := fun hy => by simpa using hlast k y hy
      simp [hnew, eq_comm]
    · simp [hj, Ne.symm hj]

theorem toList_erase [DecidableEq α] (m : ExtTreeMap α β) (k : α) :
    (m.erase k).toList = m.toList.filter fun p => decide (p.1 ≠ k) := by
  refine toList_eq_of_mem_iff (ExtTreeMap.ordered_keys_toList.filter _) fun j y => ?_
  rw [List.mem_filter, ExtTreeMap.mem_toList_iff_getElem?_eq_some, ExtTreeMap.getElem?_erase]
  by_cases hj : k = j
  · simp [hj]
  · simp [hj, Ne.symm hj]

theorem toList_perm_cons_erase {m : ExtTreeMap α β} {k : α} {x : β} (h : m[k]? = some x) :
    m.toList.Perm ((k, x) :: (m.erase k).toList) := by
  have hnd : ∀ m : ExtTreeMap α β, m.toList.Nodup := fun m =>
    (ExtTreeMap.distinct_keys_toList (t := m)).imp fun hne heq => hne (by simp [heq])
  apply (List.perm_ext_iff_of_nodup (hnd m) _).mpr
  · rintro ⟨j, y⟩
    rw [List.mem_cons, ExtTreeMap.mem_toList_iff_getElem?_eq_some,
      ExtTreeMap.mem_toList_iff_getElem?_eq_some, ExtTreeMap.getElem?_erase, Prod.mk.injEq]
    by_cases hj : k = j
    · subst hj
      simp [h, eq_comm]
    · simp [hj, Ne.symm hj]
  · refine List.nodup_cons.mpr ⟨fun hmem => ?_, hnd _⟩
    simp [ExtTreeMap.mem_toList_iff_getElem?_eq_some] at hmem

def sumOf (weight : β → Nat) (m : ExtTreeMap α β) : Nat := (m.toList.map fun p => weight p.2).sum

theorem sumOf_eq (weight : β → Nat) (m : ExtTreeMap α β) (k : α) :
    sumOf weight m = (m[k]?.elim 0 weight) + sumOf weight (m.erase k) := by
  cases hk : m[k]? with
  | none =>
    have herase : m.erase k = m := by
      apply ExtTreeMap.ext_getElem?
      intro j
      rw [ExtTreeMap.getElem?_erase]
      by_cases hj : k = j
      · subst hj
        simp [hk]
      · simp [hj]
    rw [herase]
    exact (Nat.zero_add _).symm
  | some x =>
    rw [sumOf, ((toList_perm_cons_erase hk).map _).sum_nat, List.map_cons, List.sum_cons]
    rfl

theorem sumOf_change (weight : β → Nat) {m m' : ExtTreeMap α β} {k : α}
    (hother : ∀ j, k ≠ j → m'[j]? = m[j]?) :
    sumOf weight m' + m[k]?.elim 0 weight = sumOf weight m + m'[k]?.elim 0 weight := by
  have herase : m'.erase k = m.erase k := by
    apply ExtTreeMap.ext_getElem?
    intro j
    rw [ExtTreeMap.getElem?_erase, ExtTreeMap.getElem?_erase]
    by_cases hj : k = j
    · simp [hj]
    · simp [hj, hother j hj]
  rw [sumOf_eq weight m k, sumOf_eq weight m' k, herase]
  omega

theorem compare_eq_lt_iff (a b : Bytes) : compare a b = .lt ↔ a < b := by
  change List.compareLex compare a b = .lt ↔ a < b
  induction a generalizing b with
  | nil => cases b <;> simp [List.compareLex_nil_nil, List.compareLex_nil_cons]
  | cons x xs ih =>
    cases b with
    | nil => simp [List.compareLex_cons_nil]
    | cons y ys =>
      have hrest : List.compareLex compare xs ys = .lt ↔ xs < ys := ih ys
      rw [List.compareLex_cons_cons, Ordering.then_eq_lt, List.cons_lt_cons_iff, hrest,
        compare_eq_lt, Std.compare_eq_iff_eq]

/-- A list in the order of a dictionary of just the names with a property. -/
structure ListingOf (P : Bytes → Prop) (names : List Bytes) : Prop where
  ascending : names.Pairwise (· < ·)
  mem : ∀ name, name ∈ names ↔ P name

theorem ListingOf.unique {P : Bytes → Prop} {names names' : List Bytes} (h : ListingOf P names)
    (h' : ListingOf P names') : names = names' :=
  h.ascending.eq_of_mem_iff h'.ascending fun name => (h.mem name).trans (h'.mem name).symm

theorem listingOf_toList (s : ExtTreeSet Bytes) : ListingOf (· ∈ s) s.toList where
  ascending := ExtTreeSet.ordered_toList.imp fun hlt => (compare_eq_lt_iff _ _).mp hlt
  mem _ := ExtTreeSet.mem_toList

end KeyStore
