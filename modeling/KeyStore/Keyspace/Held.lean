import KeyStore.Keyspace

/-! Several keys at once: a command that needs more than one key holds all their cells, sees them
at one moment, and writes them back together. The keys it holds are sorted, each of them once, with
their slots beside them, and a key is found among them by halving. -/
namespace KeyStore
open Std

def Keyspace.inOrder (keys : List Key) : List Key := (ExtTreeSet.ofList keys).toList

@[simp] theorem Keyspace.mem_inOrder (keys : List Key) (k : Key) : k ∈ inOrder keys ↔ k ∈ keys := by
  simp [inOrder]

/-- The keys that a command holds, in order, and the slot of each. -/
structure Held where
  keys : Array Key
  entries : Vector Slot keys.size
  ordered : keys.toList.Pairwise fun a b => compare a b = .lt

namespace Held
open Keyspace

def ofKeys (keys : List Key) (view : Key → Slot) : Held where
  keys := (inOrder keys).toArray
  entries := ⟨((inOrder keys).map view).toArray, List.length_map view⟩
  ordered := ExtTreeSet.ordered_toList (t := ExtTreeSet.ofList keys)

/-- Finds a key from one position up to another: it lies before the middle, behind it, or there. The search
unfolds, so that runs can be computed. -/
@[semireducible] def search (keys : Array Key) (key : Key) (low high : Nat) (hhigh : high ≤ keys.size) :
    Option (Fin keys.size) :=
  if hlow : low < high then
    have hmid : (low + high) / 2 < high := by omega
    match compare keys[(low + high) / 2] key with
    | .lt => search keys key ((low + high) / 2 + 1) high hhigh
    | .eq => some ⟨(low + high) / 2, Nat.lt_of_lt_of_le hmid hhigh⟩
    | .gt => search keys key low ((low + high) / 2) (Nat.le_trans (Nat.le_of_lt hmid) hhigh)
  else none
termination_by high - low

def position (h : Held) (key : Key) : Option (Fin h.keys.size) :=
  search h.keys key 0 h.keys.size (Nat.le_refl _)

def entry (h : Held) (key : Key) : Slot := (h.position key).bind h.entries.get

def write (h : Held) (i : Fin h.keys.size) (s : Slot) : Held :=
  { h with entries := h.entries.set i s }

def take (h : Held) (key : Key) : Slot × Held :=
  match h.position key with
  | some i => (h.entries.get i, h.write i none)
  | none => (none, h)

def put (h : Held) (key : Key) (e : Entry) : Bool × Held :=
  match h.position key with
  | some i => (true, h.write i (some e))
  | none => (false, h)

theorem compare_getElem (h : Held) {m : Nat} (hm : m < h.keys.size) (i : Fin h.keys.size) :
    compare h.keys[m] h.keys[i] = compare m i.val := by
  have hless : ∀ i j, (hi : i < h.keys.size) → (hj : j < h.keys.size) → i < j →
      compare h.keys[i] h.keys[j] = .lt := List.pairwise_iff_getElem.mp h.ordered
  rcases Nat.lt_trichotomy m i.val with hbefore | rfl | hbehind
  · rw [Nat.compare_eq_lt.mpr hbefore]
    exact hless _ _ hm i.isLt hbefore
  · rw [Nat.compare_eq_eq.mpr rfl]
    exact compare_self
  · rw [Nat.compare_eq_gt.mpr hbehind]
    exact OrientedCmp.gt_of_lt (hless _ _ i.isLt hm hbehind)

theorem getElem_of_search {keys : Array Key} {key : Key} {low high : Nat} {hhigh : high ≤ keys.size}
    {i : Fin keys.size} (h : search keys key low high hhigh = some i) : keys[i] = key := by
  fun_induction search keys key low high hhigh with
  | case1 low high hhigh hlow hmid hless ih => exact ih h
  | case2 low high hhigh hlow hmid heq =>
    cases h
    exact Std.compare_eq_iff_eq.mp heq
  | case3 low high hhigh hlow hmid hgreater ih => exact ih h
  | case4 low high hhigh hlow => cases h

theorem search_getElem (h : Held) (i : Fin h.keys.size) {low high : Nat} (hhigh : high ≤ h.keys.size)
    (hlow : low ≤ i) (hi : i < high) : search h.keys h.keys[i] low high hhigh = some i := by
  fun_induction search h.keys h.keys[i] low high hhigh with
  | case1 low high hhigh hbounds hmid hless ih =>
    rw [h.compare_getElem, Nat.compare_eq_lt] at hless
    exact ih hless hi
  | case2 low high hhigh hbounds hmid heq =>
    rw [h.compare_getElem, Nat.compare_eq_eq] at heq
    exact congrArg some (Fin.ext heq)
  | case3 low high hhigh hbounds hmid hgreater ih =>
    rw [h.compare_getElem, Nat.compare_eq_gt] at hgreater
    exact ih hlow hgreater
  | case4 low high hhigh hbounds => omega

theorem position_eq_some_iff (h : Held) (key : Key) (i : Fin h.keys.size) :
    h.position key = some i ↔ h.keys[i] = key := by
  constructor
  · exact getElem_of_search
  · rintro rfl
    exact h.search_getElem i (Nat.le_refl _) (Nat.zero_le _) i.isLt

instance : Membership Key Held := ⟨fun h key => key ∈ h.keys⟩

theorem mem_of_position {h : Held} {key : Key} {i : Fin h.keys.size} (hi : h.position key = some i) : key ∈ h := by
  rw [← (position_eq_some_iff ..).mp hi]
  exact Array.getElem_mem i.isLt

theorem position_eq_none_iff (h : Held) (key : Key) : h.position key = none ↔ key ∉ h := by
  rw [Option.eq_none_iff_forall_ne_some]
  simp only [ne_eq, position_eq_some_iff]
  constructor
  · intro hnone hmem
    obtain ⟨i, hi, hkey⟩ := Array.getElem_of_mem hmem
    exact hnone ⟨i, hi⟩ hkey
  · rintro hmem i rfl
    exact hmem (Array.getElem_mem i.isLt)

theorem isSome_position_iff (h : Held) (key : Key) : (h.position key).isSome = true ↔ key ∈ h := by
  rw [← Option.ne_none_iff_isSome, Ne, position_eq_none_iff, Classical.not_not]

instance (h : Held) (key : Key) : Decidable (key ∈ h) := decidable_of_iff _ (h.isSome_position_iff key)

theorem entry_write {h : Held} {key : Key} {i : Fin h.keys.size} (hi : h.position key = some i) (s : Slot)
    (k : Key) : (h.write i s).entry k = if key = k then s else h.entry k := by
  have hset : (h.write i s).entry k = (h.position k).bind (h.entries.set i s).get := rfl
  rw [hset, entry]
  by_cases hk : key = k
  · subst hk
    rw [hi, if_pos rfl]
    exact Vector.getElem_set_self i.isLt
  · rw [if_neg hk]
    cases hj : h.position k with
    | none => rfl
    | some j =>
      have hne : i.val ≠ j.val := by
        intro heq
        rw [Fin.ext heq, position_eq_some_iff] at hi
        exact hk (hi.symm.trans ((position_eq_some_iff ..).mp hj))
      exact Vector.getElem_set_ne i.isLt j.isLt hne

theorem entry_of_notMem {h : Held} {key : Key} (hkey : key ∉ h) : h.entry key = none := by
  rw [entry, (position_eq_none_iff ..).mpr hkey]
  rfl

theorem take_fst (h : Held) (key : Key) : (h.take key).1 = h.entry key := by
  rw [take, entry]
  cases h.position key <;> rfl

theorem entry_take (h : Held) (key k : Key) :
    (h.take key).2.entry k = if key = k then none else h.entry k := by
  rw [take]
  split
  · rename_i hi
    exact entry_write hi none k
  · rename_i hnone
    split
    · rename_i hk
      exact hk ▸ entry_of_notMem ((position_eq_none_iff ..).mp hnone)
    · rfl

@[simp] theorem mem_take (h : Held) (key k : Key) : k ∈ (h.take key).2 ↔ k ∈ h := by
  rw [take]
  split <;> rfl

theorem put_fst (h : Held) (key : Key) (e : Entry) : (h.put key e).1 = decide (key ∈ h) := by
  rw [put]
  split
  · rename_i hi
    exact (decide_eq_true (mem_of_position hi)).symm
  · rename_i hnone
    exact (decide_eq_false ((position_eq_none_iff ..).mp hnone)).symm

theorem entry_put (h : Held) (key : Key) (e : Entry) (k : Key) :
    (h.put key e).2.entry k = if key = k ∧ key ∈ h then some e else h.entry k := by
  rw [put]
  split
  · rename_i hi
    simp only [mem_of_position hi, and_true]
    exact entry_write hi (some e) k
  · rename_i hnone
    rw [if_neg fun hk => (position_eq_none_iff ..).mp hnone hk.2]

theorem entry_put_of_ne (h : Held) {key k : Key} (hk : key ≠ k) (e : Entry) :
    (h.put key e).2.entry k = h.entry k := by
  rw [entry_put, if_neg fun hkey => hk hkey.1]

@[simp] theorem mem_put (h : Held) (key : Key) (e : Entry) (k : Key) : k ∈ (h.put key e).2 ↔ k ∈ h := by
  rw [put]
  split <;> rfl

@[simp] theorem mem_ofKeys_iff (keys : List Key) (view : Key → Slot) (k : Key) :
    k ∈ ofKeys keys view ↔ k ∈ keys := List.mem_toArray.trans (mem_inOrder keys k)

theorem entry_ofKeys (keys : List Key) (view : Key → Slot) (k : Key) :
    (ofKeys keys view).entry k = if k ∈ keys then view k else none := by
  split
  · rename_i hk
    obtain ⟨i, hi⟩ : ∃ i, (ofKeys keys view).position k = some i := by
      rw [← Option.isSome_iff_exists, isSome_position_iff, mem_ofKeys_iff]
      exact hk
    have hkey := (position_eq_some_iff ..).mp hi
    rw [entry, hi]
    exact (List.getElem_map view).trans (congrArg view hkey)
  · rename_i hk
    exact entry_of_notMem (by simpa using hk)

end Held

namespace Keyspace

/-- Runs `f` on the slots of some keys and writes them back. -/
def withHeld (ks : Keyspace) (keys : List Key) (f : Held → α × Held) : α × Keyspace :=
  let order := inOrder keys
  let ks := order.foldl hold ks
  let ks := order.foldl lapseLazily ks
  let (out, held) := f (.ofKeys keys ks.slot)
  let ks := order.foldl (fun ks key => ks.settle key (held.entry key)) ks
  (out, order.foldl release ks)

end Keyspace
end KeyStore
