import Mathlib.Data.Finset.Card
import KeyStore.Broker.Links
import KeyStore.Proofs.Maps

/-! Links as a relation. The two indexes of links are two listings of one set of pairs, each of a
subscriber and a name that it follows. Every operation on links is an operation on that set. -/
namespace KeyStore
open Std

abbrev Pairs := Finset (SubscriberId × Bytes)

namespace Pairs

def ofNames (id : SubscriberId) (names : List Bytes) : Pairs := (names.map (id, ·)).toFinset

def without (r : Pairs) (id : SubscriberId) : Pairs := r.filter fun p => p.1 ≠ id

/-- The pairs without those of a subscriber with some names; without all of its pairs if no name is
given. -/
def leave (r : Pairs) (id : SubscriberId) (names : List Bytes) : Pairs :=
  if names = [] then r.without id else r \ ofNames id names

@[simp] theorem mem_ofNames (id : SubscriberId) (names : List Bytes) (p : SubscriberId × Bytes) :
    p ∈ ofNames id names ↔ p.1 = id ∧ p.2 ∈ names := by
  obtain ⟨j, n⟩ := p
  simp only [ofNames, List.mem_toFinset, List.mem_map, Prod.mk.injEq]
  constructor
  · rintro ⟨m, hm, rfl, rfl⟩
    exact ⟨rfl, hm⟩
  · rintro ⟨rfl, hn⟩
    exact ⟨n, hn, rfl, rfl⟩

@[simp] theorem mem_without (r : Pairs) (id : SubscriberId) (p : SubscriberId × Bytes) :
    p ∈ r.without id ↔ p ∈ r ∧ p.1 ≠ id := Finset.mem_filter

@[simp] theorem mem_leave (r : Pairs) (id : SubscriberId) (names : List Bytes)
    (p : SubscriberId × Bytes) :
    p ∈ r.leave id names ↔ p ∈ r ∧ ¬ (p.1 = id ∧ (names = [] ∨ p.2 ∈ names)) := by
  rw [leave]
  split
  · rename_i hnone
    simp [hnone]
  · rename_i hsome
    rw [Finset.mem_sdiff, mem_ofNames]
    simp [hsome]

end Pairs

theorem length_eq_card [DecidableEq α] {xs : List α} (hnd : xs.Nodup) {s : Finset α}
    (h : ∀ x, x ∈ xs ↔ x ∈ s) : xs.length = s.card := by
  have hs : xs.toFinset = s := by
    ext x
    rw [List.mem_toFinset, h]
  rw [← hs, List.toFinset_card_of_nodup hnd]

namespace Links

theorem followers_link (l : Links) (id : SubscriberId) (name n : Bytes) :
    (l.link id name).followers n =
      if name = n then (l.followers name).insert id else l.followers n := by
  simp only [followers, link, ExtTreeMap.getElem?_insert, Std.compare_eq_iff_eq]
  split <;> simp_all

theorem names_link (l : Links) (id i : SubscriberId) (name : Bytes) :
    (l.link id name).names i = if id = i then (l.names id).insert name else l.names i := by
  simp only [names, link, ExtTreeMap.getElem?_insert, Std.compare_eq_iff_eq]
  split <;> simp_all

theorem followers_unfollow (l : Links) (id : SubscriberId) (name n : Bytes) :
    (l.unfollow id name).followers n =
      if name = n then (l.followers name).erase id else l.followers n := by
  simp only [unfollow]
  by_cases hrest : ((l.followers name).erase id).isEmpty = true
  · have hnone : (l.followers name).erase id = ∅ := ExtTreeSet.isEmpty_iff.mp hrest
    rw [if_pos hrest, hnone]
    simp only [followers, ExtTreeMap.getElem?_erase, Std.compare_eq_iff_eq]
    by_cases hn : name = n
    · simp [hn]
    · simp [hn]
  · rw [if_neg hrest]
    simp only [followers, ExtTreeMap.getElem?_insert, Std.compare_eq_iff_eq]
    split <;> simp_all

theorem names_unlink (l : Links) (id i : SubscriberId) (name : Bytes) :
    (l.unlink id name).names i = if id = i then (l.names id).erase name else l.names i := by
  have hsame : (l.unfollow id name).bySubscriber = l.bySubscriber := rfl
  simp only [unlink, names, hsame]
  cases hid : l.bySubscriber[id]? with
  | none =>
    simp only [hsame]
    split
    · rename_i hi
      subst hi
      simp [hid]
    · rfl
  | some names =>
    simp only [ExtTreeMap.getElem?_insert, Std.compare_eq_iff_eq]
    by_cases hi : id = i
    · simp [hi]
    · simp [hi]

theorem followers_unlink (l : Links) (id : SubscriberId) (name n : Bytes) :
    (l.unlink id name).followers n = (l.unfollow id name).followers n := by
  rw [unlink]
  split <;> rfl

theorem byName_unlink (l : Links) (id : SubscriberId) (name : Bytes) :
    (l.unlink id name).byName = (l.unfollow id name).byName := by
  rw [unlink]
  split <;> rfl

theorem mem_bySubscriber_linkEach (id i : SubscriberId) (names : List Bytes) (l : Links)
    (h : i ∈ (names.foldl (·.link id ·) l).bySubscriber) : i = id ∨ i ∈ l.bySubscriber := by
  induction names generalizing l with
  | nil => exact .inr h
  | cons m names ih =>
    rcases ih (l.link id m) h with hi | hi
    · exact .inl hi
    · rcases ExtTreeMap.mem_insert.mp hi with hid | hl
      · exact .inl (Std.compare_eq_iff_eq.mp hid).symm
      · exact .inr hl

theorem mem_bySubscriber_unlinkEach (id i : SubscriberId) (names : List Bytes) (l : Links)
    (h : i ∈ (names.foldl (·.unlink id ·) l).bySubscriber) : i ∈ l.bySubscriber := by
  induction names generalizing l with
  | nil => exact h
  | cons m names ih =>
    have hi := ih (l.unlink id m) h
    rw [unlink] at hi
    split at hi
    · rename_i hid
      rcases ExtTreeMap.mem_insert.mp hi with heq | hl
      · rw [← Std.compare_eq_iff_eq.mp heq, ExtTreeMap.mem_iff_isSome_getElem?]
        exact Option.isSome_of_eq_some hid
      · exact hl
    · exact hi

/-- A name is known just as long as someone follows it. -/
def Pruned (l : Links) : Prop := ∀ name, name ∈ l.byName ↔ ∃ id, id ∈ l.followers name

theorem mem_byName_of_mem_followers {l : Links} {id : SubscriberId} {name : Bytes}
    (h : id ∈ l.followers name) : name ∈ l.byName := by
  by_cases hn : name ∈ l.byName
  · exact hn
  · simp [followers, ExtTreeMap.getElem?_eq_none hn] at h

theorem pruned_empty : empty.Pruned := by
  intro name
  simp [empty, followers]

theorem Pruned.link {l : Links} (h : l.Pruned) (id : SubscriberId) (name : Bytes) :
    (l.link id name).Pruned := by
  intro n
  rw [followers_link, Links.link, ExtTreeMap.mem_insert, Std.compare_eq_iff_eq, h n]
  by_cases hn : name = n
  · rw [if_pos hn]
    exact ⟨fun _ => ⟨id, by simp⟩, fun _ => .inl hn⟩
  · simp [hn]

theorem Pruned.unfollow {l : Links} (h : l.Pruned) (id : SubscriberId) (name : Bytes) :
    (l.unfollow id name).Pruned := by
  intro n
  refine ⟨fun hn => ?_, fun ⟨i, hi⟩ => mem_byName_of_mem_followers hi⟩
  rw [followers_unfollow]
  by_cases hne : name = n
  · subst hne
    simp only [Links.unfollow] at hn
    rw [if_pos rfl]
    by_cases hrest : ((l.followers name).erase id).isEmpty = true
    · simp [hrest] at hn
    · apply Classical.byContradiction
      intro hnone
      apply hrest
      rw [ExtTreeSet.isEmpty_iff]
      apply ExtTreeSet.ext_mem
      intro i
      simp only [ExtTreeSet.not_mem_empty, iff_false]
      exact fun hi => hnone ⟨i, hi⟩
  · rw [if_neg hne]
    apply (h n).mp
    simp only [Links.unfollow] at hn
    split at hn
    · exact (ExtTreeMap.mem_erase.mp hn).2
    · rcases ExtTreeMap.mem_insert.mp hn with heq | hmem
      · exact absurd (Std.compare_eq_iff_eq.mp heq) hne
      · exact hmem

theorem bySubscriber_unfollowEach (id : SubscriberId) (names : List Bytes) (l : Links) :
    (names.foldl (·.unfollow id ·) l).bySubscriber = l.bySubscriber := by
  induction names generalizing l with
  | nil => rfl
  | cons m names ih => exact ih (l.unfollow id m)

theorem mem_bySubscriber_drop (id i : SubscriberId) (l : Links) :
    i ∈ (l.drop id).bySubscriber ↔ i ≠ id ∧ i ∈ l.bySubscriber := by
  rw [drop, bySubscriber_unfollowEach, ExtTreeMap.mem_erase, Ne, Std.compare_eq_iff_eq,
    eq_comm (a := id)]

theorem mem_followers_unfollowEach (id : SubscriberId) (names : List Bytes) (l : Links)
    (i : SubscriberId) (n : Bytes) :
    i ∈ (names.foldl (·.unfollow id ·) l).followers n ↔
      i ∈ l.followers n ∧ ¬ (i = id ∧ n ∈ names) := by
  induction names generalizing l with
  | nil => simp
  | cons m names ih =>
    rw [List.foldl_cons, ih, followers_unfollow]
    by_cases hn : m = n
    · subst hn
      simp only [if_true, ExtTreeSet.mem_erase, ne_eq, Std.compare_eq_iff_eq, List.mem_cons,
        true_or, and_true, eq_comm (a := id)]
      tauto
    · simp only [if_neg hn, List.mem_cons, Ne.symm hn, false_or]

theorem Pruned.unfollowEach {l : Links} (h : l.Pruned) (id : SubscriberId) (names : List Bytes) :
    (names.foldl (·.unfollow id ·) l).Pruned := by
  induction names generalizing l with
  | nil => exact h
  | cons m names ih => exact ih (h.unfollow id m)

/-- Both indexes list the pairs, and no name is kept that nobody follows. -/
structure Lists (l : Links) (r : Pairs) : Prop where
  followers : ∀ id name, id ∈ l.followers name ↔ (id, name) ∈ r
  names : ∀ id name, name ∈ l.names id ↔ (id, name) ∈ r
  pruned : l.Pruned

namespace Lists
variable {l : Links} {r : Pairs}

theorem empty : Lists .empty ∅ :=
  ⟨by simp [Links.empty, Links.followers], by simp [Links.empty, Links.names], pruned_empty⟩

theorem link (h : l.Lists r) (id : SubscriberId) (name : Bytes) :
    (l.link id name).Lists (insert (id, name) r) where
  followers i n := by
    rw [followers_link, Finset.mem_insert, Prod.mk.injEq, ← h.followers]
    by_cases hn : name = n
    · subst hn
      by_cases hi : id = i
      · simp [hi]
      · simp [hi, Ne.symm hi]
    · simp [hn, Ne.symm hn]
  names i n := by
    rw [names_link, Finset.mem_insert, Prod.mk.injEq, ← h.names]
    by_cases hi : id = i
    · subst hi
      by_cases hn : name = n
      · simp [hn]
      · simp [hn, Ne.symm hn]
    · simp [hi, Ne.symm hi]
  pruned := h.pruned.link id name

theorem linkAll (h : l.Lists r) (id : SubscriberId) (names : List Bytes) :
    (names.foldl (·.link id ·) l).Lists (r ∪ .ofNames id names) := by
  induction names generalizing l r with
  | nil =>
    have hr : r ∪ Pairs.ofNames id [] = r := by
      ext p
      simp
    rw [hr]
    exact h
  | cons n names ih =>
    have hr : insert (id, n) r ∪ Pairs.ofNames id names = r ∪ .ofNames id (n :: names) := by
      ext ⟨j, m⟩
      simp only [Finset.mem_union, Finset.mem_insert, Pairs.mem_ofNames, Prod.mk.injEq,
        List.mem_cons]
      tauto
    rw [List.foldl_cons, ← hr]
    exact ih (h.link id n)

theorem unlink (h : l.Lists r) (id : SubscriberId) (name : Bytes) :
    (l.unlink id name).Lists (r.erase (id, name)) where
  followers i n := by
    rw [followers_unlink, followers_unfollow, Finset.mem_erase, Ne, Prod.mk.injEq, ← h.followers]
    by_cases hn : name = n
    · subst hn
      by_cases hi : id = i
      · simp [hi]
      · simp [hi, Ne.symm hi]
    · simp [hn, Ne.symm hn]
  names i n := by
    rw [names_unlink, Finset.mem_erase, Ne, Prod.mk.injEq, ← h.names]
    by_cases hi : id = i
    · subst hi
      by_cases hn : name = n
      · simp [hn]
      · simp [hn, Ne.symm hn]
    · simp [hi, Ne.symm hi]
  pruned n := by
    rw [byName_unlink, followers_unlink]
    exact h.pruned.unfollow id name n

theorem unlinkEach (h : l.Lists r) (id : SubscriberId) (names : List Bytes) :
    (names.foldl (·.unlink id ·) l).Lists (r \ .ofNames id names) := by
  induction names generalizing l r with
  | nil =>
    have hr : r \ Pairs.ofNames id [] = r := by
      ext p
      simp
    rw [hr]
    exact h
  | cons n names ih =>
    have hr : r.erase (id, n) \ Pairs.ofNames id names = r \ .ofNames id (n :: names) := by
      ext ⟨j, m⟩
      simp only [Finset.mem_sdiff, Finset.mem_erase, Pairs.mem_ofNames, ne_eq, Prod.mk.injEq,
        List.mem_cons]
      tauto
    rw [List.foldl_cons, ← hr]
    exact ih (h.unlink id n)

/-- The names that a subscriber follows are all there is to give up, so the index may be read before
it is changed. -/
theorem leave (h : l.Lists r) (id : SubscriberId) (names : List Bytes) :
    ((if names.isEmpty then (l.names id).toList else names).foldl (·.unlink id ·) l).Lists
      (r.leave id names) := by
  have hr : r \ .ofNames id (if names.isEmpty then (l.names id).toList else names) =
      r.leave id names := by
    ext ⟨j, m⟩
    simp only [Finset.mem_sdiff, Pairs.mem_ofNames, Pairs.mem_leave]
    cases names with
    | nil =>
      have hm : m ∈ (l.names id).toList ↔ (id, m) ∈ r := by rw [ExtTreeSet.mem_toList, h.names]
      simp only [List.isEmpty_nil, if_true, hm]
      constructor
      · rintro ⟨hp, hne⟩
        refine ⟨hp, fun ⟨hj, _⟩ => hne ⟨hj, ?_⟩⟩
        rw [← hj]
        exact hp
      · rintro ⟨hp, hne⟩
        exact ⟨hp, fun ⟨hj, _⟩ => hne ⟨hj, .inl trivial⟩⟩
    | cons n names => simp
  rw [← hr]
  exact h.unlinkEach id _

theorem drop (h : l.Lists r) (id : SubscriberId) : (l.drop id).Lists (r.without id) := by
  -- the names of the subscriber go first, and they still tell whom to take off which list
  have hbefore : ∀ i n, i ∈ Links.followers { l with bySubscriber := l.bySubscriber.erase id } n ↔
      (i, n) ∈ r := h.followers
  refine ⟨fun i n => ?_, fun i n => ?_, ?_⟩
  · rw [Links.drop, mem_followers_unfollowEach, hbefore, ExtTreeSet.mem_toList, h.names,
      Pairs.mem_without]
    constructor
    · rintro ⟨hp, hne⟩
      refine ⟨hp, fun hid => hne ⟨hid, ?_⟩⟩
      rw [← hid]
      exact hp
    · rintro ⟨hp, hne⟩
      exact ⟨hp, fun hid => hne hid.1⟩
  · rw [Pairs.mem_without, ← h.names, Links.drop, Links.names, bySubscriber_unfollowEach,
      ExtTreeMap.getElem?_erase]
    by_cases hi : id = i
    · simp [hi]
    · simp [hi, Ne.symm hi, Links.names]
  · have hpruned : Pruned { l with bySubscriber := l.bySubscriber.erase id } := h.pruned
    exact hpruned.unfollowEach id _

theorem size_names (h : l.Lists r) (id : SubscriberId) :
    (l.names id).size = (r.filter (·.1 = id)).card := by
  have hnd : ((l.names id).toList.map (id, ·)).Nodup :=
    (nodup_toList _).map fun a b hab => (Prod.mk.inj hab).2
  rw [← ExtTreeSet.length_toList, ← List.length_map (f := (id, ·))]
  apply length_eq_card hnd
  rintro ⟨j, n⟩
  simp only [List.mem_map, ExtTreeSet.mem_toList, h.names, Prod.mk.injEq, Finset.mem_filter]
  constructor
  · rintro ⟨m, hm, rfl, rfl⟩
    exact ⟨hm, rfl⟩
  · rintro ⟨hp, rfl⟩
    exact ⟨n, hp, rfl, rfl⟩

theorem size_followers (h : l.Lists r) (name : Bytes) :
    (l.followers name).size = (r.filter (·.2 = name)).card := by
  have hnd : ((l.followers name).toList.map (·, name)).Nodup :=
    (nodup_toList _).map fun a b hab => (Prod.mk.inj hab).1
  rw [← ExtTreeSet.length_toList, ← List.length_map (f := (·, name))]
  apply length_eq_card hnd
  rintro ⟨j, n⟩
  simp only [List.mem_map, ExtTreeSet.mem_toList, h.followers, Prod.mk.injEq, Finset.mem_filter]
  constructor
  · rintro ⟨i, hi, rfl, rfl⟩
    exact ⟨hi, rfl⟩
  · rintro ⟨hp, rfl⟩
    exact ⟨j, hp, rfl, rfl⟩

theorem mem_known (h : l.Lists r) (name : Bytes) : name ∈ l.known ↔ ∃ id, (id, name) ∈ r := by
  rw [known, ExtTreeMap.mem_keys, h.pruned]
  exact exists_congr fun id => h.followers id name

theorem nodup_known : l.known.Nodup := nodup_keys l.byName

theorem size_byName (h : l.Lists r) : l.byName.size = (r.image (·.2)).card := by
  rw [← ExtTreeMap.length_keys]
  apply length_eq_card nodup_known
  intro name
  rw [h.mem_known]
  simp

end Lists
end Links
end KeyStore
