import KeyStore.Proofs.Links
import KeyStore.Proofs.Scores
import KeyStore.Value.SortedSet

/-! Rankings. The two indexes of a sorted set tell of the same members: the ranking has one place for each
member, where its score puts it. Every operation keeps them so. The members are therefore listed once each and
in order, and the rank of a member is its index in the list. -/
namespace KeyStore
open Std

theorem Place.compare_eq_lt_iff (p q : Place) :
    compare p q = .lt ↔ p.order < q.order ∨ p.order = q.order ∧ p.member < q.member := by
  change (compareOn Place.order p q).then (compareOn Place.member p q) = .lt ↔ _
  rw [Ordering.then_eq_lt, compareOn, compareOn, compare_eq_lt, Std.compare_eq_iff_eq,
    KeyStore.compare_eq_lt_iff]

theorem countP_lt_of_getElem? {α : Type} [Ord α] [TransOrd α] {l : List α}
    (hl : l.Pairwise fun a b => compare a b = .lt) {i : Nat} {p : α} (h : l[i]? = some p) :
    l.countP (fun a => compare a p == .lt) = i := by
  induction l generalizing i with
  | nil => cases h
  | cons a l ih =>
    obtain ⟨hhead, htail⟩ := List.pairwise_cons.mp hl
    cases i with
    | zero =>
      cases h
      rw [List.countP_eq_zero]
      intro b hb
      rcases List.mem_cons.mp hb with rfl | hb
      · simp
      · simp [OrientedCmp.gt_of_lt (hhead b hb)]
    | succ i =>
      have hp : compare a p = .lt := hhead p (List.mem_of_getElem? h)
      rw [List.countP_cons_of_pos (by simp [hp]), ih htail h]

namespace SortedSet

inductive Call
  | insert (member : Bytes) (score : Double)
  | remove (member : Bytes)
  | increment (member : Bytes) (delta : Double)

def after (z : SortedSet) : Call → SortedSet
  | .insert member score => (z.insert member score).2
  | .remove member => (z.remove member).2
  | .increment member delta => (z.increment member delta).2

def run (z : SortedSet) (cs : List Call) : SortedSet := cs.foldl after z

theorem score?_insert (z : SortedSet) (member : Bytes) (score : Double) (m : Bytes) :
    (z.insert member score).2.score? m = if member = m then some score else z.score? m := by
  have hscores : (z.insert member score).2.scores = z.scores.insert member score := by
    rw [insert]
    split
    · split <;> rfl
    · rfl
  rw [score?, hscores, ExtTreeMap.getElem?_insert]
  simp [score?]

theorem score?_remove (z : SortedSet) (member m : Bytes) :
    (z.remove member).2.score? m = if member = m then none else z.score? m := by
  rw [remove]
  split
  · simp [score?, ExtTreeMap.getElem?_erase]
  · rename_i hs
    split
    · rename_i hm
      rw [← hm]
      exact hs
    · rfl

theorem insert_fst (z : SortedSet) (member : Bytes) (score : Double) :
    (z.insert member score).1 = (z.score? member).isNone := by
  rw [insert, score?]
  split
  · split <;> simp_all
  · simp_all

theorem remove_fst (z : SortedSet) (member : Bytes) :
    (z.remove member).1 = (z.score? member).isSome := by
  rw [remove, score?]
  split <;> simp_all

theorem increment_cases (z : SortedSet) (member : Bytes) (delta : Double) :
    z.increment member delta = (.error .nanScore, z) ∨
      ∃ score, score.isNaN = false ∧
        z.increment member delta = (.ok score, (z.insert member score).2) := by
  simp only [increment]
  split
  · exact .inl rfl
  · rename_i hnan
    exact .inr ⟨_, (Bool.not_eq_true _).mp hnan, rfl⟩

theorem of_eq_iff (score : Double) (member : Bytes) (p : Place) :
    Place.of score member = p ↔ member = p.member ∧ score.order = p.order := by
  cases p
  simp [Place.of, and_comm]

theorem map_fst_toList (z : SortedSet) : z.toList.map Prod.fst = z.ranking.keys.map Place.member := by
  rw [toList, List.map_map, ← ExtTreeMap.map_fst_toList_eq_keys, List.map_map]
  rfl

/-- The ranking has a place for each member, where its score puts it, and no other. -/
structure Ranked (z : SortedSet) : Prop where
  mem_ranking : ∀ p : Place, p ∈ z.ranking ↔ (z.score? p.member).map Double.order = some p.order
  order_eq : ∀ (p : Place) (x : Double), z.ranking[p]? = some x → x.order = p.order

namespace Ranked

theorem empty : Ranked SortedSet.empty where
  mem_ranking p := by simp [SortedSet.empty, score?]
  order_eq p x h := by simp [SortedSet.empty] at h

variable {z : SortedSet} (h : z.Ranked)
include h

theorem getElem?_eq_none {p : Place} (hp : (z.score? p.member).map Double.order ≠ some p.order) :
    z.ranking[p]? = none :=
  ExtTreeMap.getElem?_eq_none fun hmem => hp ((h.mem_ranking p).mp hmem)

/-- A member goes to the place of its new score. What it is listed with stays as long as its place does. -/
theorem getElem?_ranking_insert (member : Bytes) (score : Double) (p : Place) :
    (z.insert member score).2.ranking[p]? =
      if member = p.member then
        if (z.score? member).map Double.order = some score.order then z.ranking[p]?
        else if score.order = p.order then some score else none
      else z.ranking[p]? := by
  have hnone := @getElem?_eq_none z h p
  cases hs : z.scores[member]? with
  | none =>
    simp only [SortedSet.insert, score?, hs, ExtTreeMap.getElem?_insert, Std.compare_eq_iff_eq,
      of_eq_iff]
    by_cases hm : member = p.member
    · subst hm
      simp [hnone (by simp [score?, hs])]
    · simp [hm]
  | some old =>
    -- only the map of scores is written when the new score goes to the old place
    by_cases hsame : old.order = score.order
    · simp [SortedSet.insert, score?, hs, hsame]
    · simp only [SortedSet.insert, score?, hs, hsame, if_false, ExtTreeMap.getElem?_insert,
        ExtTreeMap.getElem?_erase, Std.compare_eq_iff_eq, of_eq_iff]
      by_cases hm : member = p.member
      · subst hm
        by_cases hold : old.order = p.order
        · have hmoved : p.order ≠ score.order := hold ▸ hsame
          simp [hold, hmoved]
        · have hgone : z.ranking[p]? = none := hnone (by simpa [score?, hs] using hold)
          simp [hold, hsame, hgone]
      · simp [hm]

theorem insert (member : Bytes) (score : Double) : Ranked (z.insert member score).2 := by
  have hranking := h.getElem?_ranking_insert member score
  constructor
  · intro p
    have hmem := h.mem_ranking p
    rw [ExtTreeMap.mem_iff_isSome_getElem?] at hmem ⊢
    rw [hranking, score?_insert]
    by_cases hm : member = p.member
    · subst hm
      rw [if_pos rfl, if_pos rfl, Option.map_some]
      split
      · rename_i hsame
        rw [hmem, hsame]
      · split
        · rename_i hplace
          simp [hplace]
        · rename_i hplace
          simp [hplace]
    · rw [if_neg hm, if_neg hm, hmem]
  · intro p x hx
    have hold := h.order_eq p x
    rw [hranking] at hx
    split at hx
    · split at hx
      · exact hold hx
      · split at hx
        · rename_i hplace
          rw [← Option.some.inj hx, hplace]
        · cases hx
    · exact hold hx

theorem getElem?_ranking_remove (member : Bytes) (p : Place) :
    (z.remove member).2.ranking[p]? = if member = p.member then none else z.ranking[p]? := by
  have hnone := @getElem?_eq_none z h p
  cases hs : z.scores[member]? with
  | none =>
    simp only [SortedSet.remove, hs]
    split
    · rename_i hm
      exact hnone (by simp [score?, ← hm, hs])
    · rfl
  | some old =>
    simp only [SortedSet.remove, hs, ExtTreeMap.getElem?_erase, Std.compare_eq_iff_eq, of_eq_iff]
    by_cases hm : member = p.member
    · subst hm
      by_cases hold : old.order = p.order
      · simp [hold]
      · simpa [hold] using hnone (by simpa [score?, hs] using hold)
    · simp [hm]

theorem remove (member : Bytes) : Ranked (z.remove member).2 := by
  have hranking := h.getElem?_ranking_remove member
  constructor
  · intro p
    have hmem := h.mem_ranking p
    rw [ExtTreeMap.mem_iff_isSome_getElem?] at hmem ⊢
    rw [hranking, score?_remove]
    split
    · simp
    · exact hmem
  · intro p x hx
    rw [hranking] at hx
    split at hx
    · cases hx
    · exact h.order_eq p x hx

theorem after (c : Call) : (z.after c).Ranked := by
  cases c with
  | insert member score => exact h.insert member score
  | remove member => exact h.remove member
  | increment member delta =>
    rw [SortedSet.after]
    rcases z.increment_cases member delta with hfails | ⟨score, -, hinserts⟩
    · rw [hfails]
      exact h
    · rw [hinserts]
      exact h.insert member score

theorem run (cs : List Call) : (z.run cs).Ranked := by
  induction cs generalizing z with
  | nil => exact h
  | cons c cs ih => exact ih (h.after c)

theorem order_of_mem {q : Place × Double} (hq : q ∈ z.ranking.toList) : q.2.order = q.1.order :=
  h.order_eq q.1 q.2 (ExtTreeMap.mem_toList_iff_getElem?_eq_some.mp hq)

theorem mem_toList (m : Bytes) (x : Double) : (m, x) ∈ z.toList ↔ z.ranking[Place.of x m]? = some x := by
  rw [toList, List.mem_map]
  constructor
  · rintro ⟨⟨p, y⟩, hp, heq⟩
    rw [ExtTreeMap.mem_toList_iff_getElem?_eq_some] at hp
    obtain ⟨rfl, rfl⟩ := Prod.mk.inj heq
    rw [(of_eq_iff y p.member p).mpr ⟨rfl, h.order_eq p y hp⟩]
    exact hp
  · intro hx
    exact ⟨(Place.of x m, x), ExtTreeMap.mem_toList_iff_getElem?_eq_some.mpr hx, rfl⟩

theorem score?_of_mem {m : Bytes} {x : Double} (hx : (m, x) ∈ z.toList) :
    ∃ s, z.score? m = some s ∧ s.order = x.order := by
  have hplace : Place.of x m ∈ z.ranking := by
    rw [ExtTreeMap.mem_iff_isSome_getElem?, (h.mem_toList m x).mp hx]
    rfl
  exact Option.map_eq_some_iff.mp ((h.mem_ranking _).mp hplace)

theorem mem_of_score? {m : Bytes} {s : Double} (hs : z.score? m = some s) :
    ∃ x, (m, x) ∈ z.toList ∧ x.order = s.order := by
  have hplace : Place.of s m ∈ z.ranking := (h.mem_ranking _).mpr (congrArg (Option.map _) hs)
  rw [ExtTreeMap.mem_iff_isSome_getElem?] at hplace
  obtain ⟨x, hx⟩ := Option.isSome_iff_exists.mp hplace
  have horder : x.order = s.order := h.order_eq _ x hx
  refine ⟨x, (h.mem_toList m x).mpr ?_, horder⟩
  rw [(of_eq_iff x m (Place.of s m)).mpr ⟨rfl, horder⟩]
  exact hx

theorem ascending :
    z.toList.Pairwise fun a b => a.2.order < b.2.order ∨ a.2.order = b.2.order ∧ a.1 < b.1 := by
  rw [toList, List.pairwise_map]
  refine ExtTreeMap.ordered_keys_toList.imp_of_mem ?_
  intro a b ha hb hlt
  rw [h.order_of_mem ha, h.order_of_mem hb]
  exact (Place.compare_eq_lt_iff a.1 b.1).mp hlt

theorem eq_of_member_eq {p q : Place} (hp : p ∈ z.ranking) (hq : q ∈ z.ranking)
    (hmember : p.member = q.member) : p = q := by
  have horder := (h.mem_ranking p).mp hp
  rw [hmember, (h.mem_ranking q).mp hq] at horder
  cases p; cases q
  exact congr (congrArg Place.mk (Option.some.inj horder).symm) hmember

theorem nodup : (z.toList.map Prod.fst).Nodup := by
  rw [map_fst_toList]
  refine List.pairwise_map.mpr (ExtTreeMap.distinct_keys.imp_of_mem ?_)
  intro p q hp hq hne hmember
  rw [ExtTreeMap.mem_keys] at hp hq
  exact hne (Std.compare_eq_iff_eq.mpr (h.eq_of_member_eq hp hq hmember))

theorem size_eq : z.size = z.toList.length := by
  have hmem : ∀ m, m ∈ z.scores ↔ m ∈ z.toList.map Prod.fst := by
    intro m
    rw [ExtTreeMap.mem_iff_isSome_getElem?, List.mem_map]
    constructor
    · intro hm
      obtain ⟨s, hs⟩ := Option.isSome_iff_exists.mp hm
      obtain ⟨x, hx, -⟩ := h.mem_of_score? hs
      exact ⟨(m, x), hx, rfl⟩
    · rintro ⟨⟨m', x⟩, hx, rfl⟩
      obtain ⟨s, hs, -⟩ := h.score?_of_mem hx
      exact Option.isSome_iff_exists.mpr ⟨s, hs⟩
  rw [size, size_eq_length h.nodup hmem, List.length_map]

theorem rank?_of_getElem? {p : Place} {i : Nat} (hp : z.ranking.keys[i]? = some p) :
    z.rank? p.member = some i := by
  have hmem : p ∈ z.ranking := ExtTreeMap.mem_keys.mp (List.mem_of_getElem? hp)
  obtain ⟨s, hs, horder⟩ := Option.map_eq_some_iff.mp ((h.mem_ranking p).mp hmem)
  rw [rank?, show z.scores[p.member]? = some s from hs, Option.map_some,
    (of_eq_iff s p.member p).mpr ⟨rfl, horder⟩, countP_lt_of_getElem? ExtTreeMap.ordered_keys hp]

theorem rank?_eq_some_iff (m : Bytes) (i : Nat) :
    z.rank? m = some i ↔ (z.toList.map Prod.fst)[i]? = some m := by
  rw [map_fst_toList, List.getElem?_map, Option.map_eq_some_iff]
  constructor
  · intro hrank
    obtain ⟨s, hs, -⟩ := Option.map_eq_some_iff.mp hrank
    have hplace : Place.of s m ∈ z.ranking.keys :=
      ExtTreeMap.mem_keys.mpr ((h.mem_ranking _).mpr (congrArg (Option.map _) hs))
    obtain ⟨j, hj⟩ := List.mem_iff_getElem?.mp hplace
    have hindex : i = j := Option.some.inj (hrank.symm.trans (h.rank?_of_getElem? hj))
    exact ⟨_, hindex ▸ hj, rfl⟩
  · rintro ⟨p, hp, rfl⟩
    exact h.rank?_of_getElem? hp

theorem rank?_lt {m : Bytes} {i : Nat} (hrank : z.rank? m = some i) : i < z.size := by
  have hindex := (h.rank?_eq_some_iff m i).mp hrank
  obtain ⟨hlt, -⟩ := List.getElem?_eq_some_iff.mp hindex
  rwa [List.length_map, ← h.size_eq] at hlt

end Ranked

/-- What a sorted set tells of its members, and of calls that are about to come. -/
structure Orderly (z : SortedSet) : Prop where
  /-- The members are listed by score, and by their bytes where scores agree. -/
  ascending : z.toList.Pairwise fun a b => a.2.order < b.2.order ∨ a.2.order = b.2.order ∧ a.1 < b.1
  /-- No member is listed twice. -/
  nodup : (z.toList.map Prod.fst).Nodup
  score_of_mem : ∀ m x, (m, x) ∈ z.toList → ∃ s, z.score? m = some s ∧ s.order = x.order
  mem_of_score : ∀ m s, z.score? m = some s → ∃ x, (m, x) ∈ z.toList ∧ x.order = s.order
  size : z.size = z.toList.length
  insert : ∀ m s, (z.insert m s).1 = true ↔ z.score? m = none
  remove : ∀ m, (z.remove m).1 = true ↔ z.score? m ≠ none
  /-- A rank is an index into the list. -/
  rank : ∀ m i, z.rank? m = some i ↔ (z.toList.map Prod.fst)[i]? = some m
  revRank : ∀ m i, z.rank? m = some i → i < z.size ∧ z.revRank? m = some (z.size - 1 - i)

/-- Sorted sets are kept in order. Whatever calls made a sorted set, of any doubles: its members are listed once
each, by the numbers of their scores and by their bytes where these agree, with scores in the places of those that
it tells; and what it tells of sizes, ranks and new members agrees with the list. -/
theorem orderly_run :
    (∀ x y : Double,
      x.order ≤ y.order ↔ y.isNaN = true ∨ x.isNaN = false ∧ x.value ≤ y.value) ∧
    ∀ cs : List Call, (empty.run cs).Orderly := by
  refine ⟨Double.order_le_iff, fun cs => ?_⟩
  have h : (empty.run cs).Ranked := Ranked.empty.run cs
  exact {
    ascending := h.ascending
    nodup := h.nodup
    score_of_mem := fun _ _ => h.score?_of_mem
    mem_of_score := fun _ _ => h.mem_of_score?
    size := h.size_eq
    insert := fun m s => by rw [insert_fst, Option.isNone_iff_eq_none]
    remove := fun m => by rw [remove_fst, Option.isSome_iff_ne_none]
    rank := h.rank?_eq_some_iff
    revRank := fun m i hrank => ⟨h.rank?_lt hrank, by rw [revRank?, hrank, Option.map_some]⟩ }

end SortedSet
end KeyStore
