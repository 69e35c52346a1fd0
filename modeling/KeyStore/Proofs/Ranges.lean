import KeyStore.Proofs.Positions
import KeyStore.Proofs.Rankings

/-! Ranges of sorted sets. A range of indices that is listed from the end mirrors one that is listed from the
front, and a range of scores is found by a search from its low end that stops behind its high one: the places
ascend, so that nothing else is between the two. -/
namespace KeyStore
open Std

section Divided
variable {α : Type} {p : α → Bool} {l : List α}

/-- If what stands before an element that satisfies a condition satisfies it too, those that do come first. -/
theorem takeWhile_eq_filter (hl : l.Pairwise fun a b => p b = true → p a = true) :
    l.takeWhile p = l.filter p := by
  induction l with
  | nil => rfl
  | cons a l ih =>
    obtain ⟨hhead, htail⟩ := List.pairwise_cons.mp hl
    by_cases ha : p a = true
    · rw [List.takeWhile_cons_of_pos ha, List.filter_cons_of_pos ha, ih htail]
    · have hrest : l.filter p = [] := List.filter_eq_nil_iff.mpr fun b hb hpb => ha (hhead b hb hpb)
      rw [List.takeWhile_cons_of_neg ha, List.filter_cons_of_neg ha, hrest]

theorem dropWhile_eq_filter (hl : l.Pairwise fun a b => p b = true → p a = true) :
    l.dropWhile p = l.filter fun a => !p a := by
  induction l with
  | nil => rfl
  | cons a l ih =>
    obtain ⟨hhead, htail⟩ := List.pairwise_cons.mp hl
    by_cases ha : p a = true
    · rw [List.dropWhile_cons_of_pos ha, List.filter_cons_of_neg (by simp [ha]), ih htail]
    · have hall : ∀ b ∈ a :: l, (!p b) = true := by
        intro b hb
        rcases List.mem_cons.mp hb with rfl | hb
        · simpa using ha
        · simpa using mt (hhead b hb) ha
      rw [List.dropWhile_cons_of_neg ha, List.filter_eq_self.mpr hall]

end Divided

namespace Double

/-- One number is at most another one; a NaN is not comparable to anything. -/
def AtMost (x y : Double) : Prop := x.isNaN = false ∧ y.isNaN = false ∧ x.value ≤ y.value

instance (x y : Double) : Decidable (x.AtMost y) := inferInstanceAs (Decidable (_ ∧ _))

theorem le_iff (x y : Double) : x.le y = true ↔ x.AtMost y := by
  rw [le, AtMost]
  simp only [Bool.and_eq_true, Bool.not_eq_true', decide_eq_true_eq, order_le_iff]
  cases x.isNaN <;> cases y.isNaN <;> simp

theorem le_of_order_le {x y z : Double} (hxy : x.order ≤ y.order) (hyz : y.le z = true) :
    x.le z = true := by
  simp only [le, Bool.and_eq_true, Bool.not_eq_true', decide_eq_true_eq] at hyz ⊢
  obtain ⟨⟨hy, hz⟩, hyz⟩ := hyz
  obtain hnan | ⟨hx, -⟩ := (order_le_iff x y).mp hxy
  · rw [hy] at hnan
    cases hnan
  · exact ⟨⟨hx, hz⟩, Int.le_trans hxy hyz⟩

/-- For a number, to be in a place that is not lower is to be not less. -/
theorem order_le_and_atMost_iff (low x high : Double) :
    low.order ≤ x.order ∧ x.AtMost high ↔ low.AtMost x ∧ x.AtMost high := by
  refine and_congr_left fun hx => ?_
  rw [order_le_iff, AtMost, hx.1]
  simp

end Double

namespace IndexRange

theorem toInt_mirror (i : Int64) : (-1 - i).toInt = -1 - i.toInt := by
  have hlow := i.le_toInt
  have hhigh := i.toInt_lt
  rw [Int64.toInt_sub, show (-1 : Int64).toInt = -1 from rfl]
  exact Int.bmod_eq_of_le (by omega) (by omega)

theorem resolve_mirror (i : Int64) (len : Nat) : resolve (-1 - i) len = len - 1 - resolve i len := by
  rw [resolve, resolve, toInt_mirror]
  split <;> split <;> omega

theorem covers_mirror (start stop : Int64) (len j : Nat) :
    Covers (-1 - stop) (-1 - start) len j ↔ j < len ∧ Covers start stop len (len - 1 - j) := by
  simp only [Covers, resolve_mirror]
  omega

/-- What a range cuts out of the reversed list is what the mirrored range cuts out of the list, reversed. -/
theorem slice_reverse (start stop : Int64) (xs : List α) :
    slice start stop xs.length xs.reverse = (slice (-1 - stop) (-1 - start) xs.length xs).reverse := by
  rcases normalize_cases start stop xs.length with ⟨hnone, hcovers⟩ | ⟨first, last, hsome, hle, hlt, hcovers⟩
  · have hnone' : normalize (-1 - stop) (-1 - start) xs.length = none := by
      rw [normalize_eq_none_iff]
      exact fun j hj => hcovers _ ((covers_mirror ..).mp hj).2
    rw [slice, slice, hnone, hnone', List.reverse_nil]
  · have hsome' : normalize (-1 - stop) (-1 - start) xs.length =
        some (xs.length - 1 - last, xs.length - 1 - first) := by
      simp only [normalize_eq_some_iff, covers_mirror, hcovers]
      exact ⟨by omega, by omega, fun j hj => by omega⟩
    have hskip : xs.length - first - (last - first + 1) = xs.length - 1 - last := by omega
    have hcount : xs.length - first - (xs.length - 1 - last) =
        xs.length - 1 - first - (xs.length - 1 - last) + 1 := by omega
    simp only [slice, hsome, hsome']
    rw [List.drop_reverse, List.take_reverse, List.length_take_of_le (Nat.sub_le ..), List.drop_take,
      hskip, hcount]

end IndexRange

namespace SortedSet

theorem range_empty (start stop : Int64) (descending : Bool) : empty.range start stop descending = [] := by
  cases descending <;> rfl

theorem rangeByScore_empty (low high : Double) : empty.rangeByScore low high = [] := rfl

def listed (z : SortedSet) (descending : Bool) : List (Bytes × Double) :=
  if descending then z.toList.reverse else z.toList

@[simp] theorem length_listed (z : SortedSet) (descending : Bool) :
    (z.listed descending).length = z.toList.length := by
  cases descending <;> simp [listed]

namespace Ranked
variable {z : SortedSet} (h : z.Ranked)
include h

theorem range_eq_slice (start stop : Int64) (descending : Bool) :
    z.range start stop descending =
      IndexRange.slice start stop (z.listed descending).length (z.listed descending) := by
  rw [length_listed, ← h.size_eq]
  rfl

theorem range_eq_covered (start stop : Int64) (descending : Bool) :
    z.range start stop descending = IndexRange.covered start stop (z.listed descending) := by
  rw [h.range_eq_slice, IndexRange.slice_eq_covered]

theorem range_whole (descending : Bool) : z.range 0 (-1) descending = z.listed descending := by
  rw [h.range_eq_slice, IndexRange.slice_whole]

theorem range_mirror (start stop : Int64) :
    z.range start stop true = (z.range (-1 - stop) (-1 - start) false).reverse := by
  rw [range, range, h.size_eq]
  exact IndexRange.slice_reverse start stop z.toList

theorem revRank?_eq_some_iff (m : Bytes) (i : Nat) :
    z.revRank? m = some i ↔ (z.toList.reverse.map Prod.fst)[i]? = some m := by
  have hlength : (z.toList.map Prod.fst).length = z.size := by rw [List.length_map, h.size_eq]
  rw [revRank?, Option.map_eq_some_iff, List.map_reverse]
  constructor
  · rintro ⟨r, hrank, rfl⟩
    have hlt := h.rank?_lt hrank
    rw [List.getElem?_reverse (by omega), hlength, show z.size - 1 - (z.size - 1 - r) = r by omega]
    exact (h.rank?_eq_some_iff m r).mp hrank
  · intro hindex
    obtain ⟨hlt, -⟩ := List.getElem?_eq_some_iff.mp hindex
    rw [List.length_reverse, hlength] at hlt
    rw [List.getElem?_reverse (by omega), hlength] at hindex
    exact ⟨z.size - 1 - i, (h.rank?_eq_some_iff m _).mpr hindex, by omega⟩

theorem range_self_iff (m : Bytes) {r : Int64} (hr : 0 ≤ r.toInt) (descending : Bool) :
    (∃ x, z.range r r descending = [(m, x)]) ↔
      (if descending then z.revRank? m else z.rank? m) = some r.toInt.toNat := by
  have hindex (i : Nat) : ((z.listed descending).map Prod.fst)[i]? = some m ↔
      (if descending then z.revRank? m else z.rank? m) = some i := by
    cases descending with
    | false => exact (h.rank?_eq_some_iff m i).symm
    | true => exact (h.revRank?_eq_some_iff m i).symm
  have hresolve (len : Nat) : IndexRange.resolve r len = r.toInt := if_neg (Int.not_lt.mpr hr)
  rw [← hindex, h.range_eq_slice, IndexRange.slice_self, hresolve, if_neg (Int.not_lt.mpr hr),
    List.getElem?_map, Option.map_eq_some_iff]
  constructor
  · rintro ⟨x, hx⟩
    exact ⟨(m, x), Option.toList_eq_singleton_iff.mp hx, rfl⟩
  · rintro ⟨⟨m', x⟩, hx, rfl⟩
    exact ⟨x, Option.toList_eq_singleton_iff.mpr hx⟩

theorem order_ascending : z.ranking.toList.Pairwise fun a b => a.2.order ≤ b.2.order := by
  refine ExtTreeMap.ordered_keys_toList.imp_of_mem fun {a b} ha hb hlt => ?_
  rw [h.order_of_mem ha, h.order_of_mem hb]
  rcases (Place.compare_eq_lt_iff ..).mp hlt with hless | ⟨heq, -⟩
  · exact Int.le_of_lt hless
  · exact Int.le_of_eq heq

/-- What is listed by scores is what is listed, with scores between the two. -/
theorem rangeByScore_eq_filter (low high : Double) :
    z.rangeByScore low high = z.toList.filter fun p => decide (low.AtMost p.2 ∧ p.2.AtMost high) := by
  have hbelow : z.ranking.toList.Pairwise fun a b =>
      (compare b.1 (Place.of low []) == .lt) = true → (compare a.1 (Place.of low []) == .lt) = true := by
    refine ExtTreeMap.ordered_keys_toList.imp fun hlt hb => ?_
    rw [beq_iff_eq] at hb ⊢
    exact TransCmp.lt_trans hlt hb
  have hupTo : z.ranking.toList.Pairwise fun a b => b.2.le high = true → a.2.le high = true :=
    h.order_ascending.imp Double.le_of_order_le
  rw [rangeByScore, toList, List.filter_map, dropWhile_eq_filter hbelow, takeWhile_eq_filter (hupTo.filter _),
    List.filter_filter]
  refine congrArg _ (List.filter_congr fun q hq => ?_)
  -- no member is before the empty one, so that the search begins with the first score that is not lower
  have hbegun : compare q.1 (Place.of low []) = .lt ↔ q.2.order < low.order := by
    rw [Place.compare_eq_lt_iff, h.order_of_mem hq]
    simp [Place.of]
  rw [Bool.eq_iff_iff, Function.comp_apply, decide_eq_true_iff, ← Double.order_le_and_atMost_iff, Bool.and_eq_true,
    Double.le_iff, Bool.not_eq_true', beq_eq_false_iff_ne, ne_eq, hbegun, Int.not_lt, and_comm]

end Ranked

/-- Score ranges are exact. Whatever calls made a sorted set, of any doubles, and whatever doubles are asked for,
those are listed whose scores are numbers between the two, in the order of the list. -/
theorem score_ranges_exact (cs : List Call) (low high : Double) :
    (empty.run cs).rangeByScore low high =
      (empty.run cs).toList.filter fun p => decide (low.AtMost p.2 ∧ p.2.AtMost high) :=
  (Ranked.empty.run cs).rangeByScore_eq_filter low high

/-- A NaN in the set, both zeros, and bounds of which one is no number or the higher one is the first. -/
example :
    let negZero : Double := .ofMagnitude true 0
    let z := empty.run [.insert [] .nan, .insert [97] negZero, .insert [98] .zero, .insert [99] ⟨0x3ff0000000000000⟩]
    z.rangeByScore .zero negZero = [([97], negZero), ([98], .zero)] ∧
      z.rangeByScore .zero .nan = [] ∧ z.rangeByScore ⟨0x3ff0000000000000⟩ .zero = [] := by
  decide +kernel

end SortedSet

namespace Arguments

theorem rangeOptions_eq_ok {mayReverse : Bool} {options : List Bytes}
    (hoptions : ∀ word ∈ options,
      word.isWord "WITHSCORES" = true ∨ mayReverse = true ∧ word.isWord "REV" = true)
    (withScores descending : Bool) :
    rangeOptions mayReverse withScores descending options =
      .ok (withScores || options.any (·.isWord "WITHSCORES"), descending || options.any (·.isWord "REV")) := by
  induction options generalizing withScores descending with
  | nil => simp [rangeOptions]
  | cons word options ih =>
    obtain ⟨hword, hrest⟩ := List.forall_mem_cons.mp hoptions
    have ih := ih hrest
    rw [rangeOptions]
    rcases hword with hscores | ⟨hmay, hrev⟩
    · have hrev : word.isWord "REV" = false := Bytes.isWord_of_isWord hscores (by decide)
      rw [if_pos hscores, ih]
      simp [hscores, hrev]
    · have hscores : word.isWord "WITHSCORES" = false := Bytes.isWord_of_isWord hrev (by decide)
      rw [if_neg (by simp [hscores]), if_pos (by simp [hmay, hrev]), ih]
      simp [hscores, hrev]

end Arguments

theorem Grammar.zrange_eq_ok (command : String) {mayReverse : Bool} {options : List Bytes}
    (hoptions : ∀ word ∈ options,
      word.isWord "WITHSCORES" = true ∨ mayReverse = true ∧ word.isWord "REV" = true)
    {a b : Bytes} {start stop : Int64} (ha : Arguments.int64 a = .ok start)
    (hb : Arguments.int64 b = .ok stop) (k : Key) :
    zrange command mayReverse (k :: a :: b :: options) =
      .ok (.onKeys (.zrange k start stop (options.any (·.isWord "WITHSCORES"))
        (!mayReverse || options.any (·.isWord "REV")))) := by
  rw [zrange, Arguments.rangeOptions_eq_ok hoptions, ha, hb, Bool.false_or]
  rfl

namespace Engine

def zsetAt (e : Engine Q) (k : Key) : Except Error SortedSet :=
  Shape.zset.look .empty id (e.keyspace.live k)

theorem execute_zrange (e : Engine Q) (k : Key) (start stop : Int64) (withScores descending : Bool)
    (nanos : Nat) :
    (e.execute (.onKeys (.zrange k start stop withScores descending)) nanos).1 =
      (e.zsetAt k).map fun z => .scored (z.range start stop descending) withScores := by
  refine (e.execute_onKeys _ nanos).1.trans (Shape.zset.look_eq_map ?_ _)
  exact congrArg (Reply.scored · withScores) (SortedSet.range_empty start stop descending)

/-- Ranges are mirrored. Every index has one that counts as far from the other end. Whatever calls made a sorted
set, a range that is listed from the end is the reverse of the mirrored range, and the whole of it is the reversed
list. The range of one index is one member just where the index is its rank, or its reverse rank. Where the set is
seen under a key, ZRANGE and ZREVRANGE tell the members at the covered positions of the list, which is reversed for
ZREVRANGE and for the option REV. -/
theorem ranges_mirrored (cs : List SortedSet.Call) :
    let z := SortedSet.empty.run cs
    (∀ i : Int64, (-1 - i).toInt = -1 - i.toInt) ∧
    (∀ start stop, z.range start stop true = (z.range (-1 - stop) (-1 - start) false).reverse) ∧
    z.range 0 (-1) true = z.toList.reverse ∧
    (∀ (m : Bytes) (r : Int64) (descending : Bool), 0 ≤ r.toInt →
      ((∃ x, z.range r r descending = [(m, x)]) ↔
        (if descending then z.revRank? m else z.rank? m) = some r.toInt.toNat)) ∧
    ∀ (e : Engine Q) (k : Key), e.zsetAt k = .ok z →
      ∀ (a b : Bytes) (start stop : Int64), Arguments.int64 a = .ok start → Arguments.int64 b = .ok stop →
      ∀ (options : List Bytes) (nanos : Nat),
        let told (verb : String) := (e.call (Bytes.ofString verb :: k :: a :: b :: options) nanos).1
        let has (word : String) := options.any (·.isWord word)
        let covered (descending : Bool) : Outcome :=
          .ok (.scored (IndexRange.covered start stop (z.listed descending)) (has "WITHSCORES"))
        ((∀ word ∈ options, word.isWord "WITHSCORES" = true) → told "ZREVRANGE" = covered true) ∧
        ((∀ word ∈ options, word.isWord "WITHSCORES" = true ∨ word.isWord "REV" = true) →
          told "ZRANGE" = covered (has "REV")) := by
  intro z
  have hz : z.Ranked := SortedSet.Ranked.empty.run cs
  refine ⟨IndexRange.toInt_mirror, hz.range_mirror, hz.range_whole true,
    fun m r descending hr => hz.range_self_iff m hr descending, ?_⟩
  intro e k hseen a b start stop ha hb options nanos told has covered
  have hreply (withScores descending : Bool) :
      (e.execute (.onKeys (.zrange k start stop withScores descending)) nanos).1 =
        .ok (.scored (IndexRange.covered start stop (z.listed descending)) withScores) := by
    rw [execute_zrange, hseen, Except.map, hz.range_eq_covered]
  constructor
  · intro hoptions
    have hwords : Command.ofWords (Bytes.ofString "ZREVRANGE" :: k :: a :: b :: options) = _ :=
      Grammar.zrange_eq_ok "zrevrange" (fun word hword => .inl (hoptions word hword)) ha hb k
    simp only [told, call, hwords]
    exact hreply _ _
  · intro hoptions
    have hmay : ∀ word ∈ options,
        word.isWord "WITHSCORES" = true ∨ true = true ∧ word.isWord "REV" = true :=
      fun word hword => (hoptions word hword).imp_right fun hrev => ⟨rfl, hrev⟩
    have hwords : Command.ofWords (Bytes.ofString "ZRANGE" :: k :: a :: b :: options) = _ :=
      Grammar.zrange_eq_ok "zrange" hmay ha hb k
    simp only [told, call, hwords]
    exact hreply _ _

/-- Two members with one score and a third one, by words in several cases. -/
theorem ranges_mirrored_of_ties :
    let one : Double := ⟨0x3ff0000000000000⟩
    let e := ((new .default .standard).execute
      (.onKeys (.zadd [122] [(one, [98]), (one, [97]), (.zero, [99])])) 0).2
    let z := SortedSet.empty.run [.insert [98] one, .insert [97] one, .increment [99] .zero]
    let words (verb : String) (options : List Bytes) :=
      Bytes.ofString verb :: [122] :: Bytes.ofString "0" :: Bytes.ofString "-2" :: options
    e.zsetAt [122] = .ok z ∧
      ((∃ x, z.range 2 2 true = [([99], x)]) ↔ z.revRank? [99] = some 2) ∧
      (e.call (words "ZREVRANGE" []) 0).1 = .ok (.scored [([98], one), ([97], one)] false) ∧
      (e.call (words "ZRANGE" [Bytes.ofString "rev", Bytes.ofString "WithScores"]) 0).1 =
        .ok (.scored [([98], one), ([97], one)] true) := by
  intro one e z words
  have hseen : e.zsetAt [122] = .ok z := by decide +kernel
  obtain ⟨-, -, -, hranks, htold⟩ :=
    ranges_mirrored [.insert [98] one, .insert [97] one, .increment [99] .zero]
  have hwords (options : List Bytes) :=
    htold e [122] hseen (Bytes.ofString "0") (Bytes.ofString "-2") 0 (-2) (by decide) (by decide) options 0
  have hcovered : IndexRange.covered 0 (-2) (z.listed true) = [([98], one), ([97], one)] := by decide +kernel
  rw [← hcovered]
  exact ⟨hseen, hranks [99] 2 true (by decide), (hwords []).1 (by simp),
    (hwords [Bytes.ofString "rev", Bytes.ofString "WithScores"]).2 (by decide)⟩

end Engine
end KeyStore
