import Mathlib.Data.List.Sort
import KeyStore.Proofs.Locality

/-! Positions. An index range covers the positions from one index to another, each of which may count from the
end. The range is found by sums that fit a signed word, and the commands on lists tell the elements at the
positions that it covers. -/
namespace KeyStore

namespace IndexRange

/-- A position of a sequence of `len` elements that is between two indices. -/
def Covers (start stop : Int64) (len j : Nat) : Prop :=
  j < len ∧ resolve start len ≤ j ∧ j ≤ resolve stop len

instance (start stop : Int64) (len j : Nat) : Decidable (Covers start stop len j) :=
  inferInstanceAs (Decidable (_ ∧ _))

/-- The elements at the positions that a range covers, in order. -/
def covered (start stop : Int64) (xs : List α) : List α :=
  ((List.range xs.length).filter fun j => Covers start stop xs.length j).filterMap (xs[·]?)

/-- The covered positions are none, or all from a first to a last one. -/
theorem normalize_cases (start stop : Int64) (len : Nat) :
    normalize start stop len = none ∧ (∀ j, ¬ Covers start stop len j) ∨
      ∃ first last, normalize start stop len = some (first, last) ∧ first ≤ last ∧ last < len ∧
        ∀ j, Covers start stop len j ↔ first ≤ j ∧ j ≤ last := by
  simp only [normalize, Covers, resolve]
  generalize start.toInt = a
  generalize stop.toInt = b
  split
  · exact .inl ⟨rfl, by omega⟩
  · by_cases ha : a < 0 <;> by_cases hb : b < 0 <;> simp only [ha, hb, if_true, if_false]
    all_goals
      split
      · exact .inl ⟨rfl, by omega⟩
      · exact .inr ⟨_, _, rfl, by omega, by omega, by omega⟩

theorem normalize_eq_none_iff (start stop : Int64) (len : Nat) :
    normalize start stop len = none ↔ ∀ j, ¬ Covers start stop len j := by
  rcases normalize_cases start stop len with ⟨hnone, hcovers⟩ | ⟨first, last, hsome, hle, -, hcovers⟩
  · exact iff_of_true hnone hcovers
  · refine iff_of_false (by simp [hsome]) fun hno => hno first ?_
    exact (hcovers first).mpr ⟨Nat.le_refl _, hle⟩

theorem normalize_eq_some_iff (start stop : Int64) (len first last : Nat) :
    normalize start stop len = some (first, last) ↔
      Covers start stop len first ∧ Covers start stop len last ∧
        ∀ j, Covers start stop len j → first ≤ j ∧ j ≤ last := by
  rcases normalize_cases start stop len with ⟨hnone, hcovers⟩ | ⟨a, b, hsome, hle, -, hcovers⟩
  · exact iff_of_false (by simp [hnone]) fun h => hcovers first h.1
  · simp only [hsome, hcovers, Option.some.injEq, Prod.mk.injEq]
    constructor
    · rintro ⟨rfl, rfl⟩
      exact ⟨⟨Nat.le_refl _, hle⟩, ⟨hle, Nat.le_refl _⟩, fun _ h => h⟩
    · rintro ⟨hfirst, hlast, hall⟩
      have ha := hall a
      have hb := hall b
      omega

def checkedResolve (i len : Int64) : Except Error Int64 := if i < 0 then Counter.add len i else .ok i

def checkedFirst (start len : Int64) : Except Error Int64 :=
  if start < 0 then (Counter.add len start).map (max · 0) else .ok start

def checkedLast (stop len : Int64) : Except Error Int64 :=
  if stop < 0 then Counter.add len stop else (Counter.add len (-1)).map (min stop)

def checkedNormalize (start stop len : Int64) : Except Error (Option (Int64 × Int64)) :=
  if len = 0 then .ok none
  else do
    let first ← checkedFirst start len
    let last ← checkedLast stop len
    return if last < first ∨ len ≤ first then none else some (first, last)

theorem neg_iff (i : Int64) : i < 0 ↔ i.toInt < 0 := Int64.lt_iff_toInt_lt

theorem toInt_max (a b : Int64) : (max a b).toInt = max a.toInt b.toInt := by
  change (if a ≤ b then b else a).toInt = _
  have hle : a ≤ b ↔ a.toInt ≤ b.toInt := Int64.le_iff_toInt_le
  split <;> rename_i h <;> rw [hle] at h <;> omega

theorem toInt_min (a b : Int64) : (min a b).toInt = min a.toInt b.toInt := by
  change (if a ≤ b then a else b).toInt = _
  have hle : a ≤ b ↔ a.toInt ≤ b.toInt := Int64.le_iff_toInt_le
  split <;> rename_i h <;> rw [hle] at h <;> omega

variable {len : Nat} (hlen : len < 0x8000000000000000)
include hlen

theorem add_of_neg {i : Int64} (hi : i < 0) :
    ∃ sum : Int64, Counter.add (Int64.ofNat len) i = .ok sum ∧ sum.toInt = len + i.toInt := by
  have hneg := (neg_iff i).mp hi
  have hlow := i.le_toInt
  have hfits : Numeral.FitsInt64 (len + i.toInt) := by
    constructor <;> omega
  refine ⟨Int64.ofInt (len + i.toInt), ?_, Int64.toInt_ofInt_of_le hfits.1 hfits.2⟩
  rw [Counter.add, Numeral.toInt64?, Int64.toInt_ofNat_of_lt hlen, if_pos hfits]

theorem checkedResolve_eq (i : Int64) :
    ∃ j, checkedResolve i (Int64.ofNat len) = .ok j ∧ j.toInt = resolve i len := by
  rw [checkedResolve, resolve]
  by_cases hi : i < 0
  · rw [if_pos hi, if_pos ((neg_iff i).mp hi)]
    exact add_of_neg hlen hi
  · rw [if_neg hi, if_neg (mt (neg_iff i).mpr hi)]
    exact ⟨i, rfl, rfl⟩

theorem checkedFirst_eq (start : Int64) :
    ∃ first, checkedFirst start (Int64.ofNat len) = .ok first ∧
      first.toInt = if start.toInt < 0 then max (len + start.toInt) 0 else start.toInt := by
  rw [checkedFirst]
  by_cases hi : start < 0
  · obtain ⟨sum, hsum, hexact⟩ := add_of_neg hlen hi
    rw [if_pos hi, if_pos ((neg_iff start).mp hi), hsum]
    exact ⟨max sum 0, rfl, by rw [toInt_max, hexact]; rfl⟩
  · rw [if_neg hi, if_neg (mt (neg_iff start).mpr hi)]
    exact ⟨start, rfl, rfl⟩

theorem checkedLast_eq (stop : Int64) :
    ∃ last, checkedLast stop (Int64.ofNat len) = .ok last ∧
      last.toInt = if stop.toInt < 0 then len + stop.toInt else min stop.toInt (len - 1) := by
  rw [checkedLast]
  by_cases hi : stop < 0
  · rw [if_pos hi, if_pos ((neg_iff stop).mp hi)]
    exact add_of_neg hlen hi
  · obtain ⟨sum, hsum, hexact⟩ := add_of_neg hlen (i := -1) (by decide)
    rw [if_neg hi, if_neg (mt (neg_iff stop).mpr hi), hsum]
    exact ⟨min stop sum, rfl, by rw [toInt_min, hexact]; rfl⟩

/-- Words find the same range, and no sum overflows. -/
theorem checkedNormalize_eq (start stop : Int64) :
    checkedNormalize start stop (Int64.ofNat len) =
      .ok ((normalize start stop len).map fun r => (Int64.ofNat r.1, Int64.ofNat r.2)) := by
  have hlength : (Int64.ofNat len).toInt = len := Int64.toInt_ofNat_of_lt hlen
  have hzero : Int64.ofNat len = 0 ↔ len = 0 := by
    rw [← Int64.toInt_inj, hlength]
    exact Int.natCast_eq_zero
  obtain ⟨first, hfirst, hexact⟩ := checkedFirst_eq hlen start
  obtain ⟨last, hlast, hexact'⟩ := checkedLast_eq hlen stop
  have hempty : (last < first ∨ Int64.ofNat len ≤ first) ↔ last.toInt < first.toInt ∨ len ≤ first.toInt := by
    rw [Int64.lt_iff_toInt_lt, Int64.le_iff_toInt_le, hlength]
  have hword (i : Int64) (hi : 0 ≤ i.toInt) : Int64.ofNat i.toInt.toNat = i := by
    rw [← Int64.ofInt_eq_ofNat, Int.toNat_of_nonneg hi, Int64.ofInt_toInt]
  rw [checkedNormalize, normalize, hfirst, hlast, ← hexact, ← hexact']
  by_cases hnone : len = 0
  · rw [if_pos (hzero.mpr hnone), if_pos hnone]
    rfl
  · rw [if_neg (mt hzero.mp hnone), if_neg hnone]
    change Except.ok _ = Except.ok _
    simp only [hempty]
    split
    · rfl
    · have hnonneg : 0 ≤ first.toInt := by
        rw [hexact]
        split <;> omega
      have hnonneg' : 0 ≤ last.toInt := by omega
      rw [Option.map_some, hword first hnonneg, hword last hnonneg']

omit hlen

theorem filterMap_getElem?_range' (xs : List α) (first n : Nat) :
    (List.range' first n).filterMap (xs[·]?) = (xs.drop first).take n := by
  induction n generalizing first with
  | zero => simp
  | succ n ih =>
    rw [List.range'_succ, List.filterMap_cons, ih]
    cases hx : xs[first]? with
    | none =>
      have hpast : xs.length ≤ first := List.getElem?_eq_none_iff.mp hx
      simp [List.drop_eq_nil_of_le hpast, List.drop_eq_nil_of_le (Nat.le_succ_of_le hpast)]
    | some x =>
      obtain ⟨hlt, rfl⟩ := List.getElem?_eq_some_iff.mp hx
      rw [List.drop_eq_getElem_cons hlt, List.take_succ_cons]

theorem filter_range_between {first last len : Nat} (hle : first ≤ last) (hlt : last < len) :
    ((List.range len).filter fun j => first ≤ j ∧ j ≤ last) = List.range' first (last - first + 1) := by
  refine (List.pairwise_lt_range.filter _).eq_of_mem_iff List.pairwise_lt_range' fun j => ?_
  simp
  omega

theorem slice_eq_covered (start stop : Int64) (xs : List α) :
    slice start stop xs.length xs = covered start stop xs := by
  rw [slice, covered]
  rcases normalize_cases start stop xs.length with ⟨hnone, hcovers⟩ | ⟨first, last, hsome, hle, hlt, hcovers⟩
  · simp [hnone, hcovers]
  · simp only [hsome, hcovers, filter_range_between hle hlt, filterMap_getElem?_range']

theorem slice_self (i : Int64) (xs : List α) :
    slice i i xs.length xs =
      (if resolve i xs.length < 0 then none else xs[(resolve i xs.length).toNat]?).toList := by
  rcases normalize_cases i i xs.length with ⟨hnone, hcovers⟩ | ⟨first, last, hsome, hle, hlt, hcovers⟩
  · simp only [slice, hnone]
    split
    · rfl
    · have hpast : xs.length ≤ (resolve i xs.length).toNat := by
        have hno := hcovers (resolve i xs.length).toNat
        simp only [Covers] at hno
        omega
      rw [List.getElem?_eq_none hpast]
      rfl
  · have hfirst := (hcovers first).mpr ⟨Nat.le_refl _, hle⟩
    have hlast := (hcovers last).mpr ⟨hle, Nat.le_refl _⟩
    simp only [Covers] at hfirst hlast
    obtain rfl : first = last := by omega
    have hresolve : resolve i xs.length = first := by omega
    simp only [slice, hsome]
    rw [hresolve, if_neg (by omega), Int.toNat_natCast, List.getElem?_eq_getElem hlt,
      List.drop_eq_getElem_cons hlt, Nat.sub_self, List.take_succ_cons, List.take_zero]
    rfl

theorem slice_whole (xs : List α) : slice 0 (-1) xs.length xs = xs := by
  cases xs with
  | nil => rfl
  | cons x xs =>
    have hfirst : resolve 0 (xs.length + 1) = 0 := rfl
    have hlast : resolve (-1) (xs.length + 1) = (xs.length + 1 : Nat) - 1 := rfl
    have hrange : normalize 0 (-1) (xs.length + 1) = some (0, xs.length) := by
      rw [normalize_eq_some_iff]
      simp only [Covers, hfirst, hlast]
      exact ⟨by omega, by omega, fun j hj => by omega⟩
    simp only [slice, List.length_cons, hrange, List.drop_zero, Nat.sub_zero]
    exact List.take_of_length_le (Nat.le_refl _)

theorem mem_of_mem_slice {start stop : Int64} {len : Nat} {xs : List α} {x : α}
    (h : x ∈ slice start stop len xs) : x ∈ xs := by
  rw [slice] at h
  split at h
  · exact List.mem_of_mem_drop (List.mem_of_mem_take h)
  · cases h

end IndexRange

namespace Deque

theorem range_eq_covered (d : Deque) (start stop : Int64) :
    d.range start stop = IndexRange.covered start stop d.items := by
  rw [range, ← d.length_items, IndexRange.slice_eq_covered]

theorem range_self (d : Deque) (i : Int64) : d.range i i = (d.get? i).toList := by
  rw [range, get?, ← d.length_items, IndexRange.slice_self]

end Deque

namespace Engine

def listAt (e : Engine Q) (k : Key) : Except Error Deque := Shape.list.look .empty id (e.keyspace.live k)

theorem execute_lrange (e : Engine Q) (k : Key) (start stop : Int64) (nanos : Nat) :
    (e.execute (.onKeys (.lrange k start stop)) nanos).1 =
      (e.listAt k).map fun d => .bulks (d.range start stop) :=
  (e.execute_onKeys _ nanos).1.trans (Shape.list.look_eq_map (by rfl) _)

theorem execute_lindex (e : Engine Q) (k : Key) (i : Int64) (nanos : Nat) :
    (e.execute (.onKeys (.lindex k i)) nanos).1 = (e.listAt k).map fun d => .optional (d.get? i) := by
  refine (e.execute_onKeys _ nanos).1.trans (Shape.list.look_eq_map ?_ _)
  have hempty : Deque.empty.get? i = none := by simp [Deque.get?]
  exact congrArg Reply.optional hempty

/-- Ranges are resolved. A range of indices covers the positions between what its indices stand for, from the
least to the greatest of them, and is none if there is no such position; in signed words the same is found, for
every length that is one, and no sum overflows. The commands on lists tell the elements at the covered positions
in order, and one element just where the range of its index is that element. -/
theorem ranges_resolved :
    (∀ (start stop : Int64) (len : Nat),
      (IndexRange.normalize start stop len = none ↔ ∀ j, ¬ IndexRange.Covers start stop len j) ∧
      (∀ first last, IndexRange.normalize start stop len = some (first, last) ↔
        IndexRange.Covers start stop len first ∧ IndexRange.Covers start stop len last ∧
          ∀ j, IndexRange.Covers start stop len j → first ≤ j ∧ j ≤ last) ∧
      (len < 0x8000000000000000 →
        IndexRange.checkedNormalize start stop (Int64.ofNat len) =
            .ok ((IndexRange.normalize start stop len).map fun r => (Int64.ofNat r.1, Int64.ofNat r.2)) ∧
          ∃ j, IndexRange.checkedResolve start (Int64.ofNat len) = .ok j ∧
            j.toInt = IndexRange.resolve start len)) ∧
    ∀ (e : Engine Q) (k : Key) (nanos nanos' : Nat),
      let lrange (start stop : Int64) := (e.execute (.onKeys (.lrange k start stop)) nanos).1
      let lindex (i : Int64) := (e.execute (.onKeys (.lindex k i)) nanos').1
      (∀ start stop, lrange start stop =
        (e.listAt k).map fun d => .bulks (IndexRange.covered start stop d.items)) ∧
      (∀ i, lindex i = (e.listAt k).map fun d => .optional (d.get? i)) ∧
      ∀ i x, lindex i = .ok (.bulk x) ↔ lrange i i = .ok (.bulks [x]) := by
  refine ⟨fun start stop len => ⟨IndexRange.normalize_eq_none_iff start stop len,
    IndexRange.normalize_eq_some_iff start stop len,
    fun hlen => ⟨IndexRange.checkedNormalize_eq hlen start stop, IndexRange.checkedResolve_eq hlen start⟩⟩,
    fun e k nanos nanos' => ?_⟩
  intro lrange lindex
  have hrange (start stop : Int64) := e.execute_lrange k start stop nanos
  have hindex (i : Int64) := e.execute_lindex k i nanos'
  refine ⟨fun start stop => ?_, hindex, fun i x => ?_⟩
  · simp only [lrange, hrange, Deque.range_eq_covered]
  · simp only [lrange, lindex, hrange, hindex, Deque.range_self]
    cases e.listAt k with
    | error err => simp [Except.map]
    | ok d =>
      simp only [Except.map]
      generalize d.get? i = item
      cases item <;> simp [Reply.optional, Reply.bulks]

/-- The least and the greatest word as indices, at the greatest length and in a list of three. -/
theorem ranges_resolved_of_extremes :
    let low : Int64 := Int64.minValue
    let high : Int64 := Int64.maxValue
    let len := 0x7fffffffffffffff
    let e := ((new .default .standard).execute (.onKeys (.push [108] [[97], [98], [99]] .right false)) 0).2
    let lrange (start stop : Int64) := (e.execute (.onKeys (.lrange [108] start stop)) 0).1
    len < 0x8000000000000000 ∧
      IndexRange.checkedNormalize low high (Int64.ofNat len) = .ok (some (0, 0x7ffffffffffffffe)) ∧
      (∃ j, IndexRange.checkedResolve low (Int64.ofNat len) = .ok j ∧ j.toInt = -1) ∧
      lrange low (-2) = .ok (.bulks [[97], [98]]) ∧ lrange 1 high = .ok (.bulks [[98], [99]]) ∧
      ((e.execute (.onKeys (.lindex [108] (-3))) 0).1 = .ok (.bulk [97]) ↔
        lrange (-3) (-3) = .ok (.bulks [[97]])) := by
  intro low high len e lrange
  have hlen : len < 0x8000000000000000 := by decide
  obtain ⟨hranges, hlists⟩ := ranges_resolved
  obtain ⟨-, -, hwords⟩ := hranges low high len
  obtain ⟨hcovers, -, hindex⟩ := hlists e [108] 0 0
  obtain ⟨hnormal, hresolve⟩ := hwords hlen
  exact ⟨hlen, hnormal, hresolve, hcovers low (-2), hcovers 1 high, hindex (-3) [97]⟩

end Engine
end KeyStore
