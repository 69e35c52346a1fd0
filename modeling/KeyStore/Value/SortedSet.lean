import Std.Data.ExtTreeMap
import KeyStore.Bytes
import KeyStore.Double
import KeyStore.Error
import KeyStore.Value.Deque

/-! Sorted sets: members with scores, listed by score and then by member. One index goes from the
members to their scores, the other lists the members by their places. -/
namespace KeyStore
open Std

/-- Where a member stands: the place of its score in the order of scores, then its bytes. -/
structure Place where
  order : Int
  member : Bytes
deriving DecidableEq, Repr

namespace Place

instance : Ord Place := ⟨compareLex (compareOn Place.order) (compareOn Place.member)⟩

instance : TransOrd Place := inferInstanceAs (TransCmp (compareLex _ _))

instance : LawfulEqOrd Place where
  eq_of_compare {a b} h := by
    have h : compareLex (compareOn Place.order) (compareOn Place.member) a b = .eq := h
    rw [compareLex_eq_eq] at h
    cases a; cases b
    simpa [compareOn] using h

def of (score : Double) (member : Bytes) : Place := ⟨score.order, member⟩

end Place

structure SortedSet where
  scores : ExtTreeMap Bytes Double
  /-- The scores as they were written when the members came to their places. -/
  ranking : ExtTreeMap Place Double
deriving DecidableEq

namespace SortedSet

def empty : SortedSet := ⟨∅, ∅⟩

def size (z : SortedSet) : Nat := z.scores.size

def isEmpty (z : SortedSet) : Bool := z.scores.isEmpty

def score? (z : SortedSet) (member : Bytes) : Option Double := z.scores[member]?

/-- Gives a member a score; says whether the member is new. A score in the same place leaves the
ranking as it is. -/
def insert (z : SortedSet) (member : Bytes) (score : Double) : Bool × SortedSet :=
  let scores := z.scores.insert member score
  let place := Place.of score member
  match z.scores[member]? with
  | some old =>
    if old.order = score.order then (false, { z with scores })
    else (false, ⟨scores, (z.ranking.erase (Place.of old member)).insert place score⟩)
  | none => (true, ⟨scores, z.ranking.insert place score⟩)

def remove (z : SortedSet) (member : Bytes) : Bool × SortedSet :=
  match z.scores[member]? with
  | some score => (true, ⟨z.scores.erase member, z.ranking.erase (Place.of score member)⟩)
  | none => (false, z)

def toList (z : SortedSet) : List (Bytes × Double) := z.ranking.toList.map fun p => (p.1.member, p.2)

/-- How many members stand before this one. -/
def rank? (z : SortedSet) (member : Bytes) : Option Nat :=
  z.scores[member]?.map fun score =>
    z.ranking.keys.countP fun p => compare p (Place.of score member) == .lt

def revRank? (z : SortedSet) (member : Bytes) : Option Nat :=
  (z.rank? member).map fun r => z.size - 1 - r

def range (z : SortedSet) (start stop : Int64) (descending : Bool) : List (Bytes × Double) :=
  IndexRange.slice start stop z.size (if descending then z.toList.reverse else z.toList)

/-- The members with scores from `low` to `high`, ascending: those from the first place of `low` on,
as long as their scores do not pass `high`. -/
def rangeByScore (z : SortedSet) (low high : Double) : List (Bytes × Double) :=
  let tail := z.ranking.toList.dropWhile fun p => compare p.1 (Place.of low []) == .lt
  (tail.takeWhile fun p => p.2.le high).map fun p => (p.1.member, p.2)

def increment (z : SortedSet) (member : Bytes) (delta : Double) : Except Error Double × SortedSet :=
  let score := ((z.score? member).getD .zero).add delta
  if score.isNaN then (.error .nanScore, z) else (.ok score, (z.insert member score).2)

end SortedSet
end KeyStore
