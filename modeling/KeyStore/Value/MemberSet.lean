import Std.Data.ExtTreeSet
import KeyStore.Bytes

/-! Sets of byte strings and their algebra. -/
namespace KeyStore
open Std

abbrev MemberSet := ExtTreeSet Bytes

inductive Algebra
  | inter
  | union
  | diff
deriving DecidableEq, Repr

namespace MemberSet

def add (s : MemberSet) (m : Bytes) : Bool × MemberSet := (!s.contains m, s.insert m)

def remove (s : MemberSet) (m : Bytes) : Bool × MemberSet := (s.contains m, s.erase m)

def ofOption (s : Option MemberSet) : MemberSet := s.getD ∅

/-- The members of the first set that belong to every other. -/
def inter : List (Option MemberSet) → MemberSet
  | [] => ∅
  | s :: rest => (ofOption s).filter fun m => rest.all fun t => (ofOption t).contains m

def union (sets : List (Option MemberSet)) : MemberSet :=
  sets.foldl (fun acc s => acc.insertMany (ofOption s).toList) ∅

/-- The members of the first set that belong to no other. -/
def diff : List (Option MemberSet) → MemberSet
  | [] => ∅
  | s :: rest => (ofOption s).filter fun m => !rest.any fun t => (ofOption t).contains m

end MemberSet

def Algebra.combine : Algebra → List (Option MemberSet) → MemberSet
  | inter => MemberSet.inter
  | union => MemberSet.union
  | diff => MemberSet.diff

end KeyStore
