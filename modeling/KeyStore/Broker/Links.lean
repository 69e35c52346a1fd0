import Std.Data.ExtTreeMap
import Std.Data.ExtTreeSet
import KeyStore.Bytes

/-! Links between subscribers and names, indexed both ways. A name is a channel or a pattern, and it
is known as long as someone follows it. -/
namespace KeyStore
open Std

abbrev SubscriberId := Nat

/-- Which subscriber follows which names. -/
structure Links where
  byName : ExtTreeMap Bytes (ExtTreeSet SubscriberId)
  bySubscriber : ExtTreeMap SubscriberId (ExtTreeSet Bytes)
deriving DecidableEq

namespace Links

def empty : Links := ⟨∅, ∅⟩

def followers (l : Links) (name : Bytes) : ExtTreeSet SubscriberId := l.byName[name]?.getD ∅

def names (l : Links) (id : SubscriberId) : ExtTreeSet Bytes := l.bySubscriber[id]?.getD ∅

/-- Every name that is followed, in order. -/
def known (l : Links) : List Bytes := l.byName.keys

def link (l : Links) (id : SubscriberId) (name : Bytes) : Links :=
  ⟨l.byName.insert name ((l.followers name).insert id),
    l.bySubscriber.insert id ((l.names id).insert name)⟩

/-- Removes a follower from a name, and the name with its last one. -/
def unfollow (l : Links) (id : SubscriberId) (name : Bytes) : Links :=
  let rest := (l.followers name).erase id
  { l with byName := if rest.isEmpty then l.byName.erase name else l.byName.insert name rest }

def unlink (l : Links) (id : SubscriberId) (name : Bytes) : Links :=
  let l := l.unfollow id name
  match l.bySubscriber[id]? with
  | some names => { l with bySubscriber := l.bySubscriber.insert id (names.erase name) }
  | none => l

def drop (l : Links) (id : SubscriberId) : Links :=
  let names := (l.names id).toList
  names.foldl (·.unfollow id ·) { l with bySubscriber := l.bySubscriber.erase id }

end Links
end KeyStore
