import KeyStore.Keyspace

/-! Scans: the keys page by page in the order of their hashes. A page ends where a hash ends, and
the cursor of the next page is the first hash that was left out; zero says that none was. -/
namespace KeyStore

def Key.fnv1a (key : Key) : UInt64 :=
  key.foldl (fun h b => (h ^^^ b.toUInt64) * 0x100000001b3) 0xcbf29ce484222325

namespace Keyspace

abbrev Hashed := UInt64 × Key

/-- The order of a scan: by hash, and by key where hashes collide. -/
def Hashed.le (a b : Hashed) : Bool := (compareLex (compareOn Prod.fst) (compareOn Prod.snd) a b).isLE

def candidates (ks : Keyspace) (cursor : UInt64) : List Hashed :=
  ((ks.cells.keys.map fun key => (ks.hash key, key)).filter fun c => cursor ≤ c.1).mergeSort Hashed.le

/-- Cuts a page of at least `count` candidates off, and all that share the hash of its last one. -/
def cutPage (count : Nat) (cs : List Hashed) : List Hashed × List Hashed :=
  let page := cs.take count
  let rest := cs.drop count
  match page.getLast? with
  | some (h, _) => (page ++ rest.takeWhile (·.1 == h), rest.dropWhile (·.1 == h))
  | none => (page, rest)

def sift (filter : Key → Entry → Bool) : List Key → Keyspace → List Key × Keyspace
  | [], ks => ([], ks)
  | key :: keys, ks =>
    let (passes, ks) := ks.read key fun s => s.any (filter key)
    let (kept, ks) := sift filter keys ks
    (if passes then key :: kept else kept, ks)

/-- One page: the cursor of the next and the keys that pass the filter. -/
def scan (ks : Keyspace) (cursor : UInt64) (count : Nat) (filter : Key → Entry → Bool) :
    (UInt64 × List Key) × Keyspace :=
  let (page, rest) := cutPage (max count 1) (ks.candidates cursor)
  let next := match rest with
    | (h, _) :: _ => h
    | [] => 0
  let (kept, ks) := sift filter (page.map (·.2)) ks
  ((next, kept), ks)

end Keyspace
end KeyStore
