import Std.Data.ExtTreeMap
import Std.Data.ExtTreeSet
import KeyStore.Entry

/-! The keyspace: a table of cells, one for each key that is held, and an index of the keys that
expire. A cell may be empty while a command works on its key; it is then released. Expired entries
stay in their cells until something touches them. -/
namespace KeyStore
open Std

structure Keyspace where
  cells : ExtTreeMap Key Slot
  /-- The keys that carry an expiry. -/
  volatile : ExtTreeSet Key
  /-- Expired entries that a reader or writer came across. -/
  lazilyExpired : Nat
  /-- Expired entries that a sweep removed. -/
  activelyExpired : Nat
  clock : Clock
  /-- The order in which scans go through the keys. -/
  hash : Key → UInt64

namespace Keyspace

def new (hash : Key → UInt64) (horizon : Horizon) : Keyspace := ⟨∅, ∅, 0, 0, ⟨0, horizon⟩, hash⟩

def now (ks : Keyspace) : Instant := ks.clock.now

def advance (ks : Keyspace) (millis : UInt64) : Keyspace := { ks with clock := ks.clock.advance millis }

def slot (ks : Keyspace) (key : Key) : Slot := ks.cells[key]?.join

/-- What a command sees under a key. -/
def live (ks : Keyspace) (key : Key) : Slot := (ks.slot key).live ks.now

def hold (ks : Keyspace) (key : Key) : Keyspace :=
  { ks with cells := ks.cells.insertIfNew key none }

/-- Empties a cell whose entry has expired; says whether it did. -/
def lapse (ks : Keyspace) (key : Key) : Bool × Keyspace :=
  if (ks.slot key).any (·.isDue ks.now) then
    (true, { ks with cells := ks.cells.insert key none, volatile := ks.volatile.erase key })
  else (false, ks)

def lapseLazily (ks : Keyspace) (key : Key) : Keyspace :=
  let (lapsed, ks) := ks.lapse key
  if lapsed then { ks with lazilyExpired := ks.lazilyExpired + 1 } else ks

/-- Writes a cell. An empty collection is not kept, and the index of expiring keys follows. -/
def settle (ks : Keyspace) (key : Key) (s : Slot) : Keyspace :=
  let s := s.nonempty
  { ks with
    cells := ks.cells.insert key s
    volatile := if s.any (·.expiresAt.isSome) then ks.volatile.insert key
      else ks.volatile.erase key }

def release (ks : Keyspace) (key : Key) : Keyspace :=
  match ks.cells[key]? with
  | some none => { ks with cells := ks.cells.erase key }
  | _ => ks

def read (ks : Keyspace) (key : Key) (f : Slot → α) : α × Keyspace :=
  if ks.cells.contains key then
    let ks := ks.lapseLazily key
    (f (ks.slot key), ks.release key)
  else (f none, ks)

def update (ks : Keyspace) (key : Key) (f : Slot → α × Slot) : α × Keyspace :=
  let ks := (ks.hold key).lapseLazily key
  let (out, s) := f (ks.slot key)
  (out, (ks.settle key s).release key)

def get (ks : Keyspace) (key : Key) : Slot × Keyspace := ks.read key id

def set (ks : Keyspace) (key : Key) (value : Value) (expiresAt : Option Instant) : Keyspace :=
  (ks.update key fun _ => ((), some ⟨value, expiresAt⟩)).2

/-- Removes a key; says whether it held an entry that had not expired. -/
def remove (ks : Keyspace) (key : Key) : Bool × Keyspace :=
  if ks.cells.contains key then
    let ks := (ks.lapse key).2
    let held := (ks.slot key).isSome
    let ks := { ks with cells := ks.cells.insert key none, volatile := ks.volatile.erase key }
    (held, ks.release key)
  else (false, ks)

def holds (ks : Keyspace) (key : Key) : Bool × Keyspace := ks.read key Option.isSome

/-- Removes a key if its entry has expired, and counts it as swept; says whether it did. -/
def expireIfDue (ks : Keyspace) (key : Key) : Bool × Keyspace :=
  if ks.cells.contains key then
    let (lapsed, ks) := ks.lapse key
    let ks := ks.release key
    (lapsed, if lapsed then { ks with activelyExpired := ks.activelyExpired + 1 } else ks)
  else (false, { ks with volatile := ks.volatile.erase key })

def size (ks : Keyspace) : Nat :=
  ks.cells.toList.countP fun c => (Slot.live c.2 ks.now).isSome

def isEmpty (ks : Keyspace) : Bool := ks.size == 0

/-- How many cells there are, those of expired entries included. -/
def residentSize (ks : Keyspace) : Nat := ks.cells.size

def volatileSize (ks : Keyspace) : Nat := ks.volatile.size

/-- Removes every key; gives the number of entries there were, expired ones included. -/
def flush (ks : Keyspace) : Nat × Keyspace :=
  (ks.cells.toList.countP fun c => c.2.isSome, { ks with cells := ∅, volatile := ∅ })

def readEach (f : Slot → α) : List Key → Keyspace → List α × Keyspace
  | [], ks => ([], ks)
  | key :: keys, ks =>
    let (x, ks) := ks.read key f
    let (xs, ks) := readEach f keys ks
    (x :: xs, ks)

def removeEach : List Key → Keyspace → Nat × Keyspace
  | [], ks => (0, ks)
  | key :: keys, ks =>
    let (held, ks) := ks.remove key
    let (n, ks) := removeEach keys ks
    (if held then n + 1 else n, ks)

end Keyspace
end KeyStore
