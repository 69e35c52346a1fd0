import KeyStore.Keyspace

/-! Sweeps: expired entries are looked for among samples of the keys that carry an expiry, and
sampling goes on as long as more than a quarter of a sample had expired. -/
namespace KeyStore
open Std
namespace Keyspace

/-- Chooses the keys to look at in a round, among those that carry an expiry. -/
abbrev Sampler := Nat → ExtTreeSet Key → List Key

def Sampler.first (n : Nat) : Sampler := fun _ volatile => volatile.toList.take n

def maxRounds : Nat := 16

def expireEach : List Key → Keyspace → Nat × Keyspace
  | [], ks => (0, ks)
  | key :: keys, ks =>
    let (gone, ks) := ks.expireIfDue key
    let (n, ks) := expireEach keys ks
    (if gone then n + 1 else n, ks)

/-- Makes the rounds from `round` on, `left` at most. -/
def sweepFrom (sampler : Sampler) (round : Nat) : Nat → Keyspace → Nat × Keyspace
  | 0, ks => (0, ks)
  | left + 1, ks =>
    let sample := sampler round ks.volatile
    if sample.isEmpty then (0, ks)
    else
      let (n, ks) := expireEach sample ks
      if n * 4 ≤ sample.length then (n, ks)
      else
        let (m, ks) := sweepFrom sampler (round + 1) left ks
        (n + m, ks)

def sweep (ks : Keyspace) (sampler : Sampler) : Nat × Keyspace := sweepFrom sampler 0 maxRounds ks

end Keyspace
end KeyStore
