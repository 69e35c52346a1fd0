import KeyStore.Error
import KeyStore.Keyspace.Held
import KeyStore.Reply

/-! Tasks: the work that a command does on the slots of its keys, apart from how the keyspace finds
them, drops what has expired and keeps its books. -/
namespace KeyStore

/-- What a command wants from the keyspace. -/
inductive Task
  /-- Nothing: the command fails before it reaches a key. -/
  | refuse (e : Error)
  /-- Read one slot. -/
  | look (key : Key) (f : Slot → Except Error Reply)
  /-- Read several slots one after the other. -/
  | lookEach (keys : List Key) (f : List Slot → Reply)
  /-- Read and write one slot. What is written stays written when the command fails. -/
  | edit (key : Key) (f : Slot → Except Error Reply × Slot)
  /-- Remove several keys one after the other. -/
  | removeEach (keys : List Key)
  /-- Read and write several slots at one moment. -/
  | together (keys : List Key) (f : Held → Except Error Reply × Held)

namespace Task

def keys : Task → List Key
  | refuse _ => []
  | look key _ => [key]
  | lookEach keys _ => keys
  | edit key _ => [key]
  | removeEach keys => keys
  | together keys _ => keys

def run : Task → Keyspace → Except Error Reply × Keyspace
  | refuse e, ks => (.error e, ks)
  | look key f, ks => ks.read key f
  | lookEach keys f, ks =>
    let (slots, ks) := Keyspace.readEach id keys ks
    (.ok (f slots), ks)
  | edit key f, ks => ks.update key f
  | removeEach keys, ks =>
    let (n, ks) := Keyspace.removeEach keys ks
    (.ok (.count n), ks)
  | together keys f, ks => ks.withHeld keys f

end Task
end KeyStore
