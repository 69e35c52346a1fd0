import KeyStore.Console
import KeyStore.Keyspace.Sweep

/-! The command line: a session on the standard input, against the system clock. -/
namespace KeyStore
namespace Console

structure Live where
  session : Session Queue
  /-- When the clock was last moved, and when the last sweep was made, in milliseconds. -/
  clockAt : Nat
  sweptAt : Nat

namespace Live

/-- Moves the clock to the present, and sweeps if it is time. -/
def catchUp (l : Live) (now : Nat) : Live :=
  let engine := l.session.engine.advance (UInt64.ofNat (now - l.clockAt))
  let due := engine.config.activeExpire && decide (1000 / engine.config.hz ≤ now - l.sweptAt)
  let sampler := Keyspace.Sampler.first engine.config.activeExpireSample
  let keyspace := if due then (engine.keyspace.sweep sampler).2 else engine.keyspace
  { session := { l.session with engine := { engine with keyspace } }
    clockAt := now
    sweptAt := if due then now else l.sweptAt }

def takeLine (l : Live) (line : Bytes) : IO (Option Live) := do
  let l := l.catchUp (← IO.monoMsNow)
  let start ← IO.monoNanosNow
  match l.session.turn line with
  | .stop => return none
  | .pass session => return some { l with session }
  | .reply text after =>
    let stop ← IO.monoNanosNow
    let out ← IO.getStdout
    out.putStr text
    out.flush
    return some { l with session := after (stop - start) }

def takeQueued (l : Live) (c : Except Error Command) : IO Live := do
  let l := l.catchUp (← IO.monoMsNow)
  let start ← IO.monoNanosNow
  let (text, after) := respond l.session.engine c
  let stop ← IO.monoNanosNow
  (← IO.getStdout).putStr text
  return { l with session := { l.session with engine := after (stop - start) } }

end Live

/-- Reads up to the next line feed, which is included, or up to the end of the input. A line is
complete as soon as its line feed arrives, so that it can be answered before the next is typed. -/
partial def readLine (input : IO.FS.Stream) (begun : ByteArray) : IO ByteArray := do
  let more ← input.read 1
  let line := begun ++ more
  if more.isEmpty || more.toList == [10] then return line else readLine input line

partial def takeLines (input : IO.FS.Stream) (l : Live) : IO (Option Live) := do
  match lines (← readLine input .empty).toList with
  | [] => return some l
  | line :: _ =>
    match ← l.takeLine line with
    | none => return none
    | some l => takeLines input l

end Console
end KeyStore

def main (args : List String) : IO UInt32 := do
  let now ← IO.monoMsNow
  let session := KeyStore.Console.Session.new args .standard
  match ← KeyStore.Console.takeLines (← IO.getStdin) ⟨session, now, now⟩ with
  | none => return 1
  | some l =>
    let mut l := l
    for c in l.session.batch.elim #[] (·.queued) do
      l ← l.takeQueued c
    return 0
