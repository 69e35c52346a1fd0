import Std.Data.ExtTreeMap
import KeyStore.Double.Shortest

/-! Command statistics: how often each command ran and failed, and how long it took. -/
namespace KeyStore
open Std

structure Tally where
  calls : Nat := 0
  failed : Nat := 0
  /-- Microseconds in all calls together. -/
  usec : Nat := 0
deriving DecidableEq, Repr

namespace Tally

def record (t : Tally) (usec : Nat) (failed : Bool) : Tally :=
  ⟨t.calls + 1, if failed then t.failed + 1 else t.failed, t.usec + usec⟩

/-- The mean time of a call, zero if there was none. -/
def usecPerCall (t : Tally) : Double :=
  if t.calls = 0 then .zero else (Double.ofNat t.usec).quotient (Double.ofNat t.calls)

def line (name : String) (t : Tally) : String :=
  "cmdstat_" ++ name ++ ":calls=" ++ toString t.calls ++ ",usec=" ++ toString t.usec ++
    ",usec_per_call=" ++ String.ofList t.usecPerCall.twoPlaces ++
    ",failed=" ++ toString t.failed ++ "\r\n"

end Tally

abbrev Stats := ExtTreeMap String Tally

namespace Stats

def record (s : Stats) (name : String) (usec : Nat) (failed : Bool) : Stats :=
  s.insert name (s[name]?.getD {} |>.record usec failed)

def totalCalls (s : Stats) : Nat := s.foldl (fun n _ t => n + t.calls) 0

def render (s : Stats) : String :=
  s.toList.foldl (fun out p => out ++ p.2.line p.1) "# Commandstats\r\n"

end Stats
end KeyStore
