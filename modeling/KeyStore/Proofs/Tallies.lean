import KeyStore.Proofs.Steps
import KeyStore.Proofs.Maps

/-! Tallies. The command statistics count each command that was executed since they were last reset, the
reset among them, under the name of the command; what was not understood is not counted. -/
namespace KeyStore
open Std

structure Executed where
  command : Command
  outcome : Outcome

namespace Executed

def name (x : Executed) : String := x.command.name

def failed (x : Executed) : Bool := !x.outcome.isOk

def resets (x : Executed) : Bool := x.command == .onServer .configResetStat

def ofAnswers (as : List Engine.Answer) : List Executed :=
  as.filterMap fun a => a.1.toOption.map fun c => ⟨c, a.2⟩

theorem ofAnswers_append_ok (as : List Engine.Answer) (c : Command) (out : Outcome) :
    ofAnswers (as ++ [(.ok c, out)]) = ofAnswers as ++ [⟨c, out⟩] := by
  rw [ofAnswers, List.filterMap_append]
  rfl

theorem ofAnswers_append_error (as : List Engine.Answer) (err : Error) (out : Outcome) :
    ofAnswers (as ++ [(.error err, out)]) = ofAnswers as := by
  rw [ofAnswers, List.filterMap_append]
  exact List.append_nil _

/-- What was executed since the statistics were last reset, the reset first; all if they never were. -/
def sinceReset : List Executed → List Executed
  | [] => []
  | x :: xs => if xs.any resets then sinceReset xs else x :: xs

theorem sinceReset_append (xs : List Executed) (x : Executed) :
    sinceReset (xs ++ [x]) = if x.resets then [x] else sinceReset xs ++ [x] := by
  induction xs with
  | nil => simp [sinceReset]
  | cons y ys ih =>
    rw [List.cons_append, sinceReset, sinceReset, ih, List.any_append]
    cases hx : x.resets with
    | true => simp [hx]
    | false => by_cases hys : ys.any resets = true <;> simp [hx, hys]

end Executed

namespace Stats

/-- The counters of a name, all zero for a name without an entry. -/
def tally (s : Stats) (name : String) : Tally := s[name]?.getD {}

/-- Statistics that count some commands, and no others. -/
structure Counts (s : Stats) (xs : List Executed) : Prop where
  calls : ∀ name, (s.tally name).calls = xs.countP fun x => x.name == name
  failed : ∀ name, (s.tally name).failed = xs.countP fun x => x.name == name && x.failed
  mem : ∀ name, name ∈ s ↔ ∃ x ∈ xs, x.name = name
  total : s.totalCalls = xs.length

theorem totalCalls_eq (s : Stats) : s.totalCalls = (s.toList.map fun p => p.2.calls).sum := by
  rw [totalCalls, ExtTreeMap.foldl_eq_foldl_toList, List.sum_eq_foldl, List.foldl_map]

theorem counts_empty : Counts ∅ [] where
  calls name := by simp [tally]
  failed name := by simp [tally]
  mem name := by simp
  total := rfl

theorem tally_record (s : Stats) (name other : String) (usec : Nat) (failed : Bool) :
    (s.record name usec failed).tally other =
      if name = other then (s.tally name).record usec failed else s.tally other := by
  rw [tally, record, ExtTreeMap.getElem?_insert]
  by_cases h : name = other
  · simp [h, tally]
  · simp [h, tally]

theorem totalCalls_record (s : Stats) (name : String) (usec : Nat) (failed : Bool) :
    (s.record name usec failed).totalCalls = s.totalCalls + 1 := by
  have hother : ∀ j, name ≠ j → (s.record name usec failed)[j]? = s[j]? := by
    intro j hj
    rw [record, ExtTreeMap.getElem?_insert]
    simp [hj]
  have hsum := sumOf_change Tally.calls hother
  have hnew : (s.record name usec failed)[name]? = some ((s.tally name).record usec failed) :=
    ExtTreeMap.getElem?_insert_self
  have hcalls : (s.tally name).calls = s[name]?.elim 0 Tally.calls := by
    rw [tally]
    cases s[name]? <;> rfl
  rw [hnew, Option.elim_some, Tally.record, ← hcalls] at hsum
  rw [totalCalls_eq, totalCalls_eq]
  simp only [sumOf] at hsum
  omega

theorem Counts.record {s : Stats} {xs : List Executed} (h : s.Counts xs) (x : Executed) (usec : Nat) :
    (s.record x.name usec x.failed).Counts (xs ++ [x]) where
  calls name := by
    rw [tally_record, List.countP_append, List.countP_singleton]
    by_cases hname : x.name = name
    · simp [hname, Tally.record, h.calls]
    · simp [hname, h.calls]
  failed name := by
    rw [tally_record, List.countP_append, List.countP_singleton]
    by_cases hname : x.name = name
    · cases x.failed <;> simp [hname, Tally.record, h.failed]
    · simp [hname, h.failed]
  mem name := by
    simp [Stats.record, ExtTreeMap.mem_insert, h.mem, or_and_right, exists_or, or_comm]
  total := by
    rw [totalCalls_record, h.total, List.length_append, List.length_singleton]

end Stats

namespace Engine

theorem stats_perform (e : Engine Q) (c : Command) :
    (e.perform c).2.stats = if c = .onServer .configResetStat then ∅ else e.stats := by
  cases c with
  | onKeys c => simp [perform]
  | onServer c =>
    cases c with
    | ping message => cases message <;> simp [perform, serve]
    | configSet parameter value =>
      simp only [perform, serve]
      split <;> simp
    | _ => simp [perform, serve]

open Executed

/-- A command is counted on top of what the statistics hold when it has run, which is nothing after a
reset; what was not understood is not counted. -/
theorem counts_executeParsed {e : Engine Q} {as : List Answer}
    (h : e.stats.Counts (sinceReset (ofAnswers as))) (c : Except Error Command) (nanos : Nat) :
    (e.executeParsed c nanos).2.stats.Counts
      (sinceReset (ofAnswers (as ++ [(c, (e.executeParsed c nanos).1)]))) := by
  cases c with
  | error err =>
    rw [ofAnswers_append_error]
    exact h
  | ok c =>
    -- a reset takes effect before it is counted itself
    have hwindow : (e.perform c).2.stats.Counts
        (if c = .onServer .configResetStat then [] else sinceReset (ofAnswers as)) := by
      rw [stats_perform]
      split
      · exact Stats.counts_empty
      · exact h
    have hcounts := hwindow.record ⟨c, (e.perform c).1⟩ (nanos / 1000)
    rw [ofAnswers_append_ok, sinceReset_append]
    simp only [resets, beq_iff_eq]
    split
    · rename_i hreset
      rw [if_pos hreset] at hcounts
      exact hcounts
    · rename_i hreset
      rw [if_neg hreset] at hcounts
      exact hcounts

theorem stats_after {e : Engine Q} {ev : Event} (hstep : ev.IsStep)
    (hev : ∀ c nanos, ev ≠ .execute c nanos) : (e.after ev).stats = e.stats := by
  cases ev with
  | execute c nanos => exact absurd rfl (hev c nanos)
  | call words nanos => cases hstep
  | batch b nanos => cases hstep
  | _ => rfl

/-- Statistics are exact. After every run each name has the calls and the failures of the commands of this
name that were executed since the last reset, this included, and an entry just when there were any; the calls
of all commands together are those of all names, and the number of commands; what was not understood is
counted nowhere. -/
theorem calls_counted (config : Config) (base : Base Q) (evs : List Event) :
    let start := new config base
    let stats := (start.run evs).stats
    stats.Counts (sinceReset (ofAnswers (start.transcript evs))) ∧
      stats.totalCalls = (stats.toList.map fun p => p.2.calls).sum := by
  intro start stats
  refine ⟨?_, stats.totalCalls_eq⟩
  exact run_keeps_transcript (P := fun e as => e.stats.Counts (sinceReset (ofAnswers as)))
    (fun _ _ c nanos h => counts_executeParsed h c nanos)
    (fun _ _ _ hstep hev h => (stats_after hstep hev).symm ▸ h) evs start [] Stats.counts_empty

/-- A batch that resets the statistics after a ping and before two increments, of which one fails; a word that
is no command is not counted. -/
example :
    let words (ws : List String) : List Bytes := ws.map Bytes.ofString
    let batch := [["CONFIG", "RESETSTAT"], ["NONSENSE"], ["INCR", "n"], ["DECRBY", "s", "2"]].foldl
      (fun b ws => b.pushWords (words ws)) Batch.empty
    let stats := ((new .default .standard).run [.call (words ["PING"]) 0,
      .call (words ["SET", "s", "text"]) 0, .batch batch fun _ => 0]).stats
    stats.toList = [("config", ⟨1, 0, 0⟩), ("incrby", ⟨2, 1, 0⟩)] := by decide +kernel

end Engine
end KeyStore
