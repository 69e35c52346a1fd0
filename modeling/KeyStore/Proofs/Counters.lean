import Mathlib.Algebra.Ring.Int.Defs
import KeyStore.Proofs.Cardinalities
import KeyStore.Proofs.Fields
import KeyStore.Proofs.Numerals
import KeyStore.Proofs.Steps
import KeyStore.Proofs.Strings

/-! Counters. A string and a field of a hash are counted in the same way: a cell that holds the text of a number, or
nothing, is replaced by the text of the sum, or left alone if the sum is no word. The text of a word is read as this
word, so a run of increments adds up in the integers. -/
namespace KeyStore

namespace Counter

/-- The number from which a cell is counted on; one that holds nothing is counted on from zero. -/
def start? : Option Bytes → Option Int
  | none => some 0
  | some b => (Numeral.int64? b).map Int64.toInt

def step (cell : Option Bytes) (delta : Int64) : Outcome × Option Bytes :=
  match (cell.elim (.ok 0) read).bind (add · delta) with
  | .ok n => (.ok (.integer n.toInt), some (write n))
  | .error err => (.error err, cell)

/-- What is told when one number after the other is added: the sum, or that it does not fit. -/
def told (n : Int) : List Int64 → List Outcome
  | [] => []
  | d :: ds =>
    if Numeral.FitsInt64 (n + d.toInt) then .ok (.integer (n + d.toInt)) :: told (n + d.toInt) ds
    else .error .overflow :: told n ds

/-- The numbers whose addition fits when one after the other is added. -/
def accepted (n : Int) : List Int64 → List Int
  | [] => []
  | d :: ds =>
    if Numeral.FitsInt64 (n + d.toInt) then d.toInt :: accepted (n + d.toInt) ds else accepted n ds

theorem read_cell (cell : Option Bytes) :
    start? cell = none ∧ cell.elim (.ok 0) read = .error .notAnInteger ∨
      ∃ n : Int64, start? cell = some n.toInt ∧ cell.elim (.ok 0) read = .ok n := by
  cases cell with
  | none => exact .inr ⟨0, rfl, rfl⟩
  | some b =>
    rw [start?, Option.elim_some, read]
    cases Numeral.int64? b with
    | none => exact .inl ⟨rfl, rfl⟩
    | some n => exact .inr ⟨n, rfl, rfl⟩

theorem start?_ofInt {n : Int} (hn : Numeral.FitsInt64 n) : start? (some (Numeral.ofInt n)) = some n := by
  obtain ⟨-, m, -, rfl⟩ | ⟨hfits, -⟩ := Numeral.toInt64?_cases n
  · rw [start?, Numeral.int64?_ofInt, Option.map_some]
  · exact absurd hn hfits

theorem step_of_start?_none {cell : Option Bytes} (h : start? cell = none) (delta : Int64) :
    step cell delta = (.error .notAnInteger, cell) := by
  obtain ⟨-, hread⟩ | ⟨n, hstart, -⟩ := read_cell cell
  · rw [step, hread]
    rfl
  · rw [h] at hstart
    cases hstart

/-- A step of a counter is exact, or overflows and leaves the cell alone. -/
theorem step_of_start? {cell : Option Bytes} {n : Int} (h : start? cell = some n) (delta : Int64) :
    step cell delta =
      if Numeral.FitsInt64 (n + delta.toInt) then
        (.ok (.integer (n + delta.toInt)), some (Numeral.ofInt (n + delta.toInt)))
      else (.error .overflow, cell) := by
  obtain ⟨hstart, -⟩ | ⟨m, hstart, hread⟩ := read_cell cell
  · rw [h] at hstart
    cases hstart
  · obtain rfl : n = m.toInt := Option.some.inj (h.symm.trans hstart)
    rw [step, hread]
    change (match add m delta with | .ok n => _ | .error err => _) = _
    obtain ⟨hfits, sum, hsum, hexact⟩ | ⟨hfits, hsum⟩ := add_cases m delta
    · rw [hsum, if_pos hfits, ← hexact]
      rfl
    · rw [hsum, if_neg hfits]

theorem eq_none_of_step {cell : Option Bytes} {delta : Int64} (h : (step cell delta).2 = none) : cell = none := by
  rw [step] at h
  split at h
  · cases h
  · exact h

theorem replay_of_start?_none {cell : Option Bytes} (h : start? cell = none) (deltas : List Int64) :
    replay step deltas cell = (deltas.map fun _ => .error .notAnInteger, cell) := by
  induction deltas with
  | nil => rfl
  | cons d ds ih =>
    rw [replay_cons, step_of_start?_none h, ih]
    rfl

theorem replay_of_start? {cell : Option Bytes} {n : Int} (h : start? cell = some n) (deltas : List Int64) :
    replay step deltas cell =
      (told n deltas,
        if accepted n deltas = [] then cell else some (Numeral.ofInt (n + (accepted n deltas).sum))) := by
  induction deltas generalizing cell n with
  | nil => rfl
  | cons d ds ih =>
    rw [replay_cons, step_of_start? h, told, accepted]
    by_cases hfits : Numeral.FitsInt64 (n + d.toInt)
    · simp only [if_pos hfits, ih (start?_ofInt hfits), List.cons_ne_nil, if_false, List.sum_cons, ← Int.add_assoc]
      split
      · rename_i hnone
        rw [hnone, List.sum_nil, Int.add_zero]
      · rfl
    · simp only [if_neg hfits, ih h]

/-- A run leaves a number to count on from: what was accepted is added to the one it began with. -/
theorem start?_replay {cell : Option Bytes} {n : Int} (h : start? cell = some n) (deltas : List Int64) :
    start? (replay step deltas cell).2 = some (n + (accepted n deltas).sum) := by
  induction deltas generalizing cell n with
  | nil => exact h.trans (congrArg some (Int.add_zero n).symm)
  | cons d ds ih =>
    rw [replay_cons, step_of_start? h, accepted]
    by_cases hfits : Numeral.FitsInt64 (n + d.toInt)
    · simp only [if_pos hfits, ih (start?_ofInt hfits), List.sum_cons, Int.add_assoc]
    · simp only [if_neg hfits, ih h]

end Counter

theorem KeyCommand.incrSlot_text {cell : Option Bytes} {expiry : Option Instant} (hnone : cell = none → expiry = none)
    (delta : Int64) :
    incrSlot delta (cell.map fun b => ⟨.string b, expiry⟩) =
      ((Counter.step cell delta).1, (Counter.step cell delta).2.map fun b => ⟨.string b, expiry⟩) := by
  cases cell with
  | none =>
    simp only [Counter.step, Option.elim_none, Except.bind, Counter.add_zero, hnone rfl]
    rfl
  | some b =>
    have hsum : Counter.increment b delta = (Counter.read b).bind (Counter.add · delta) := rfl
    have hlook : Shape.string.look Shape.string.fresh id (some ⟨.string b, expiry⟩) = .ok b := rfl
    rw [Option.map_some, incrSlot, Shape.alter_of_look hlook, hsum, Counter.step, Option.elim_some]
    cases (Counter.read b).bind (Counter.add · delta) <;> rfl

namespace FieldMap

theorem get?_of_isEmpty {h : FieldMap} (hempty : h.isEmpty = true) (field : Bytes) : h.get? field = none := by
  rw [get?, Std.ExtTreeMap.isEmpty_iff.mp hempty]
  rfl

theorem increment_cell (h : FieldMap) (field : Bytes) (delta : Int64) :
    (h.increment field delta).1.map (fun n => .integer n.toInt) = (Counter.step (h.get? field) delta).1 ∧
      (h.increment field delta).2.get? field = (Counter.step (h.get? field) delta).2 := by
  rw [increment_eq, Counter.step]
  cases ((h.get? field).elim (.ok 0) Counter.read).bind (Counter.add · delta) with
  | error err => exact ⟨rfl, rfl⟩
  | ok sum => exact ⟨rfl, (h.get?_set field (Counter.write sum) field).trans (if_pos rfl)⟩

end FieldMap

namespace Arguments

theorem negated_cases (n : Int64) :
    n ≠ Int64.minValue ∧ (∃ d, negated n = .ok d ∧ d.toInt = -n.toInt) ∨
      n = Int64.minValue ∧ negated n = .error .overflow := by
  by_cases hn : n = Int64.minValue
  · subst hn
    exact .inr ⟨rfl, rfl⟩
  · have hlow := n.le_toInt
    have hhigh := n.toInt_lt
    have hne : n.toInt ≠ -2 ^ 63 := fun heq => hn (Int64.toInt_inj.mp (heq.trans Int64.toInt_minValue.symm))
    have hfits : Numeral.FitsInt64 (-n.toInt) := by
      constructor <;> omega
    obtain ⟨-, d, hd, hexact⟩ | ⟨hno, -⟩ := Numeral.toInt64?_cases (-n.toInt)
    · exact .inl ⟨hn, d, by rw [negated, hd], hexact⟩
    · exact absurd hfits hno

end Arguments

namespace Command

theorem ofWords_incrby {word : Bytes} (hword : Verb.ofBytes? word = some .incrby) {arg : Bytes} {n : Int64}
    (hn : Arguments.int64 arg = .ok n) (key : Key) :
    ofWords [word, key, arg] = .ok (.onKeys (.incrBy key n)) := by
  rw [ofWords, hword]
  simp only [Grammar.ofVerb, Grammar.two, hn]
  rfl

theorem ofWords_decrby {word : Bytes} (hword : Verb.ofBytes? word = some .decrby) {arg : Bytes} {n : Int64}
    (hn : Arguments.int64 arg = .ok n) (key : Key) :
    ofWords [word, key, arg] = (Arguments.negated n).map fun d => .onKeys (.incrBy key d) := by
  rw [ofWords, hword]
  simp only [Grammar.ofVerb, Grammar.two, hn]
  cases hd : Arguments.negated n <;> simp [bind, Except.bind, pure, Except.pure, Except.map, hd]

end Command

namespace Engine

/-- A key holds a string with an expiry, or nothing. -/
structure HoldsText (e : Engine Q) (key : Key) (expiry : Option Instant) (cell : Option Bytes) : Prop where
  live : e.keyspace.live key = cell.map fun b => ⟨.string b, expiry⟩
  lasting : cell = none → expiry = none

theorem holdsText_of_stringAt {e : Engine Q} {key : Key} {cell : Option Bytes} (h : e.stringAt key = .ok cell) :
    e.HoldsText key ((e.keyspace.live key).bind (·.expiresAt)) cell := by
  rw [stringAt] at h
  cases hlive : e.keyspace.live key with
  | none =>
    rw [hlive] at h
    obtain rfl : none = cell := Except.ok.inj h
    exact ⟨hlive, fun _ => rfl⟩
  | some old =>
    rw [hlive] at h
    obtain ⟨value, expiry⟩ := old
    obtain ⟨b, rfl, rfl⟩ := Shape.exists_of_look_some h
    exact ⟨hlive, fun hnone => by cases hnone⟩

theorem HoldsText.stringAt {e : Engine Q} {key : Key} {expiry : Option Instant} {cell : Option Bytes}
    (h : e.HoldsText key expiry cell) : e.stringAt key = .ok cell := by
  rw [Engine.stringAt, h.live]
  cases cell <;> rfl

theorem HoldsText.increment {e : Engine Q} {key : Key} {expiry : Option Instant} {cell : Option Bytes}
    (h : e.HoldsText key expiry cell) (delta : Int64) (nanos : Nat) :
    (e.execute (.onKeys (.incrBy key delta)) nanos).1 = (Counter.step cell delta).1 ∧
      (e.execute (.onKeys (.incrBy key delta)) nanos).2.HoldsText key expiry (Counter.step cell delta).2 := by
  obtain ⟨hout, hlive⟩ := e.execute_of_edit (c := .incrBy key delta) rfl rfl nanos
  rw [h.live, KeyCommand.incrSlot_text h.lasting] at hout hlive
  refine ⟨hout, hlive.trans ?_, fun hnone => h.lasting (Counter.eq_none_of_step hnone)⟩
  cases (Counter.step cell delta).2 <;> rfl

def fieldAt (e : Engine Q) (k : Key) (field : Bytes) : Except Error (Option Bytes) :=
  Shape.hash.look none (·.get? field) (e.keyspace.live k)

theorem execute_hget (e : Engine Q) (k : Key) (field : Bytes) (nanos : Nat) :
    (e.execute (.onKeys (.hget k field)) nanos).1 = (e.fieldAt k field).map Reply.optional := by
  rw [fieldAt, Shape.map_look]
  exact (e.execute_onKeys (.hget k field) nanos).1

theorem increment_field {e : Engine Q} {key : Key} {field : Bytes} {cell : Option Bytes}
    (h : e.fieldAt key field = .ok cell) (delta : Int64) (nanos : Nat) :
    (e.execute (.onKeys (.hincrBy key field delta)) nanos).1 = (Counter.step cell delta).1 ∧
      (e.execute (.onKeys (.hincrBy key field delta)) nanos).2.fieldAt key field =
        .ok (Counter.step cell delta).2 := by
  obtain ⟨hout, hlive⟩ := e.execute_of_edit (c := .hincrBy key field delta) rfl rfl nanos
  obtain ⟨fields, hlook, rfl⟩ := Shape.exists_of_look (by rfl) h
  rw [Shape.grow_of_look hlook] at hout hlive
  obtain ⟨htold, hstored⟩ := fields.increment_cell field delta
  refine ⟨hout.trans htold, ?_⟩
  rw [fieldAt, hlive, ← hstored]
  exact Shape.hash.look_nonempty (fun x hx => x.get?_of_isEmpty hx field) rfl

/-- A result of counting a key to an integer: if this fits, it is told and its text stored, with the expiry that the
key had; otherwise an overflow is told and the key holds what it held. -/
def CountsTo (e : Engine Q) (key : Key) (n : Int) (r : Outcome × Engine Q) : Prop :=
  if Numeral.FitsInt64 n then
    r.1 = .ok (.integer n) ∧
      r.2.keyspace.live key = some ⟨.string (Numeral.ofInt n), (e.keyspace.live key).bind (·.expiresAt)⟩
  else r.1 = .error .overflow ∧ r.2.keyspace.live key = e.keyspace.live key

theorem countsTo_incrBy {e : Engine Q} {key : Key} {cell : Option Bytes} (h : e.stringAt key = .ok cell) {n : Int}
    (hstart : Counter.start? cell = some n) (delta : Int64) (nanos : Nat) :
    e.CountsTo key (n + delta.toInt) (e.execute (.onKeys (.incrBy key delta)) nanos) := by
  have htext := holdsText_of_stringAt h
  obtain ⟨hout, hafter⟩ := htext.increment delta nanos
  rw [Counter.step_of_start? hstart] at hout hafter
  rw [CountsTo]
  split
  · rename_i hfits
    rw [if_pos hfits] at hout hafter
    exact ⟨hout, hafter.live⟩
  · rename_i hfits
    rw [if_neg hfits] at hout hafter
    exact ⟨hout, hafter.live.trans htext.live.symm⟩

/-- Increments compose. A string that spells no integer is refused by each of them and stays; otherwise a run adds up
what was accepted, the text of this sum is what is got afterwards, and the next increment brings the key from there
to its own sum, or overflows. The same increments of a field that holds the same bytes, or is missing as the key is,
have the same outcomes and leave the same bytes. -/
theorem increments_compose (e : Engine Q) (key : Key) (old : Option Bytes) (hold : e.stringAt key = .ok old)
    (deltas : List Int64) (nanos : Nat → Nat) :
    let r := e.executeEach nanos (deltas.map (.incrBy key))
    let after := r.2.keyspace.live key
    (Counter.start? old = none →
      r.1 = deltas.map (fun _ => .error .notAnInteger) ∧ after = e.keyspace.live key) ∧
    (∀ n, Counter.start? old = some n →
      let sum := n + (Counter.accepted n deltas).sum
      r.1 = Counter.told n deltas ∧
      (∀ delta nanos', r.2.CountsTo key (sum + delta.toInt) (r.2.execute (.onKeys (.incrBy key delta)) nanos')) ∧
      (Counter.accepted n deltas = [] → after = e.keyspace.live key) ∧
      (Counter.accepted n deltas ≠ [] →
        after = some ⟨.string (Numeral.ofInt sum), (e.keyspace.live key).bind (·.expiresAt)⟩ ∧
        ∀ nanos', (r.2.execute (.onKeys (.get key)) nanos').1 = .ok (.bulk (Numeral.ofInt sum)))) ∧
    ∀ (e' : Engine Q) (key' : Key) (field : Bytes) (nanos' : Nat → Nat), e'.fieldAt key' field = .ok old →
      let r' := e'.executeEach nanos' (deltas.map (.hincrBy key' field))
      r'.1 = r.1 ∧ ∀ i j, (r'.2.execute (.onKeys (.hget key' field)) i).1 = (r.2.execute (.onKeys (.get key)) j).1 := by
  intro r after
  have htext := holdsText_of_stringAt hold
  obtain ⟨houts, hafter⟩ := executeEach_replays Counter.step (KeyCommand.incrBy key)
    (fun _ _ delta nanos h => HoldsText.increment h delta nanos) deltas nanos htext
  refine ⟨fun hstart => ?_, fun n hstart => ?_, fun e' key' field nanos' hfield => ?_⟩
  · rw [Counter.replay_of_start?_none hstart] at houts hafter
    exact ⟨houts, hafter.live.trans htext.live.symm⟩
  · intro sum
    have hnext := countsTo_incrBy hafter.stringAt (Counter.start?_replay hstart deltas)
    rw [Counter.replay_of_start? hstart] at houts hafter
    refine ⟨houts, hnext, fun hnone => ?_, fun hsome => ?_⟩
    · rw [if_pos hnone] at hafter
      exact hafter.live.trans htext.live.symm
    · rw [if_neg hsome] at hafter
      refine ⟨hafter.live, fun nanos' => ?_⟩
      rw [execute_get, hafter.stringAt]
      rfl
  · intro r'
    obtain ⟨houts', hafter'⟩ := executeEach_replays Counter.step (KeyCommand.hincrBy key' field)
      (fun _ _ delta nanos h => increment_field h delta nanos) deltas nanos' hfield
    refine ⟨houts'.trans houts.symm, fun i j => ?_⟩
    rw [execute_hget, execute_get, hafter', hafter.stringAt]

/-- A counter near the greatest word that expires, and a field that holds what the counter does. -/
theorem increments_compose_to_limit :
    let text := Bytes.ofString "9223372036854775806"
    let e := (new .default .standard).run [
      .execute (.onKeys (.set [107] text { expiry := .after 5 })) 0,
      .execute (.onKeys (.hset [104] [([102], text)])) 0]
    let deltas : List Int64 := [1, 1, -3]
    let counted := (e.executeEach id (deltas.map (.incrBy [107]))).2.keyspace
    (e.executeEach id (deltas.map (.incrBy [107]))).1 =
        [.ok (.integer 9223372036854775807), .error .overflow, .ok (.integer 9223372036854775804)] ∧
      counted.live [107] = some ⟨.string (Bytes.ofString "9223372036854775804"), some 5⟩ ∧
      (e.executeEach id (deltas.map (.hincrBy [104] [102]))).1 = (e.executeEach id (deltas.map (.incrBy [107]))).1 := by
  intro text e deltas counted
  have hold : e.stringAt [107] = .ok (some text) := by decide +kernel
  have hstart : Counter.start? (some text) = some 9223372036854775806 := by decide +kernel
  have hfield : e.fieldAt [104] [102] = .ok (some text) := by decide +kernel
  obtain ⟨-, hsums, hfields⟩ := e.increments_compose [107] (some text) hold deltas id
  obtain ⟨houts, -, -, hsome⟩ := hsums _ hstart
  refine ⟨houts.trans (by rfl), ?_, (hfields e [104] [102] id hfield).1⟩
  refine (hsome (by decide +kernel)).1.trans ?_
  decide +kernel

/-- Decrements are exact. A key that holds an integer, or nothing, is counted by INCRBY to the sum and by DECRBY to
the difference, whatever the words are; only the least word cannot be taken away, as it has no opposite. -/
theorem decrements_exact (e : Engine Q) (key : Key) (old : Option Bytes) (hold : e.stringAt key = .ok old) (v : Int)
    (hv : Counter.start? old = some v) (arg : Bytes) (n : Int64) (hn : Arguments.int64 arg = .ok n) (nanos : Nat) :
    (∀ word, Verb.ofBytes? word = some .incrby → e.CountsTo key (v + n.toInt) (e.call [word, key, arg] nanos)) ∧
    ∀ word, Verb.ofBytes? word = some .decrby →
      let r := e.call [word, key, arg] nanos
      (n ≠ Int64.minValue → e.CountsTo key (v - n.toInt) r) ∧
      (n = Int64.minValue → r.1 = .error .overflow ∧ r.2.keyspace.live key = e.keyspace.live key) := by
  refine ⟨fun word hword => ?_, fun word hword => ?_⟩
  · rw [call, Command.ofWords_incrby hword hn]
    exact countsTo_incrBy hold hv n nanos
  · intro r
    have hr : r = e.executeParsed _ nanos := congrArg (e.executeParsed · nanos) (Command.ofWords_decrby hword hn key)
    obtain ⟨hne, d, hd, hexact⟩ | ⟨hleast, hd⟩ := Arguments.negated_cases n
    · refine ⟨fun _ => ?_, fun hleast => absurd hleast hne⟩
      rw [hr, hd, Int.sub_eq_add_neg, ← hexact]
      exact countsTo_incrBy hold hv d nanos
    · refine ⟨fun hne => absurd hleast hne, fun _ => ?_⟩
      rw [hr, hd]
      exact ⟨rfl, rfl⟩

/-- The least word cannot be taken away from minus one, though the difference is the greatest word. -/
theorem decrement_by_least_refused :
    let least := Bytes.ofString "-9223372036854775808"
    let e := (new .default .standard).run [.call [Bytes.ofString "SET", [107], Bytes.ofString "-1"] 0]
    let r := e.call [Bytes.ofString "DECRBY", [107], least] 0
    e.Reachable ∧ e.stringAt [107] = .ok (some (Bytes.ofString "-1")) ∧
      Counter.start? (some (Bytes.ofString "-1")) = some (-1) ∧ Arguments.int64 least = .ok Int64.minValue ∧
      Numeral.FitsInt64 (-1 - Int64.minValue.toInt) ∧ r.1 = .error .overflow ∧
      ¬ e.CountsTo [107] (-1 - Int64.minValue.toInt) r := by
  intro least e r
  have hfits : Numeral.FitsInt64 (-1 - Int64.minValue.toInt) := by decide
  have hout : r.1 = .error .overflow := by rfl
  refine ⟨⟨_, _, _, rfl⟩, by decide +kernel, by decide +kernel, by decide +kernel, hfits, hout, fun hcounts => ?_⟩
  rw [CountsTo, if_pos hfits, hout] at hcounts
  cases hcounts.1

/-- Decrements down to the least word and past it, and one by the least word. -/
theorem decrements_exact_at_limits :
    let e := (new .default .standard).run [.call [Bytes.ofString "SET", [107], Bytes.ofString "-9"] 0]
    let decr (arg : String) := e.call [Bytes.ofString "decrBy", [107], Bytes.ofString arg] 0
    let incr (arg : String) := e.call [Bytes.ofString "INCRBY", [107], Bytes.ofString arg] 0
    e.CountsTo [107] (-0x8000000000000000) (decr "9223372036854775799") ∧
      e.CountsTo [107] (-0x8000000000000001) (decr "9223372036854775800") ∧
      (decr "-9223372036854775808").1 = .error .overflow ∧
      e.CountsTo [107] (-0x8000000000000009) (incr "-9223372036854775808") := by
  intro e decr incr
  have hold : e.stringAt [107] = .ok (some (Bytes.ofString "-9")) := by decide +kernel
  have hstart : Counter.start? (some (Bytes.ofString "-9")) = some (-9) := by decide +kernel
  have hexact (arg : String) (n : Int64) (hn : Arguments.int64 (Bytes.ofString arg) = .ok n) :=
    e.decrements_exact [107] _ hold (-9) hstart (Bytes.ofString arg) n hn 0
  obtain ⟨-, hfirst⟩ := hexact "9223372036854775799" 9223372036854775799 (by decide +kernel)
  obtain ⟨-, hsecond⟩ := hexact "9223372036854775800" 9223372036854775800 (by decide +kernel)
  obtain ⟨hsum, hleast⟩ := hexact "-9223372036854775808" Int64.minValue (by decide +kernel)
  refine ⟨(hfirst _ (by decide +kernel)).1 (by decide), (hsecond _ (by decide +kernel)).1 (by decide),
    ((hleast _ (by decide +kernel)).2 rfl).1, hsum _ (by decide +kernel)⟩

end Engine
end KeyStore
