import KeyStore.Command.Task
import KeyStore.Proofs.Meaning

/-! Holdings. A command that holds several keys finds its way among them by searching a sorted list. Whatever it
calls for, one call after the other, comes to the same as on a finite map of the entries that are seen. -/
namespace KeyStore
open Std

inductive HeldCall
  | get (key : Key)
  | take (key : Key)
  | put (key : Key) (e : Entry)
deriving DecidableEq

namespace HeldCall

abbrev Answer : HeldCall → Type
  | get _ => Slot
  | take _ => Slot
  | put .. => Bool

instance : (c : HeldCall) → DecidableEq c.Answer
  | get _ => inferInstanceAs (DecidableEq Slot)
  | take _ => inferInstanceAs (DecidableEq Slot)
  | put .. => inferInstanceAs (DecidableEq Bool)

def onHeld : (c : HeldCall) → Held → c.Answer × Held
  | get key, h => (h.entry key, h)
  | take key, h => h.take key
  | put key e, h => h.put key e

/-- A call on a finite map, of which the keys that were asked for can be reached. -/
def onMap (keys : List Key) : (c : HeldCall) → ExtTreeMap Key Entry → c.Answer × ExtTreeMap Key Entry
  | get key, m => (if keys.contains key then m[key]? else none, m)
  | take key, m => if keys.contains key then (m[key]?, m.erase key) else (none, m)
  | put key e, m => if keys.contains key then (true, m.insert key e) else (false, m)

end HeldCall

/-- The work of a command on the keys that it holds: calls, each of which may depend on the answers so far. -/
inductive Errand
  | done
  | call (c : HeldCall) (next : c.Answer → Errand)

/-- Makes the calls one after the other, each by a step; gives them with their answers. -/
def Errand.run (step : (c : HeldCall) → σ → c.Answer × σ) : Errand → σ → List (Σ c : HeldCall, c.Answer) × σ
  | done, s => ([], s)
  | call c next, s =>
    let (answer, s) := step c s
    let (answers, s) := (next answer).run step s
    (⟨c, answer⟩ :: answers, s)

/-- Steps that answer alike in states that stand in a relation, and lead to such states, do so for all calls. -/
theorem Errand.run_related {R : σ → τ → Prop} {step : (c : HeldCall) → σ → c.Answer × σ}
    {step' : (c : HeldCall) → τ → c.Answer × τ}
    (hstep : ∀ c s t, R s t → (step c s).1 = (step' c t).1 ∧ R (step c s).2 (step' c t).2) (body : Errand)
    {s : σ} {t : τ} (h : R s t) :
    (body.run step s).1 = (body.run step' t).1 ∧ R (body.run step s).2 (body.run step' t).2 := by
  induction body generalizing s t with
  | done => exact ⟨rfl, h⟩
  | call c next ih =>
    obtain ⟨hanswer, hafter⟩ := hstep c s t h
    rw [run, run]
    dsimp only
    rw [hanswer]
    obtain ⟨hanswers, hend⟩ := ih (step' c t).1 hafter
    exact ⟨congrArg (_ :: ·) hanswers, hend⟩

/-- The keys held are those asked for, and each has the entry that a map has for it. -/
structure Held.Shows (h : Held) (keys : List Key) (m : ExtTreeMap Key Entry) : Prop where
  mem : ∀ k, k ∈ h ↔ k ∈ keys
  entry : ∀ k, h.entry k = if k ∈ keys then m[k]? else none

theorem Held.shows_ofKeys (ks : Keyspace) (keys : List Key) : (ofKeys keys ks.live).Shows keys ks.entries where
  mem := mem_ofKeys_iff keys ks.live
  entry k := by rw [entry_ofKeys, Keyspace.getElem?_entries]

theorem HeldCall.onHeld_refines {h : Held} {keys : List Key} {m : ExtTreeMap Key Entry} (hm : h.Shows keys m)
    (c : HeldCall) : (c.onHeld h).1 = (c.onMap keys m).1 ∧ (c.onHeld h).2.Shows keys (c.onMap keys m).2 := by
  cases c with
  | get key =>
    refine ⟨?_, hm⟩
    rw [onHeld, onMap, List.contains_eq_mem]
    simpa using hm.entry key
  | take key =>
    refine ⟨?_, fun k => (h.mem_take key k).trans (hm.mem k), fun k => ?_⟩
    · rw [onHeld, onMap, Held.take_fst, hm.entry]
      by_cases hkey : key ∈ keys <;> simp [hkey]
    · rw [onHeld, onMap, Held.entry_take, hm.entry]
      by_cases hk : key = k
      · subst hk
        by_cases hkey : key ∈ keys <;> simp [hkey]
      · by_cases hkey : key ∈ keys <;> simp [hkey, hk, ExtTreeMap.getElem?_erase]
  | put key e =>
    refine ⟨?_, fun k => (h.mem_put key e k).trans (hm.mem k), fun k => ?_⟩
    · rw [onHeld, onMap, Held.put_fst]
      by_cases hkey : key ∈ keys <;> simp [hm.mem, hkey]
    · rw [onHeld, onMap, Held.entry_put, hm.entry]
      by_cases hk : key = k
      · subst hk
        by_cases hkey : key ∈ keys <;> simp [hm.mem, hkey]
      · by_cases hkey : key ∈ keys <;> simp [hkey, hk, ExtTreeMap.getElem?_insert]

section
variable {keys : List Key} {m : ExtTreeMap Key Entry} {k : Key}

theorem HeldCall.onMap_of_notMem (hk : k ∉ keys) (c : HeldCall) : (c.onMap keys m).2[k]? = m[k]? := by
  cases c with
  | get key => rfl
  | take key =>
    rw [onMap]
    split
    · rename_i hkey
      have hne : key ≠ k := fun heq => hk (heq ▸ List.contains_iff_mem.mp hkey)
      simp [ExtTreeMap.getElem?_erase, hne]
    · rfl
  | put key e =>
    rw [onMap]
    split
    · rename_i hkey
      have hne : key ≠ k := fun heq => hk (heq ▸ List.contains_iff_mem.mp hkey)
      simp [ExtTreeMap.getElem?_insert, hne]
    · rfl

theorem HeldCall.getElem?_onMap (c : HeldCall) {e : Entry} (he : (c.onMap keys m).2[k]? = some e) :
    m[k]? = some e ∨ (⟨c, (c.onMap keys m).1⟩ : Σ c : HeldCall, c.Answer) = ⟨.put k e, true⟩ := by
  cases c with
  | get key => exact .inl he
  | take key =>
    rw [onMap] at he
    split at he
    · rw [ExtTreeMap.getElem?_erase] at he
      split at he
      · cases he
      · exact .inl he
    · exact .inl he
  | put key e' =>
    rw [onMap] at he ⊢
    split at he
    · rename_i hkey
      simp only [ExtTreeMap.getElem?_insert, Std.compare_eq_iff_eq] at he
      split at he
      · rename_i hk
        cases he
        rw [hk, if_pos (hk ▸ hkey)]
        exact .inr rfl
      · exact .inl he
    · exact .inl he

theorem Errand.onMap_of_notMem (hk : k ∉ keys) (body : Errand) :
    (body.run (HeldCall.onMap keys) m).2[k]? = m[k]? := by
  induction body generalizing m with
  | done => rfl
  | call c next ih => exact (ih _).trans (c.onMap_of_notMem hk)

theorem Errand.getElem?_onMap (body : Errand) {e : Entry}
    (he : (body.run (HeldCall.onMap keys) m).2[k]? = some e) :
    m[k]? = some e ∨ ⟨.put k e, true⟩ ∈ (body.run (HeldCall.onMap keys) m).1 := by
  induction body generalizing m with
  | done => exact .inl he
  | call c next ih =>
    rcases ih _ he with hbefore | hput
    · exact (c.getElem?_onMap hbefore).imp_right fun hcall => List.mem_cons.mpr (.inl hcall.symm)
    · exact .inr (List.mem_cons_of_mem _ hput)

end

namespace Keyspace

/-- Work on several keys answers and writes as on the finite map of what is seen, whichever keys are asked for and
however often: a call reaches the keys that were asked for and no others, an empty collection is not kept, and
nothing changes under other keys. -/
theorem withHeld_refines_map (ks : Keyspace) (keys : List Key) (body : Errand)
    (hput : ∀ k e, ⟨.put k e, true⟩ ∈ (body.run (HeldCall.onMap keys) ks.entries).1 → e.isDue ks.now = false) :
    let r := ks.withHeld keys (body.run HeldCall.onHeld)
    let r' := body.run (HeldCall.onMap keys) ks.entries
    r.1 = r'.1 ∧ r.2.entries = r'.2.filter (fun k e => !(keys.contains k && e.value.isEmptyCollection)) ∧
      ∀ k, k ∉ keys → r'.2[k]? = ks.entries[k]? ∧ r.2.row k = ks.row k := by
  intro r r'
  obtain ⟨hanswers, hshows⟩ := body.run_related (R := fun (h : Held) m => h.Shows keys m)
    (fun c _ _ h => c.onHeld_refines h) (Held.shows_ofKeys ks keys)
  have hothers (k : Key) (hk : k ∉ keys) : r'.2[k]? = ks.entries[k]? := body.onMap_of_notMem hk
  refine ⟨(withHeld_fst ks keys _).trans hanswers, ?_, fun k hk => ⟨hothers k hk, ?_⟩⟩
  · apply ExtTreeMap.ext_getElem?
    intro k
    have hlive : r.2.live k = _ := live_withHeld ks keys _ k
    rw [getElem?_entries, hlive, ExtTreeMap.getElem?_filter']
    by_cases hk : k ∈ keys
    · rw [if_pos hk, hshows.entry k, if_pos hk]
      cases hentry : r'.2[k]? with
      | none => rfl
      | some e =>
        have hdue : e.isDue ks.now = false := by
          rcases body.getElem?_onMap hentry with hseen | hwritten
          · rw [getElem?_entries] at hseen
            simpa using (Option.filter_eq_some_iff.mp hseen).2
          · exact hput k e hwritten
        cases hempty : e.value.isEmptyCollection <;>
          simp [Slot.nonempty, Slot.live, Option.filter, hk, hdue, hempty]
    · rw [if_neg hk, hothers k hk, getElem?_entries]
      cases ks.live k <;> simp [Option.filter, hk]
  · have hrow : r.2.row k = _ := row_withHeld ks keys _ k
    rw [hrow, if_neg hk]

/-- Keys asked for out of order and twice. An entry is moved, another one is put under a key that is not held, and
a list without elements is put, seen, and not kept. -/
theorem withHeld_refines_map_of_move :
    let e : Entry := ⟨.string [118], some 50⟩
    let ks := (new (fun _ => 0) .standard).set [115] e.value e.expiresAt
    let keys : List Key := [[120], [115], [100], [115]]
    let body : Errand := .call (.take [115]) fun taken => .call (.put [100] (taken.getD e)) fun _ =>
      .call (.put [116] e) fun _ => .call (.put [120] (.lasting (.list .empty))) fun _ =>
        .call (.get [120]) fun _ => .done
    let r := ks.withHeld keys (body.run HeldCall.onHeld)
    r.1 = [⟨.take [115], some e⟩, ⟨.put [100] e, true⟩, ⟨.put [116] e, false⟩,
        ⟨.put [120] (.lasting (.list .empty)), true⟩, ⟨.get [120], some (.lasting (.list .empty))⟩] ∧
      r.2.entries.toList = [([100], e)] := by
  intro e ks keys body r
  have hanswers : (body.run (HeldCall.onMap keys) ks.entries).1 = [⟨.take [115], some e⟩, ⟨.put [100] e, true⟩,
      ⟨.put [116] e, false⟩, ⟨.put [120] (.lasting (.list .empty)), true⟩,
      ⟨.get [120], some (.lasting (.list .empty))⟩] := by decide +kernel
  have hput : ∀ k e, ⟨.put k e, true⟩ ∈ (body.run (HeldCall.onMap keys) ks.entries).1 → e.isDue ks.now = false := by
    rw [hanswers]
    intro k e' hmem
    have hcases : k = [100] ∧ e' = e ∨ k = [120] ∧ e' = .lasting (.list .empty) := by simpa using hmem
    rcases hcases with ⟨-, rfl⟩ | ⟨-, rfl⟩ <;> decide
  obtain ⟨hsame, hentries, -⟩ := ks.withHeld_refines_map keys body hput
  exact ⟨hsame.trans hanswers, by rw [hentries]; decide +kernel⟩

end Keyspace

end KeyStore
