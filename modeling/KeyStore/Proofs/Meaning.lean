import KeyStore.Proofs.Rows
import KeyStore.Task

/-! Meanings: what a task does, told on the live view alone. Its outcome and the view that it leaves
depend on nothing else that a keyspace holds. -/
namespace KeyStore
open Std

/-- What commands see: each key with its live entry. -/
abbrev View := Key → Slot

namespace View

/-- The view after a slot was written; what is empty or has expired already is not seen. -/
def write (v : View) (now : Instant) (k : Key) (s : Slot) : View :=
  fun j => if k = j then s.nonempty.live now else v j

def without (v : View) (k : Key) : View := fun j => if k = j then none else v j

def removeEach : List Key → View → Nat × View
  | [], v => (0, v)
  | k :: keys, v =>
    let r := removeEach keys (v.without k)
    (if (v k).isSome then r.1 + 1 else r.1, r.2)

end View

/-- The outcome of a task and the view it leaves. -/
def Task.meaning (now : Instant) (v : View) : Task → Except Error Reply × View
  | refuse e => (.error e, v)
  | look key f => (f (v key), v)
  | lookEach keys f => (.ok (f (keys.map v)), v)
  | edit key f => let r := f (v key); (r.1, v.write now key r.2)
  | removeEach keys => let r := View.removeEach keys v; (.ok (.count r.1), r.2)
  | together keys f =>
    let r := f (.ofKeys keys v)
    (r.1, fun j => if keys.contains j then (r.2.entry j).nonempty.live now else v j)

namespace Keyspace

theorem live_readEach (f : Slot → α) (keys : List Key) (ks : Keyspace) :
    (readEach f keys ks).2.live = ks.live := by
  induction keys generalizing ks with
  | nil => rfl
  | cons k keys ih =>
    funext j
    rw [readEach, ih, live_read]

theorem readEach_fst (f : Slot → α) (keys : List Key) (ks : Keyspace) :
    (readEach f keys ks).1 = keys.map fun k => f (ks.live k) := by
  induction keys generalizing ks with
  | nil => rfl
  | cons k keys ih =>
    have hlive : (ks.read k f).2.live = ks.live := funext (live_read ks k · f)
    rw [readEach]
    dsimp only
    rw [ih, read_fst, hlive, List.map_cons]

theorem removeEach_meaning (keys : List Key) (ks : Keyspace) :
    (removeEach keys ks).1 = (View.removeEach keys ks.live).1 ∧
      (removeEach keys ks).2.live = (View.removeEach keys ks.live).2 := by
  induction keys generalizing ks with
  | nil => exact ⟨rfl, rfl⟩
  | cons k keys ih =>
    have hlive : (ks.remove k).2.live = View.without ks.live k := funext (live_remove ks k)
    obtain ⟨hn, hv⟩ := ih (ks.remove k).2
    rw [hlive] at hn hv
    rw [removeEach, View.removeEach]
    dsimp only
    rw [hn, hv, remove_fst]
    exact ⟨rfl, rfl⟩

def entries (ks : Keyspace) : ExtTreeMap Key Entry := ks.cells.filterMap fun _ s => s.live ks.now

theorem getElem?_entries (ks : Keyspace) (k : Key) : ks.entries[k]? = ks.live k := by
  rw [entries, ExtTreeMap.getElem?_filterMap']
  cases h : ks.cells[k]? with
  | none => simp [live, slot, h]
  | some s => simp [live, slot, h]

theorem size_entries (ks : Keyspace) : ks.entries.size = ks.size := by
  rw [← ExtTreeMap.length_toList, entries, ExtTreeMap.toList_filterMap,
    List.length_filterMap_eq_countP, size]
  apply List.countP_congr
  intro c _
  simp

theorem size_eq_of_live {ks ks' : Keyspace} (h : ks.live = ks'.live) : ks.size = ks'.size := by
  have hentries : ks.entries = ks'.entries := by
    apply ExtTreeMap.ext_getElem?
    intro k
    rw [getElem?_entries, getElem?_entries, h]
  rw [← size_entries, ← size_entries, hentries]

theorem live_flush (ks : Keyspace) : ks.flush.2.live = fun _ => none := by
  funext k
  simp [flush, live, slot]

end Keyspace

namespace Task
open Keyspace

/-- A task does what it means. -/
theorem run_meaning (t : Task) (ks : Keyspace) :
    (t.run ks).1 = (t.meaning ks.now ks.live).1 ∧
      (t.run ks).2.live = (t.meaning ks.now ks.live).2 := by
  cases t with
  | refuse e => exact ⟨rfl, rfl⟩
  | look key f => exact ⟨read_fst ks key f, funext (live_read ks key · f)⟩
  | lookEach keys f =>
    refine ⟨?_, live_readEach id keys ks⟩
    exact congrArg (fun slots => Except.ok (f slots)) (readEach_fst id keys ks)
  | edit key f => exact ⟨update_fst ks key f, funext (live_update ks key · f)⟩
  | removeEach keys =>
    obtain ⟨hn, hv⟩ := removeEach_meaning keys ks
    exact ⟨congrArg (fun n => Except.ok (Reply.count n)) hn, hv⟩
  | together keys f =>
    refine ⟨withHeld_fst ks keys f, funext fun j => ?_⟩
    simp only [run, meaning, List.contains_iff_mem]
    exact live_withHeld ks keys f j

end Task
end KeyStore
