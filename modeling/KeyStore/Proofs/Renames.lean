import KeyStore.Proofs.Cardinalities
import KeyStore.Proofs.Scan

/-! Renames. A rename takes one entry from under one key and puts it under another, with its expiry and over
whatever is there. All books follow: the cells of the two keys, the index of the keys that expire, and the
number of keys. Nothing else is touched. -/
namespace KeyStore
open Std

namespace Keyspace

/-- The second keyspace is the first after the entry of one key was put under another. -/
structure Moved (ks ks' : Keyspace) (source destination : Key) (entry : Entry) : Prop where
  arrives : ks'.live destination = some entry
  leaves : ks'.live source = none
  /-- Every other key shows what it showed, and the books keep the same about it. -/
  others : ∀ k, k ≠ source → k ≠ destination → ks'.live k = ks.live k ∧ ks'.row k = ks.row k
  /-- The index lists the destination just when the entry expires. -/
  listed : destination ∈ ks'.volatile ↔ entry.expiresAt.isSome
  unlisted : source ∉ ks'.volatile
  /-- There is one key less if the destination held something, and as many as before if not. -/
  size : ks'.size + (if (ks.live destination).isSome then 1 else 0) = ks.size

def renamed (ks : Keyspace) (source destination : Key) : Keyspace :=
  (ks.withHeld [source, destination] (KeyCommand.renameHeld source destination)).2

variable {ks : Keyspace} {source destination : Key} {entry : Entry}

theorem row_renamed (htidy : ks.Tidy) (hentry : ks.live source = some entry) (destination k : Key) :
    (ks.renamed source destination).row k =
      if destination = k then .tidy (some entry) else if source = k then .tidy none else ks.row k := by
  have hnonempty : Slot.nonempty (some entry) = some entry := by
    rw [← hentry]
    exact htidy.live_nonempty source
  have hheld : (Held.ofKeys [source, destination] ks.live).entry source = ks.live source :=
    Held.entry_ofKeys_of_mem List.mem_cons_self _
  have hok : (KeyCommand.renameHeld source destination (.ofKeys [source, destination] ks.live)).1 = .ok .ok := by
    rw [KeyCommand.renameHeld_fst, hheld, hentry]
    rfl
  rw [renamed, row_withHeld]
  by_cases hd : destination = k
  · subst hd
    rw [if_pos (by simp), if_pos rfl, KeyCommand.entry_renameHeld_self (Held.mem_ofKeys (by simp) _) hok,
      hheld, hentry, hnonempty]
  · rw [if_neg hd, KeyCommand.entry_renameHeld_of_ne source destination _ hd]
    by_cases hs : source = k
    · subst hs
      simp
    · rw [if_neg (by simp [Ne.symm hs, Ne.symm hd]), if_neg hs]

theorem live_renamed (htidy : ks.Tidy) (hentry : ks.live source = some entry) (destination k : Key) :
    (ks.renamed source destination).live k =
      if destination = k then some entry else if source = k then none else ks.live k := by
  have hstays : Slot.live (some entry) ks.now = some entry := by
    rw [← hentry]
    exact Slot.live_live _ _
  have hnow : (ks.renamed source destination).now = ks.now := now_withHeld ..
  rw [live, ← slot_row, row_renamed htidy hentry, hnow]
  split
  · rw [Row.slot_tidy, hstays]
  · split <;> rfl

theorem entries_renamed (htidy : ks.Tidy) (hentry : ks.live source = some entry) :
    (ks.renamed source destination).entries = (ks.entries.erase source).insert destination entry := by
  apply ExtTreeMap.ext_getElem?
  intro k
  simp only [getElem?_entries, live_renamed htidy hentry, ExtTreeMap.getElem?_insert,
    ExtTreeMap.getElem?_erase, Std.compare_eq_iff_eq]

theorem size_renamed (htidy : ks.Tidy) (hne : source ≠ destination) (hentry : ks.live source = some entry) :
    (ks.renamed source destination).size + (if (ks.live destination).isSome then 1 else 0) = ks.size := by
  have hcontains (k : Key) : ks.entries.contains k = (ks.live k).isSome := by
    rw [ExtTreeMap.contains_eq_isSome_getElem?, getElem?_entries]
  have herase := size_erase_add ks.entries source
  rw [hcontains, hentry] at herase
  have hkept : (ks.entries.erase source).contains destination = (ks.live destination).isSome := by
    rw [ExtTreeMap.contains_erase, hcontains]
    simp [hne]
  rw [← size_entries, ← size_entries, entries_renamed htidy hentry, ExtTreeMap.size_insert, hkept, ← herase]
  split <;> rfl

theorem Tidy.moved (htidy : ks.Tidy) (hne : source ≠ destination) (hentry : ks.live source = some entry) :
    Moved ks (ks.renamed source destination) source destination entry := by
  have hlive := live_renamed htidy hentry destination
  have hrow := row_renamed htidy hentry destination
  constructor
  case arrives => rw [hlive, if_pos rfl]
  case leaves => rw [hlive, if_neg hne.symm, if_pos rfl]
  case others =>
    intro k hs hd
    rw [hlive, hrow, if_neg hd.symm, if_neg hs.symm, if_neg hd.symm, if_neg hs.symm]
    exact ⟨rfl, rfl⟩
  case listed =>
    have hindexed := congrArg Row.indexed (hrow destination)
    rw [if_pos rfl] at hindexed
    exact Bool.eq_iff_iff.mp hindexed
  case unlisted =>
    have hindexed := congrArg Row.indexed (hrow source)
    rw [if_neg hne.symm, if_pos rfl] at hindexed
    exact fun hmem => Bool.false_ne_true (hindexed.symm.trans hmem)
  case size => exact size_renamed htidy hne hentry

/-- Moved to a key that showed nothing and back, an entry is where it was. -/
theorem Moved.back {ks' ks'' : Keyspace} (h : Moved ks ks' source destination entry)
    (h' : Moved ks' ks'' destination source entry) (hentry : ks.live source = some entry)
    (habsent : ks.live destination = none) (k : Key) : ks''.live k = ks.live k := by
  by_cases hs : k = source
  · rw [hs, h'.arrives, hentry]
  · by_cases hd : k = destination
    · rw [hd, h'.leaves, habsent]
    · rw [(h'.others k hd hs).1, (h.others k hs hd).1]

end Keyspace

namespace Engine
open Keyspace

theorem execute_rename_fst (e : Engine Q) (source destination : Key) (nanos : Nat) :
    (e.execute (.onKeys (.rename source destination)) nanos).1 =
      if (e.keyspace.live source).isSome then .ok .ok else .error .noSuchKey := by
  rw [(e.execute_onKeys _ nanos).1, KeyCommand.task]
  split
  · rfl
  · rw [Task.meaning]
    dsimp only
    rw [KeyCommand.renameHeld_fst, Held.entry_ofKeys_of_mem List.mem_cons_self]

theorem execute_rename_eq_ok_iff (e : Engine Q) (source destination : Key) (nanos : Nat) :
    (e.execute (.onKeys (.rename source destination)) nanos).1 = .ok .ok ↔
      ∃ entry, e.keyspace.live source = some entry := by
  rw [execute_rename_fst]
  cases e.keyspace.live source <;> simp

theorem execute_rename_eq_error_iff (e : Engine Q) (source destination : Key) (nanos : Nat) :
    (e.execute (.onKeys (.rename source destination)) nanos).1 = .error .noSuchKey ↔
      e.keyspace.live source = none := by
  rw [execute_rename_fst]
  cases e.keyspace.live source <;> simp

theorem execute_rename_of_ne (e : Engine Q) {source destination : Key} (hne : source ≠ destination)
    (nanos : Nat) : (e.execute (.onKeys (.rename source destination)) nanos).2.keyspace =
      e.keyspace.renamed source destination := by
  have htask : (KeyCommand.rename source destination).task e.keyspace.clock =
      .together [source, destination] (KeyCommand.renameHeld source destination) := if_neg hne
  rw [e.keyspace_execute_onKeys, htask]
  rfl

theorem execute_rename_self (e : Engine Q) {key : Key} (hkey : (e.keyspace.live key).isSome) (nanos : Nat) :
    (e.execute (.onKeys (.rename key key)) nanos).2.keyspace = e.keyspace := by
  have htask : (KeyCommand.rename key key).task e.keyspace.clock =
      .look key fun s => if s.isSome then .ok .ok else .error .noSuchKey := if_pos rfl
  rw [e.keyspace_execute_onKeys, htask]
  exact e.keyspace.read_snd_of_live key _ hkey

/-- A rename succeeds just when its source shows an entry, and fails for want of one. To another key it moves
the entry, and the number of keys that is told goes down by one if that key showed something. To the same key
it changes nothing, and neither does a rename that fails. A rename back from a key that showed nothing before
shows everything as it was. -/
theorem rename_moves (e : Engine Q) (he : e.Reachable) (source destination : Key) (nanos : Nat) :
    let rename (e : Engine Q) (source destination : Key) :=
      e.execute (.onKeys (.rename source destination)) nanos
    let size (e : Engine Q) := (e.execute (.onServer .dbsize) nanos).1
    let out := (rename e source destination).1
    let after := (rename e source destination).2
    (out = .ok .ok ↔ ∃ entry, e.keyspace.live source = some entry) ∧
    (out = .error .noSuchKey ↔ e.keyspace.live source = none) ∧
    (source ≠ destination → ∀ entry, e.keyspace.live source = some entry →
      Moved e.keyspace after.keyspace source destination entry ∧
      ∃ n, size after = .ok (.count n) ∧
        size e = .ok (.count (n + if (e.keyspace.live destination).isSome then 1 else 0))) ∧
    (source = destination → (∀ k, after.keyspace.live k = e.keyspace.live k) ∧
      (out = .ok .ok → after.keyspace = e.keyspace ∧ after.broker = e.broker ∧ after.config = e.config)) ∧
    (out = .error .noSuchKey → ∀ k, after.keyspace.live k = e.keyspace.live k) ∧
    (out = .ok .ok → e.keyspace.live destination = none →
      (rename after destination source).1 = .ok .ok ∧
      ∀ k, (rename after destination source).2.keyspace.live k = e.keyspace.live k) := by
  intro rename size out after
  have hok : out = .ok .ok ↔ ∃ entry, e.keyspace.live source = some entry :=
    e.execute_rename_eq_ok_iff source destination nanos
  have herr : out = .error .noSuchKey ↔ e.keyspace.live source = none :=
    e.execute_rename_eq_error_iff source destination nanos
  have hfails (h : out = .error .noSuchKey) (k : Key) : after.keyspace.live k = e.keyspace.live k :=
    (e.sheds_of_error he.tidy _ _ h).live k
  have hmoved (e : Engine Q) (htidy : e.keyspace.Tidy) {source destination : Key} {entry : Entry}
      (hne : source ≠ destination) (hentry : e.keyspace.live source = some entry) :
      Moved e.keyspace (rename e source destination).2.keyspace source destination entry := by
    rw [e.execute_rename_of_ne hne nanos]
    exact htidy.moved hne hentry
  refine ⟨hok, herr, fun hne entry hentry => ?_, fun hsame => ?_, hfails, fun hmoves habsent => ?_⟩
  · have hentry' := hmoved e he.tidy hne hentry
    exact ⟨hentry', after.keyspace.size, rfl, congrArg (fun n => Except.ok (Reply.count n)) hentry'.size.symm⟩
  · have hstays (h : out = .ok .ok) : after.keyspace = e.keyspace := by
      obtain ⟨entry, hentry⟩ := hok.mp h
      subst hsame
      exact e.execute_rename_self (Option.isSome_of_mem hentry) nanos
    refine ⟨fun k => ?_, fun h => ⟨hstays h, rfl, rfl⟩⟩
    cases hsource : e.keyspace.live source with
    | none => exact hfails (herr.mpr hsource) k
    | some entry => rw [hstays (hok.mpr ⟨entry, hsource⟩)]
  · obtain ⟨entry, hentry⟩ := hok.mp hmoves
    have hne : source ≠ destination := by
      rintro rfl
      cases hentry.symm.trans habsent
    -- the way back is a move too, from a key that was free before
    have hthere := hmoved e he.tidy hne hentry
    have htidy : after.keyspace.Tidy := lasting_tidy.execute e _ nanos he.tidy
    have hback := hmoved after htidy hne.symm hthere.arrives
    exact ⟨(after.execute_rename_eq_ok_iff destination source nanos).mpr ⟨entry, hthere.arrives⟩,
      hthere.back hback hentry habsent⟩

/-- A set that expires is moved over a string, to a key whose entry has expired unnoticed and back again. From
that key there is nothing to move, and to its own key the string is not moved. -/
theorem rename_moves_of_expiring :
    let e := (new .default .standard).run [
      .execute (.onKeys (.sadd [115] [[97], [98]])) 0,
      .execute (.onKeys (.expire [115] 50)) 0,
      .execute (.onKeys (.set [100] [118] {})) 0,
      .execute (.onKeys (.set [120] [119] { expiry := .after 5 })) 0,
      .advance 5]
    let rename (e : Engine Queue) (source destination : Key) := e.execute (.onKeys (.rename source destination)) 0
    let back := rename (rename e [115] [120]).2 [120] [115]
    e.Reachable ∧ e.keyspace.residentSize = 3 ∧
      (∃ entry, entry.expiresAt = some 50 ∧
        Moved e.keyspace (rename e [115] [100]).2.keyspace [115] [100] entry) ∧
      back.1 = .ok .ok ∧ (∀ k, back.2.keyspace.live k = e.keyspace.live k) ∧
      (rename e [120] [100]).1 = .error .noSuchKey ∧
      (∀ k, (rename e [120] [100]).2.keyspace.live k = e.keyspace.live k) ∧
      (rename e [100] [100]).2.keyspace = e.keyspace := by
  intro e rename back
  have he : e.Reachable := ⟨_, _, _, rfl⟩
  obtain ⟨-, -, hmoved, -, -, -⟩ := e.rename_moves he [115] [100] 0
  obtain ⟨-, -, -, -, -, hback⟩ := e.rename_moves he [115] [120] 0
  obtain ⟨-, -, -, -, hfails, -⟩ := e.rename_moves he [120] [100] 0
  obtain ⟨-, -, -, hself, -, -⟩ := e.rename_moves he [100] [100] 0
  have hmoves : (e.execute (.onKeys (.rename [115] [120])) 0).1 = .ok .ok :=
    (e.execute_rename_eq_ok_iff [115] [120] 0).mpr ⟨_, rfl⟩
  have hnothing : (e.execute (.onKeys (.rename [120] [100])) 0).1 = .error .noSuchKey :=
    (e.execute_rename_eq_error_iff [120] [100] 0).mpr rfl
  obtain ⟨hok, hsame⟩ := hback hmoves rfl
  exact ⟨he, by decide, ⟨_, rfl, (hmoved (by decide) _ rfl).1⟩, hok, hsame, hnothing, hfails hnothing,
    ((hself rfl).2 rfl).1⟩

end Engine
end KeyStore
