import Mathlib.Data.Set.Card
import KeyStore.Proofs.Expirations
import KeyStore.Proofs.Links
import KeyStore.Proofs.Meaning
import KeyStore.Proofs.Tidy

/-! Figures: what INFO tells of the keyspace. It prints the number of keys that are seen beside the number of
keys that carry an expiry. The first leaves out the entries that have expired and have not been removed; the
second counts them. -/
namespace KeyStore
open Std

theorem ncard_eq_length [DecidableEq α] {xs : List α} (hnd : xs.Nodup) {s : Set α}
    (h : ∀ x, x ∈ xs ↔ x ∈ s) : s.ncard = xs.length := by
  have hs : (xs.toFinset : Set α) = s := by
    ext x
    rw [Finset.mem_coe, List.mem_toFinset, h]
  rw [← hs, Set.ncard_coe_finset, List.toFinset_card_of_nodup hnd]

namespace Keyspace

def liveKeys (ks : Keyspace) : Set Key := {k | ks.live k ≠ none}

def expiringKeys (ks : Keyspace) : Set Key := {k | ∃ e, ks.live k = some e ∧ e.expiresAt.isSome}

theorem ncard_liveKeys (ks : Keyspace) : ks.liveKeys.ncard = ks.size := by
  rw [← size_entries, ← ExtTreeMap.length_keys]
  apply ncard_eq_length (nodup_keys ks.entries)
  intro k
  rw [ExtTreeMap.mem_keys, ExtTreeMap.mem_iff_isSome_getElem?, getElem?_entries, Option.isSome_iff_ne_none]
  rfl

theorem finite_liveKeys (ks : Keyspace) : ks.liveKeys.Finite := by
  refine (List.finite_toSet ks.cells.keys).subset fun k hk => ?_
  exact ExtTreeMap.mem_keys.mpr (ks.mem_cells_of_live k (Option.isSome_iff_ne_none.mpr hk))

theorem ncard_expiringKeys_le (ks : Keyspace) : ks.expiringKeys.ncard ≤ ks.liveKeys.ncard := by
  refine Set.ncard_le_ncard (fun k hk => ?_) ks.finite_liveKeys
  obtain ⟨e, he, -⟩ := hk
  exact fun hnone => by simp [hnone] at he

/-- The index holds the keys that are seen and carry an expiry, and those of the entries that have expired. -/
theorem Tidy.volatileSize_eq_add {ks : Keyspace} (h : ks.Tidy) :
    ks.volatileSize = ks.expiringKeys.ncard + ks.dueKeys.length := by
  have hnd : ks.volatile.toList.Nodup := nodup_toList _
  -- the index is split by whether what a key holds has expired
  have hlive : ks.expiringKeys.ncard = (ks.volatile.toList.filter fun k => !ks.holdsDue k).length := by
    apply ncard_eq_length (hnd.filter _)
    intro k
    rw [List.mem_filter, ExtTreeSet.mem_toList, h.mem_volatile, Bool.not_eq_true']
    constructor
    · rintro ⟨⟨e, he, hexpires⟩, hnotdue⟩
      exact ⟨e, by rw [live_eq_ite, hnotdue, ← he]; rfl, hexpires⟩
    · rintro ⟨e, he, hexpires⟩
      rw [live_eq_ite] at he
      split at he
      · cases he
      · rename_i hnotdue
        exact ⟨⟨e, he, hexpires⟩, (Bool.not_eq_true _).mp hnotdue⟩
  have hdue : (ks.volatile.toList.filter ks.holdsDue).Perm ks.dueKeys := by
    apply (List.perm_ext_iff_of_nodup (hnd.filter _) ks.nodup_dueKeys).mpr
    intro k
    rw [List.mem_filter, ExtTreeSet.mem_toList, h.mem_volatile, mem_dueKeys, and_iff_right_iff_imp]
    exact expiring_of_holdsDue
  rw [volatileSize, ← ExtTreeSet.length_toList, hlive, ← hdue.length_eq, Nat.add_comm]
  exact List.length_eq_length_filter_add _

end Keyspace

namespace Engine

def keyspaceTopics : List (Option String) :=
  [none, some "keyspace", some "all", some "everything", some "default"]

theorem info_of_keyspaceTopics (e : Engine Q) {topic : Option String} (h : topic ∈ keyspaceTopics) :
    ∃ rest, e.info topic = e.keyspaceInfo ++ rest := by
  have hshows : ((topic.all fun t => ["all", "everything", "default"].contains t) ||
      topic == some "keyspace") = true := by
    revert topic
    decide
  simp only [info]
  rw [if_pos hshows, String.append_assoc, String.append_assoc]
  exact ⟨_, rfl⟩

/-- What INFO tells of a keyspace in which something is seen. -/
def figures (keys expires : Nat) : String :=
  "# Keyspace" ++ crlf ++ "db0:keys=" ++ toString keys ++ ",expires=" ++ toString expires ++ crlf ++ crlf

theorem keyspaceInfo_eq (e : Engine Q) (h : e.keyspace.size ≠ 0) :
    e.keyspaceInfo = figures e.keyspace.size e.keyspace.volatileSize := by
  rw [keyspaceInfo, figures, if_neg h]
  simp only [String.append_assoc]

/-- INFO tells how many keys are seen. Beside it stands how many of them carry an expiry, and in the same
figure how many keys hold an entry that has expired and is still there. The first two are in proportion
always; so the figures are, as long as no such entry is there. -/
theorem figures_told (e : Engine Q) (he : e.Reachable) (hlive : e.keyspace.liveKeys.Nonempty)
    (topic : Option String) (htopic : topic ∈ keyspaceTopics) (nanos : Nat) :
    let keys := e.keyspace.liveKeys.ncard
    let expiring := e.keyspace.expiringKeys.ncard
    let due := e.keyspace.dueKeys.length
    expiring ≤ keys ∧ ∃ rest, (e.execute (.onServer (.info topic)) nanos).1 =
      .ok (.text (figures keys (expiring + due) ++ rest)) := by
  intro keys expiring due
  refine ⟨e.keyspace.ncard_expiringKeys_le, ?_⟩
  have hsize : e.keyspace.size ≠ 0 := by
    rw [← e.keyspace.ncard_liveKeys]
    exact ((Set.ncard_pos e.keyspace.finite_liveKeys).mpr hlive).ne'
  have hfigures : e.keyspaceInfo = figures keys (expiring + due) := by
    rw [e.keyspaceInfo_eq hsize, ← e.keyspace.ncard_liveKeys, he.tidy.volatileSize_eq_add]
  obtain ⟨rest, hinfo⟩ := e.info_of_keyspaceTopics htopic
  refine ⟨rest, ?_⟩
  rw [← hfigures, ← hinfo]
  rfl

/-- A string that lasts, one that expires, and one that has expired and was not looked for. -/
theorem figures_told_of_session :
    let set (k : Key) (expiry : SetExpiry) : Event := .execute (.onKeys (.set k [118] { expiry })) 0
    let e := (new .default .standard).run [
      set [97] .clear, set [98] (.after 9), set [99] (.after 5), .advance 5]
    e.Reachable ∧ e.keyspace.liveKeys.Nonempty ∧ some "keyspace" ∈ keyspaceTopics ∧
      e.keyspace.liveKeys.ncard = 2 ∧ e.keyspace.expiringKeys.ncard = 1 ∧ e.keyspace.dueKeys.length = 1 ∧
      1 ≤ 2 ∧ ∃ rest, (e.execute (.onServer (.info (some "keyspace"))) 0).1 =
        .ok (.text (figures 2 (1 + 1) ++ rest)) := by
  intro set e
  have he : e.Reachable := ⟨_, _, _, rfl⟩
  have hlive : e.keyspace.liveKeys.Nonempty := ⟨[97], (by decide : e.keyspace.live [97] ≠ none)⟩
  have hsize : e.keyspace.size = 2 := by decide
  have hvolatile : e.keyspace.volatileSize = 2 := by decide
  have hdue : e.keyspace.dueKeys.length = 1 := by decide
  have hkeys := e.keyspace.ncard_liveKeys.trans hsize
  have hexpiring : e.keyspace.expiringKeys.ncard = 1 := by
    have hadd := he.tidy.volatileSize_eq_add
    omega
  obtain ⟨hle, hinfo⟩ := e.figures_told he hlive (some "keyspace") (by decide) 0
  rw [hkeys, hexpiring] at hle
  rw [hkeys, hexpiring, hdue] at hinfo
  exact ⟨he, hlive, by decide, hkeys, hexpiring, hdue, hle, hinfo⟩

/-- Of three strings two have expired and are still there. No key that is seen carries an expiry, and INFO tells
of one key, and that two expire. -/
theorem figures_out_of_proportion :
    let set (k : Key) (expiry : SetExpiry) : Event := .execute (.onKeys (.set k [118] { expiry })) 0
    let e := (new .default .standard).run [
      set [97] (.after 5), set [98] (.after 5), set [99] .clear, .advance 5]
    e.keyspace.liveKeys.ncard = 1 ∧ e.keyspace.expiringKeys.ncard = 0 ∧
      ∃ rest, (e.execute (.onServer (.info (some "keyspace"))) 0).1 = .ok (.text (figures 1 2 ++ rest)) := by
  intro set e
  have he : e.Reachable := ⟨_, _, _, rfl⟩
  have hkeys : e.keyspace.size = 1 := by decide
  have hvolatile : e.keyspace.volatileSize = 2 := by decide
  have hdue : e.keyspace.dueKeys.length = 2 := by decide
  have hexpiring := he.tidy.volatileSize_eq_add
  refine ⟨e.keyspace.ncard_liveKeys.trans hkeys, by omega, ?_⟩
  obtain ⟨rest, hinfo⟩ := e.info_of_keyspaceTopics (by decide : some "keyspace" ∈ keyspaceTopics)
  refine ⟨rest, ?_⟩
  rw [← hkeys, ← hvolatile, ← e.keyspaceInfo_eq (by omega), ← hinfo]
  rfl

end Engine
end KeyStore
