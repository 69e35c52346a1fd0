import Mathlib.Data.List.Perm.Subperm
import KeyStore.Proofs.Expirations
import KeyStore.Proofs.Expiry
import KeyStore.Proofs.Tidy

/-! Sweeps. Whatever keys are drawn, a sweep removes entries that have expired and nothing else, and counts
each of them once. It leaves none behind if it looks at all keys that carry an expiry; else it gives up after
a round in which few of the keys that were drawn had expired, or after its last round. -/
namespace KeyStore
open Std
namespace Keyspace

/-- In every round some keys are drawn among those that carry an expiry, `n` if there are so many. -/
structure Sampler.Draws (sampler : Sampler) (n : Nat) : Prop where
  nodup : ∀ round volatile, (sampler round volatile).Nodup
  mem : ∀ round volatile, ∀ k ∈ sampler round volatile, k ∈ volatile
  length : ∀ round volatile, (sampler round volatile).length = min n volatile.size

theorem Sampler.draws_first (n : Nat) : (Sampler.first n).Draws n where
  nodup _ volatile := (nodup_toList volatile).sublist (List.take_sublist n _)
  mem _ volatile k hk := ExtTreeSet.mem_toList.mp (List.mem_of_mem_take hk)
  length _ volatile := by rw [first, List.length_take, ExtTreeSet.length_toList]

theorem Sampler.Draws.mem_of_size_le {sampler : Sampler} {n : Nat} (h : sampler.Draws n) (round : Nat)
    {volatile : ExtTreeSet Key} (hsize : volatile.size ≤ n) {k : Key} (hk : k ∈ volatile) :
    k ∈ sampler round volatile := by
  have hsub : List.Subperm (sampler round volatile) volatile.toList :=
    List.subperm_of_subset (h.nodup round volatile) fun j hj => ExtTreeSet.mem_toList.mpr (h.mem round volatile j hj)
  have hperm := hsub.perm_of_length_le (by rw [h.length, ExtTreeSet.length_toList]; omega)
  exact hperm.mem_iff.mpr (ExtTreeSet.mem_toList.mpr hk)

/-- A round of a sweep: the keyspace that it finds and the keys that it looks at. -/
structure Round where
  keyspace : Keyspace
  sample : List Key

def Round.due (r : Round) : List Key := r.sample.filter r.keyspace.holdsDue

/-- Rounds that lead from one keyspace to another. In each some keys are drawn, and those that are due are
dropped; another one follows only if they were more than a quarter. -/
inductive Rounds (sampler : Sampler) : Nat → Keyspace → List Round → Keyspace → Prop
  | nil (round : Nat) (ks : Keyspace) : Rounds sampler round ks [] ks
  | cons {round : Nat} {ks ks' : Keyspace} {sample : List Key} {rs : List Round} :
    sampler round ks.volatile = sample → sample ≠ [] →
    (rs ≠ [] → sample.length < (Round.mk ks sample).due.length * 4) →
    Rounds sampler (round + 1) (expireEach sample ks).2 rs ks' → Rounds sampler round ks (⟨ks, sample⟩ :: rs) ks'

namespace Drops
variable {a b : Keyspace} {gone : List Key}

theorem holdsDue_iff (h : Drops a b gone) (k : Key) : b.holdsDue k = true ↔ a.holdsDue k = true ∧ k ∉ gone := by
  by_cases hk : k ∈ gone
  · have hnone : b.slot k = none := by rw [h.slot, if_pos hk]
    simp [holdsDue, hnone, hk]
  · have hslot : b.slot k = a.slot k := by rw [h.slot, if_neg hk]
    simp [holdsDue_of_slot_eq h.now hslot, hk]

theorem getElem?_cells (h : Drops a b gone) (ha : a.Tidy) (hb : b.Tidy) (k : Key) :
    b.cells[k]? = if k ∈ gone then none else a.cells[k]? := by
  rw [hb.getElem?_cells, ha.getElem?_cells, h.slot]
  split <;> rfl

theorem residentSize (h : Drops a b gone) (ha : a.Tidy) (hb : b.Tidy) :
    a.residentSize = b.residentSize + gone.length := by
  have hgone (k : Key) (hk : k ∈ gone) : k ∈ a.cells :=
    ExtTreeMap.mem_keys.mp (List.mem_filter.mp ((a.mem_dueKeys k).mpr (h.due k hk))).1
  have hmem : ∀ k, k ∈ a.cells ↔ k ∈ gone ++ b.cells.keys := by
    intro k
    rw [List.mem_append, ExtTreeMap.mem_keys, ExtTreeMap.mem_iff_isSome_getElem? (t := b.cells),
      h.getElem?_cells ha hb]
    by_cases hk : k ∈ gone
    · simp [hk, hgone k hk]
    · rw [if_neg hk, ← ExtTreeMap.mem_iff_isSome_getElem?, or_iff_right hk]
  have hnodup : (gone ++ b.cells.keys).Nodup := by
    refine List.nodup_append.mpr ⟨h.nodup, nodup_keys _, ?_⟩
    rintro k hk _ hk' rfl
    rw [ExtTreeMap.mem_keys, ExtTreeMap.mem_iff_isSome_getElem?, h.getElem?_cells ha hb, if_pos hk] at hk'
    cases hk'
  rw [Keyspace.residentSize, size_eq_length hnodup hmem, List.length_append, ExtTreeMap.length_keys,
    Nat.add_comm, Keyspace.residentSize]

end Drops

theorem expireIfDue_fst (ks : Keyspace) (k : Key) : (ks.expireIfDue k).1 = ks.holdsDue k := by
  rw [expireIfDue]
  split
  · exact ks.lapse_fst k
  · rename_i h
    exact (ks.holdsDue_of_notMem h).symm

theorem lazilyExpired_expireIfDue (ks : Keyspace) (k : Key) :
    (ks.expireIfDue k).2.lazilyExpired = ks.lazilyExpired := by
  have hlapse : (ks.lapse k).2.lazilyExpired = ks.lazilyExpired := by
    rw [lapse]
    split <;> rfl
  have hrelease : ((ks.lapse k).2.release k).lazilyExpired = (ks.lapse k).2.lazilyExpired := by
    rw [release]
    split <;> rfl
  rw [expireIfDue]
  split
  · rw [← hlapse, ← hrelease]
    dsimp only
    split <;> rfl
  · rfl

theorem drops_expireEach (keys : List Key) (hnd : keys.Nodup) (ks : Keyspace) :
    Drops ks (expireEach keys ks).2 (keys.filter ks.holdsDue) := by
  induction keys generalizing ks with
  | nil => exact .refl ks
  | cons k keys ih =>
    obtain ⟨hk, hnd⟩ := List.nodup_cons.mp hnd
    have hfirst := ks.drops_expireIfDue k
    have hothers : keys.filter (ks.expireIfDue k).2.holdsDue = keys.filter ks.holdsDue := by
      refine List.filter_congr fun j hj => Bool.eq_iff_iff.mpr ((hfirst.holdsDue_iff j).trans ?_)
      have hne : j ≠ k := fun h => hk (h ▸ hj)
      simp [hne]
    have hrest := ih hnd (ks.expireIfDue k).2
    rw [hothers] at hrest
    exact (List.filter_append (p := ks.holdsDue) [k] keys) ▸ hfirst.trans hrest

theorem expired_expireEach (keys : List Key) (ks : Keyspace) :
    (expireEach keys ks).2.expired = ks.expired + (expireEach keys ks).1 := by
  induction keys generalizing ks with
  | nil => rfl
  | cons k keys ih =>
    rw [expireEach]
    dsimp only
    rw [ih, expired_expireIfDue, expireIfDue_fst]
    split <;> omega

theorem expireEach_fst (keys : List Key) (hnd : keys.Nodup) (ks : Keyspace) :
    (expireEach keys ks).1 = (keys.filter ks.holdsDue).length := by
  have hcounted := expired_expireEach keys ks
  have hdropped := (drops_expireEach keys hnd ks).expired
  omega

namespace Rounds
variable {sampler : Sampler} {n round : Nat} {ks ks' : Keyspace} {rs : List Round}

/-- The rounds of a sweep drop what is due in each. -/
theorem drops (hdraws : sampler.Draws n) (h : Rounds sampler round ks rs ks') :
    Drops ks ks' (rs.flatMap Round.due) := by
  induction h with
  | nil round ks => exact .refl ks
  | @cons round ks _ sample rs hsample _ _ _ ih =>
    have hnodup : sample.Nodup := hsample ▸ hdraws.nodup round ks.volatile
    exact (drops_expireEach sample hnodup ks).trans ih

theorem length_due_le (hdraws : sampler.Draws n) (h : Rounds sampler round ks rs ks') :
    (rs.flatMap Round.due).length ≤ rs.length * n := by
  induction h with
  | nil round ks => exact Nat.zero_le _
  | @cons round ks _ sample rs hsample _ _ _ ih =>
    have hlength : sample.length = min n ks.volatile.size := hsample ▸ hdraws.length round ks.volatile
    have hdue : (Round.mk ks sample).due.length ≤ sample.length := List.length_filter_le ..
    rw [List.flatMap_cons, List.length_append, List.length_cons, Nat.succ_mul]
    omega

end Rounds

/-- A sweep makes rounds until it has made as many as it may, few of the keys drawn were due, or no key is left
to draw. -/
theorem sweepFrom_rounds {sampler : Sampler} {n : Nat} (hdraws : sampler.Draws n) (left round : Nat)
    (ks : Keyspace) :
    ∃ rs, Rounds sampler round ks rs (sweepFrom sampler round left ks).2 ∧
      (sweepFrom sampler round left ks).1 = (rs.flatMap Round.due).length ∧ rs.length ≤ left ∧
      (rs.length = left ∨ (∃ r ∈ rs.getLast?, r.due.length * 4 ≤ r.sample.length) ∨
        sampler (round + rs.length) (sweepFrom sampler round left ks).2.volatile = []) := by
  -- on the rounds that may still be made
  induction left generalizing round ks with
  | zero => exact ⟨[], .nil round ks, rfl, Nat.le_refl 0, .inl rfl⟩
  | succ left ih =>
    rw [sweepFrom]
    generalize hsample : sampler round ks.volatile = sample
    dsimp only
    have hnodup : sample.Nodup := hsample ▸ hdraws.nodup round ks.volatile
    have hdue : (expireEach sample ks).1 = (Round.mk ks sample).due.length := expireEach_fst sample hnodup ks
    by_cases hempty : sample = []
    · rw [if_pos (List.isEmpty_iff.mpr hempty)]
      exact ⟨[], .nil round ks, rfl, Nat.zero_le _, .inr (.inr (hsample.trans hempty))⟩
    · rw [if_neg (mt List.isEmpty_iff.mp hempty), hdue]
      by_cases hfew : (Round.mk ks sample).due.length * 4 ≤ sample.length
      · rw [if_pos hfew]
        refine ⟨[⟨ks, sample⟩], .cons hsample hempty (absurd rfl) (.nil ..), ?_, Nat.succ_le_succ (Nat.zero_le _), ?_⟩
        · rw [List.flatMap_singleton]
        · exact .inr (.inl ⟨_, rfl, hfew⟩)
      · rw [if_neg hfew]
        obtain ⟨rs, hrounds, hcount, hlength, hend⟩ := ih (round + 1) (expireEach sample ks).2
        refine ⟨⟨ks, sample⟩ :: rs, .cons hsample hempty (fun _ => Nat.lt_of_not_le hfew) hrounds, ?_,
          Nat.succ_le_succ hlength, ?_⟩
        · rw [List.flatMap_cons, List.length_append, hcount]
        · rcases hend with hall | ⟨r, hlast, hfew⟩ | hnone
          · exact .inl (congrArg (· + 1) hall)
          · exact .inr (.inl ⟨r, by rw [List.getLast?_cons, hlast]; rfl, hfew⟩)
          · rw [Nat.add_assoc, Nat.add_comm 1] at hnone
            exact .inr (.inr hnone)

theorem Tidy.mem_volatile_of_holdsDue {ks : Keyspace} (h : ks.Tidy) {k : Key} (hk : ks.holdsDue k = true) :
    k ∈ ks.volatile := (h.mem_volatile k).mpr (expiring_of_holdsDue hk)

theorem Sampler.Draws.eq_nil {sampler : Sampler} {n : Nat} (h : sampler.Draws n) (hn : 1 ≤ n) {round : Nat}
    {ks : Keyspace} (hks : ks.Tidy) (hnone : sampler round ks.volatile = []) (k : Key) :
    ks.holdsDue k = false := by
  have hlength := h.length round ks.volatile
  rw [hnone, List.length_nil] at hlength
  refine (Bool.not_eq_true _).mp fun hdue => ?_
  have hmem := h.mem_of_size_le round (by omega) (hks.mem_volatile_of_holdsDue hdue)
  rw [hnone] at hmem
  cases hmem

/-- If all keys are drawn in the first round, nothing is due after it. -/
theorem Rounds.nothing_due {sampler : Sampler} {n round : Nat} {ks ks' : Keyspace} {r : Round} {rs : List Round}
    (hdraws : sampler.Draws n) (hks : ks.Tidy) (hsize : ks.volatileSize ≤ n)
    (h : Rounds sampler round ks (r :: rs) ks') (k : Key) : ks'.holdsDue k = false := by
  refine (Bool.not_eq_true _).mp fun hleft => ?_
  obtain ⟨hdue, hgone⟩ := ((h.drops hdraws).holdsDue_iff k).mp hleft
  cases h with
  | cons hsample =>
    have hdrawn := hdraws.mem_of_size_le round hsize (hks.mem_volatile_of_holdsDue hdue)
    refine hgone ?_
    rw [List.flatMap_cons, List.mem_append]
    exact .inl (List.mem_filter.mpr ⟨hsample ▸ hdrawn, hdue⟩)

end Keyspace

namespace Engine
open Keyspace

/-- What a sweep does, whichever keys are drawn. Only entries that have expired go, and nothing else is seen to
change. Their number is told and counted, as swept and not as come across; it is at most sixteen times what is
drawn in a round. If all keys that carry an expiry are drawn at once, no expired entry is left; and if one is left,
there were sixteen rounds, or a last round in which at most a quarter of the keys drawn were due. -/
theorem sweep_exact (e : Engine Q) (he : e.Reachable) (n : Nat) (hn : 1 ≤ n) (sampler : Sampler)
    (hdraws : sampler.Draws n) :
    let ks := e.keyspace
    let count := (ks.sweep sampler).1
    let ks' := (ks.sweep sampler).2
    (∀ k : Key, ks'.cells[k]? = ks.cells[k]? ∨ ks.holdsDue k = true ∧ ks'.cells[k]? = none) ∧
    ks.Alike ks' ∧
    (ks.residentSize = ks'.residentSize + count ∧ ks'.activelyExpired = ks.activelyExpired + count ∧
      ks'.lazilyExpired = ks.lazilyExpired ∧ count ≤ 16 * n) ∧
    (ks.volatileSize ≤ n → ∀ k, ks'.holdsDue k = false) ∧
    ∃ rounds, Rounds sampler 0 ks rounds ks' ∧ count = (rounds.flatMap Round.due).length ∧ rounds.length ≤ 16 ∧
      ∀ k, ks'.holdsDue k = true → rounds.length = 16 ∨
        ∃ r ∈ rounds.getLast?, r.due.length * 4 ≤ r.sample.length := by
  intro ks count ks'
  obtain ⟨rounds, hrounds, hcount, hlength, hend⟩ := sweepFrom_rounds hdraws maxRounds 0 ks
  have hks : ks.Tidy := he.tidy
  have hks' : ks'.Tidy := lasting_tidy.after ks (.sweep sampler) hks
  have hdrops := hrounds.drops hdraws
  have hlazy : ks'.lazilyExpired = ks.lazilyExpired :=
    sweep_keeps (fun a k h => (a.lazilyExpired_expireIfDue k).trans h) ks sampler rfl
  have hnone (hempty : sampler (0 + rounds.length) ks'.volatile = []) (k : Key) : ks'.holdsDue k = false :=
    hdraws.eq_nil hn hks' hempty k
  refine ⟨fun k => ?_, alike_sweep ks sampler, ⟨?_, ?_, hlazy, ?_⟩, fun hsize k => ?_,
    rounds, hrounds, hcount, hlength, fun k hk => ?_⟩
  · have hcells := hdrops.getElem?_cells hks hks' k
    by_cases hk : k ∈ rounds.flatMap Round.due
    · exact .inr ⟨hdrops.due k hk, hcells.trans (if_pos hk)⟩
    · exact .inl (hcells.trans (if_neg hk))
  · exact (hdrops.residentSize hks hks').trans (congrArg (ks'.residentSize + ·) hcount.symm)
  · have hexpired : ks'.expired = ks.expired + count := hdrops.expired.trans (congrArg (ks.expired + ·) hcount.symm)
    rw [expired, expired, hlazy] at hexpired
    omega
  · calc count = (rounds.flatMap Round.due).length := hcount
      _ ≤ rounds.length * n := hrounds.length_due_le hdraws
      _ ≤ 16 * n := Nat.mul_le_mul_right n hlength
  · cases rounds with
    | cons r rs => exact hrounds.nothing_due hdraws hks hsize k
    | nil =>
      rcases hend with hall | ⟨r, hlast, -⟩ | hempty
      -- no round was made, so sixteen were not
      · cases hall
      · cases hlast
      · exact hnone hempty k
  · rcases hend with hall | hfew | hempty
    · exact .inl hall
    · exact .inr hfew
    · cases (hnone hempty k).symm.trans hk

/-- Two strings have expired, the first and the last of six. Two keys are drawn in a round: one of the first two is
due, none of the next two is, so the sweep ends and leaves the last string. -/
theorem sweep_exact_of_leftover :
    let set (k : Key) (millis : Nat) : Event := .execute (.onKeys (.set k [118] { expiry := .after millis })) 0
    let e := (new .default .standard).run
      [set [97] 5, set [98] 100, set [99] 100, set [100] 100, set [101] 100, set [102] 5, .advance 5]
    let count := (e.keyspace.sweep (.first 2)).1
    let ks' := (e.keyspace.sweep (.first 2)).2
    e.Reachable ∧ (Sampler.first 2).Draws 2 ∧ count = 1 ∧ ks'.holdsDue [102] = true ∧
      e.keyspace.residentSize = ks'.residentSize + 1 ∧
      ∃ rounds, Rounds (.first 2) 0 e.keyspace rounds ks' ∧
        (rounds.length = 16 ∨ ∃ r ∈ rounds.getLast?, r.due.length * 4 ≤ r.sample.length) := by
  intro set e count ks'
  have he : e.Reachable := ⟨_, _, _, rfl⟩
  have hcount : count = 1 := by decide
  have hleft : ks'.holdsDue [102] = true := by decide
  obtain ⟨-, -, ⟨hsize, -⟩, -, rounds, hrounds, -, -, hend⟩ := sweep_exact e he 2 (by decide) _ (Sampler.draws_first 2)
  exact ⟨he, Sampler.draws_first 2, hcount, hleft, hsize.trans (congrArg (ks'.residentSize + ·) hcount),
    rounds, hrounds, hend [102] hleft⟩

end Engine
end KeyStore
