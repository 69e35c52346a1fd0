import KeyStore.Proofs.CaseRuns
import KeyStore.Text.LowerCase

/-! Small letters. What a letter is mapped to has no small form but itself; so a text in small letters stays
as it is. -/
namespace KeyStore
namespace Text

def asciiCapitals : CaseRun := ⟨0x41, 0x5A, 1, 32⟩

/-- The letters whose small form is one other letter. -/
def capitalRuns : List CaseRun := asciiCapitals :: lowerRuns

structure IsSmall (c : Char) : Prop where
  run : CaseRun.find? capitalRuns c.toNat = none
  expansion : lowerExpansions.lookup c.toNat = none

instance (c : Char) : Decidable (IsSmall c) :=
  decidable_of_iff _ ⟨fun h => ⟨h.1, h.2⟩, fun h => And.intro h.run h.expansion⟩

theorem valid_of_mem_capitalRuns : ∀ r ∈ capitalRuns, r.Valid := by decide +kernel

/-- No run leads into a run, or to a letter that becomes several. -/
theorem misses_of_mem_capitalRuns :
    ∀ r ∈ capitalRuns, (capitalRuns ++ lowerExpansions.map fun p => CaseRun.mk p.1 p.1 1 0).all r.misses = true := by
  decide +kernel

theorem isSmall_of_map? {r : CaseRun} (hr : r ∈ capitalRuns) {n m : Nat} (hm : r.map? n = some m) :
    IsSmall (Char.ofNat m) := by
  have hvalid := valid_of_mem_capitalRuns r hr
  have hmisses := List.all_eq_true.mp (misses_of_mem_capitalRuns r hr)
  have hnone (s : CaseRun) (hs) : s.map? m = none := CaseRun.map?_eq_none_of_misses (hmisses s hs) hvalid hm
  have hcode := hvalid.toNat_ofNat hm
  constructor
  · rw [hcode, CaseRun.find?_eq_none_iff]
    exact fun s hs => hnone s (List.mem_append_left _ hs)
  · rw [hcode, List.lookup_eq_none_iff]
    intro p hp
    have hp := hnone _ (List.mem_append_right _ (List.mem_map_of_mem hp))
    rw [CaseRun.map?_eq_none_iff] at hp
    refine bne_iff_ne.mpr fun heq => hp ?_
    rw [heq, Nat.sub_self]
    exact ⟨Nat.le_refl _, Nat.le_refl _, Nat.zero_mod _⟩

theorem ascii_unmoved {n : Nat} (hn : n < 128) :
    lowerExpansions.lookup n = none ∧ CaseRun.find? lowerRuns n = none := by
  have hexpansions : ∀ p ∈ lowerExpansions, 128 ≤ p.1 := by decide
  have hruns : ∀ r ∈ lowerRuns, 128 ≤ r.first := by decide +kernel
  constructor
  · rw [List.lookup_eq_none_iff]
    intro p hp
    have hp := hexpansions p hp
    exact bne_iff_ne.mpr (by omega)
  · rw [CaseRun.find?_eq_none_iff]
    intro r hr
    have hr := hruns r hr
    rw [CaseRun.map?_eq_none_iff]
    omega

/-- A character has a small form by its expansion, by its run, or none but itself. -/
theorem lowerChar_eq (c : Char) :
    lowerChar c = match lowerExpansions.lookup c.toNat with
      | some ns => ns.map Char.ofNat
      | none => [((CaseRun.find? capitalRuns c.toNat).map Char.ofNat).getD c] := by
  have hfind : CaseRun.find? capitalRuns c.toNat =
      (asciiCapitals.map? c.toNat).or (CaseRun.find? lowerRuns c.toNat) := by
    rw [CaseRun.find?, capitalRuns, List.findSome?_cons]
    cases asciiCapitals.map? c.toNat <;> rfl
  rw [lowerChar, hfind]
  by_cases hc : c.toNat < 128
  · have hletter : ∀ n : Fin 128, (Char.ofNat n).toLower =
        ((asciiCapitals.map? n).map Char.ofNat).getD (Char.ofNat n) := by decide
    have hletter := hletter ⟨c.toNat, hc⟩
    rw [Char.ofNat_toNat] at hletter
    rw [if_pos hc, (ascii_unmoved hc).1, (ascii_unmoved hc).2, Option.or_none, hletter]
  · have hcapital : asciiCapitals.map? c.toNat = none := by
      rw [CaseRun.map?_eq_none_iff, asciiCapitals]
      dsimp only
      omega
    rw [hcapital, Option.none_or]
    exact if_neg hc

theorem isSmall_of_mem_lowerChar {c d : Char} (hd : d ∈ lowerChar c) : IsSmall d := by
  have hexpanded : ∀ p ∈ lowerExpansions, ∀ n ∈ p.2, IsSmall (Char.ofNat n) := by decide +kernel
  rw [lowerChar_eq] at hd
  split at hd
  · rename_i ns hlookup
    obtain ⟨n, hn, rfl⟩ := List.mem_map.mp hd
    exact hexpanded (c.toNat, ns) (mem_of_lookup hlookup) n hn
  · rename_i hlookup
    rw [List.mem_singleton] at hd
    cases hfind : CaseRun.find? capitalRuns c.toNat with
    | none =>
      rw [hfind] at hd
      exact hd ▸ ⟨hfind, hlookup⟩
    | some m =>
      rw [hfind] at hd
      obtain ⟨r, hr, hm⟩ := CaseRun.find?_eq_some hfind
      exact hd ▸ isSmall_of_map? hr hm

theorem IsSmall.lowerChar {c : Char} (h : IsSmall c) : lowerChar c = [c] := by
  rw [lowerChar_eq, h.expansion, h.run]
  rfl

theorem isSmall_of_mem_lowerFrom {before cs : List Char} {d : Char} (hd : d ∈ lowerFrom before cs) :
    IsSmall d := by
  induction cs generalizing before with
  | nil => cases hd
  | cons c cs ih =>
    rw [lowerFrom, List.mem_append] at hd
    rcases hd with hfirst | hrest
    · split at hfirst
      · have hsigmas : IsSmall 'ς' ∧ IsSmall 'σ' := by decide +kernel
        rw [List.mem_singleton.mp hfirst, lowerSigma]
        split
        · exact hsigmas.1
        · exact hsigmas.2
      · exact isSmall_of_mem_lowerChar hfirst
    · exact ih hrest

theorem lowerFrom_of_isSmall (before : List Char) {cs : List Char} (hcs : ∀ c ∈ cs, IsSmall c) :
    lowerFrom before cs = cs := by
  induction cs generalizing before with
  | nil => rfl
  | cons c cs ih =>
    obtain ⟨hc, hcs⟩ := List.forall_mem_cons.mp hcs
    have hsigma : c ≠ 'Σ' := by
      rintro rfl
      revert hc
      decide +kernel
    rw [lowerFrom, if_neg hsigma, hc.lowerChar, ih _ hcs, List.singleton_append]

@[simp] theorem lower_lower (s : String) : lower (lower s) = lower s := by
  rw [lower, lower, String.toList_ofList, lowerFrom_of_isSmall [] fun c => isSmall_of_mem_lowerFrom]

end Text
end KeyStore
