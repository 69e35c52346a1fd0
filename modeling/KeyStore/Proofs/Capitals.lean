import Mathlib.Data.List.Basic
import KeyStore.Proofs.CaseRuns
import KeyStore.Text.UpperCase

/-! Capitals. What becomes a word of ASCII in capitals is a word of ASCII, but for ten letters outside of ASCII
whose capitals are letters of ASCII. -/
namespace KeyStore
namespace Text

theorem toNat_toUpper (c : Char) :
    c.toUpper.toNat = if 97 ≤ c.toNat ∧ c.toNat ≤ 122 then c.toNat - 32 else c.toNat := by
  delta Char.toUpper
  split
  · rename_i h
    have hrange : 97 ≤ c.toNat ∧ c.toNat ≤ 122 := h
    have hsum : (c.val + ('A'.val - 'a'.val)).toNat = (c.toNat + 4294967264) % 4294967296 := UInt32.toNat_add ..
    rw [if_pos hrange]
    exact hsum.trans (by omega)
  · exact (if_neg ‹_›).symm

theorem toNat_toLower (c : Char) :
    c.toLower.toNat = if 65 ≤ c.toNat ∧ c.toNat ≤ 90 then c.toNat + 32 else c.toNat := by
  delta Char.toLower
  split
  · rename_i h
    have hrange : 65 ≤ c.toNat ∧ c.toNat ≤ 90 := h
    have hsum : (c.val + ('a'.val - 'A'.val)).toNat = (c.toNat + 32) % 4294967296 := UInt32.toNat_add ..
    rw [if_pos hrange]
    exact hsum.trans (by omega)
  · exact (if_neg ‹_›).symm

theorem range_of_isUpper {c : Char} (hc : c.isUpper = true) : 65 ≤ c.toNat ∧ c.toNat ≤ 90 :=
  of_decide_eq_true hc

theorem toUpper_eq_iff {c d : Char} (hd : d.isUpper = true) : c.toUpper = d ↔ c.toLower = d.toLower := by
  have hrange := range_of_isUpper hd
  rw [← Char.toNat_inj, ← Char.toNat_inj, toNat_toUpper, toNat_toLower, toNat_toLower, if_pos hrange]
  split <;> split <;> omega

theorem map_toUpper_eq_iff {cs ds : List Char} (hds : ∀ d ∈ ds, d.isUpper = true) :
    cs.map Char.toUpper = ds ↔ cs.map Char.toLower = ds.map Char.toLower := by
  induction cs generalizing ds with
  | nil => cases ds <;> simp
  | cons c cs ih =>
    cases ds with
    | nil => simp
    | cons d ds =>
      obtain ⟨hd, hds⟩ := List.forall_mem_cons.mp hds
      simp only [List.map_cons, List.cons.injEq, toUpper_eq_iff hd, ih hds]

/-- The letters outside of ASCII whose capitals are in ASCII, and the letters that they are taken for. -/
def lookalikes : List (Char × List Char) :=
  [('ß', ['s', 's']), ('ı', ['i']), ('ſ', ['s']), ('ﬀ', ['f', 'f']), ('ﬁ', ['f', 'i']), ('ﬂ', ['f', 'l']),
   ('ﬃ', ['f', 'f', 'i']), ('ﬄ', ['f', 'f', 'l']), ('ﬅ', ['s', 't']), ('ﬆ', ['s', 't'])]

def isLookalike (c : Char) : Bool := (lookalikes.lookup c).isSome

def plain (c : Char) : List Char := (lookalikes.lookup c).getD [c]

theorem plain_of_not_lookalike {c : Char} (hc : isLookalike c = false) : plain c = [c] := by
  rw [isLookalike, Option.isSome_eq_false_iff, Option.isNone_iff_eq_none] at hc
  rw [plain, hc]
  rfl

theorem not_lookalike_of_ascii {c : Char} (hc : c.toNat < 128) : isLookalike c = false := by
  have hforeign : ∀ p ∈ lookalikes, 128 ≤ p.1.toNat := by decide
  rw [isLookalike, Option.isSome_eq_false_iff, Option.isNone_iff_eq_none, List.lookup_eq_none_iff]
  rintro p hp
  have hp := hforeign p hp
  refine bne_iff_ne.mpr ?_
  rintro rfl
  omega

theorem upperChar_of_lookalike {c : Char} (hc : isLookalike c = true) :
    (∀ d ∈ plain c, d.toNat < 128) ∧ upperChar c = (plain c).map Char.toUpper := by
  have hall : ∀ p ∈ lookalikes,
      (plain p.1).all (·.toNat < 128) ∧ upperChar p.1 = (plain p.1).map Char.toUpper := by decide +kernel
  obtain ⟨cs, hcs⟩ := Option.isSome_iff_exists.mp hc
  obtain ⟨hplain, hupper⟩ := hall (c, cs) (mem_of_lookup hcs)
  exact ⟨fun d hd => of_decide_eq_true (List.all_eq_true.mp hplain d hd), hupper⟩

/-- The capitals of any other character outside of ASCII are not all in ASCII. -/
theorem exists_mem_upperChar {c : Char} (hc : isLookalike c = false) (hforeign : 128 ≤ c.toNat) :
    ∃ d ∈ upperChar c, 128 ≤ d.toNat := by
  have hexpansions : ∀ p ∈ upperExpansions,
      isLookalike (Char.ofNat p.1) = true ∨ ∃ n ∈ p.2, 128 ≤ (Char.ofNat n).toNat := by decide +kernel
  have hruns : ∀ r ∈ upperRuns,
      r.Valid ∧ (r.first = r.last ∧ isLookalike (Char.ofNat r.first) = true ∨ 128 ≤ r.low) := by decide +kernel
  rw [upperChar, if_neg (Nat.not_lt.mpr hforeign)]
  split
  · rename_i ns hlookup
    rcases hexpansions (c.toNat, ns) (mem_of_lookup hlookup) with hsame | ⟨n, hn, hbeyond⟩
    · rw [Char.ofNat_toNat, hc] at hsame
      cases hsame
    · exact ⟨_, List.mem_map_of_mem hn, hbeyond⟩
  · refine ⟨_, List.mem_singleton_self _, ?_⟩
    cases hfind : CaseRun.find? upperRuns c.toNat with
    | none => exact hforeign
    | some m =>
      obtain ⟨r, hr, hm⟩ := CaseRun.find?_eq_some hfind
      obtain ⟨hvalid, hone | hbeyond⟩ := hruns r hr
      · obtain ⟨hfirst, hlast, -⟩ := (r.map?_eq_some_iff _ m).mp hm
        have hcode : c.toNat = r.first := by omega
        rw [← hcode, Char.ofNat_toNat, hc] at hone
        cases hone.2
      · rw [Option.map_some, Option.getD_some, hvalid.toNat_ofNat hm]
        exact Nat.le_trans hbeyond (hvalid.image hm).1

theorem upperChar_of_ascii {c : Char} (h : ∀ d ∈ plain c, d.toNat < 128) :
    upperChar c = (plain c).map Char.toUpper := by
  cases hc : isLookalike c with
  | true => exact (upperChar_of_lookalike hc).2
  | false =>
    rw [plain_of_not_lookalike hc] at h ⊢
    rw [upperChar, if_pos (h c (List.mem_singleton_self c))]
    rfl

theorem plain_of_upperChar {c : Char} (h : ∀ d ∈ upperChar c, d.toNat < 128) :
    ∀ d ∈ plain c, d.toNat < 128 := by
  cases hc : isLookalike c with
  | true => exact (upperChar_of_lookalike hc).1
  | false =>
    rw [plain_of_not_lookalike hc]
    refine List.forall_mem_singleton.mpr (Nat.lt_of_not_le fun hforeign => ?_)
    obtain ⟨d, hd, hbeyond⟩ := exists_mem_upperChar hc hforeign
    have := h d hd
    omega

/-- A text becomes a word of capitals just when the letters that it is taken for spell the word in any case. -/
theorem upper_eq_iff {s name : String} (hname : ∀ c ∈ name.toList, c.isUpper = true) :
    upper s = name ↔ (s.toList.flatMap plain).map Char.toLower = name.toList.map Char.toLower := by
  have hascii : ∀ c ∈ name.toList, c.toNat < 128 := by
    intro c hc
    have := range_of_isUpper (hname c hc)
    omega
  have hletters (h : ∀ c ∈ s.toList, ∀ d ∈ plain c, d.toNat < 128) :
      s.toList.flatMap upperChar = (s.toList.flatMap plain).map Char.toUpper := by
    rw [List.map_flatMap]
    exact List.flatMap_congr fun c hc => upperChar_of_ascii (h c hc)
  rw [← map_toUpper_eq_iff hname, upper, ← String.toList_inj, String.toList_ofList]
  constructor
  · intro h
    rw [← hletters fun c hc => ?_, h]
    exact plain_of_upperChar fun d hd => hascii d (h ▸ List.mem_flatMap.mpr ⟨c, hc, hd⟩)
  · intro h
    rw [hletters fun c hc d hd => ?_, h]
    have hupper := hascii _ (h ▸ List.mem_map_of_mem (List.mem_flatMap.mpr ⟨c, hc, hd⟩))
    rw [toNat_toUpper] at hupper
    split at hupper <;> omega

end Text
end KeyStore
