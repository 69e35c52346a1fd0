import KeyStore.Proofs.Encoding
import KeyStore.Text.CodePoint

/-! Runs of letters and their images: where the images lie, and that they are not letters of another run. -/
namespace KeyStore
namespace Text

theorem mem_of_lookup [BEq α] [LawfulBEq α] {l : List (α × β)} {a : α} {b : β} (h : l.lookup a = some b) :
    (a, b) ∈ l := by
  obtain ⟨before, after, hsplit, -⟩ := List.lookup_eq_some_iff.mp h
  rw [hsplit]
  exact List.mem_append_right before List.mem_cons_self

theorem CaseRun.map?_eq_some_iff (r : CaseRun) (n m : Nat) :
    r.map? n = some m ↔
      r.first ≤ n ∧ n ≤ r.last ∧ (n - r.first) % r.step = 0 ∧ m = (n + r.shift).toNat := by
  rw [CaseRun.map?]
  by_cases h : r.first ≤ n ∧ n ≤ r.last ∧ (n - r.first) % r.step = 0
  · simp [h, eq_comm]
  · simp only [h, if_false, reduceCtorEq, false_iff]
    exact fun ⟨hfirst, hlast, hstep, _⟩ => h ⟨hfirst, hlast, hstep⟩

theorem CaseRun.map?_eq_none_iff (r : CaseRun) (n : Nat) :
    r.map? n = none ↔ ¬ (r.first ≤ n ∧ n ≤ r.last ∧ (n - r.first) % r.step = 0) := by
  rw [CaseRun.map?, ite_eq_right_iff]
  simp

def CaseRun.low (r : CaseRun) : Nat := (r.first + r.shift).toNat

def CaseRun.high (r : CaseRun) : Nat := (r.last + r.shift).toNat

def CaseRun.Valid (r : CaseRun) : Prop :=
  0 ≤ r.first + r.shift ∧ (r.high < 0xD800 ∨ 0xDFFF < r.low ∧ r.high < 0x110000)

instance (r : CaseRun) : Decidable r.Valid := inferInstanceAs (Decidable (_ ∧ _))

/-- Whether the images of one run lie outside of the other: before it, behind it, or between its code points. -/
def CaseRun.misses (r s : CaseRun) : Bool :=
  r.high.blt s.first || s.last.blt r.low ||
    (r.step == 2 || r.first == r.last) && s.step == 2 && (r.low + s.first) % 2 == 1

theorem CaseRun.Valid.image {r : CaseRun} (hr : r.Valid) {n m : Nat} (hm : r.map? n = some m) :
    r.low ≤ m ∧ m ≤ r.high ∧ m - r.low = n - r.first := by
  obtain ⟨hfirst, hlast, -, rfl⟩ := (r.map?_eq_some_iff n m).mp hm
  have hpos := hr.1
  rw [CaseRun.low, CaseRun.high]
  omega

theorem CaseRun.Valid.toNat_ofNat {r : CaseRun} (hr : r.Valid) {n m : Nat} (hm : r.map? n = some m) :
    (Char.ofNat m).toNat = m := by
  obtain ⟨hlow, hhigh, -⟩ := hr.image hm
  rcases hr.2 with hbelow | ⟨habove, hmax⟩
  · exact toNat_char (.inl (by omega))
  · exact toNat_char (.inr ⟨by omega, by omega⟩)

theorem CaseRun.map?_eq_none_of_misses {r s : CaseRun} (h : r.misses s = true) (hr : r.Valid) {n m : Nat}
    (hm : r.map? n = some m) : s.map? m = none := by
  obtain ⟨hlow, hhigh, hdistance⟩ := hr.image hm
  obtain ⟨hfirst, hlast, hstep, -⟩ := (r.map?_eq_some_iff n m).mp hm
  simp only [misses, Bool.or_eq_true, Bool.and_eq_true, Nat.blt_eq, beq_iff_eq] at h
  refine (s.map?_eq_none_iff _).mpr fun ⟨hsfirst, hslast, hsstep⟩ => ?_
  rcases h with (hbefore | hbehind) | ⟨⟨hnarrow, hs⟩, hodd⟩
  · omega
  · omega
  · rw [hs] at hsstep
    rcases hnarrow with hr | hone
    · rw [hr] at hstep
      omega
    · omega

theorem CaseRun.find?_eq_some {runs : List CaseRun} {n m : Nat} (h : find? runs n = some m) :
    ∃ r ∈ runs, r.map? n = some m := List.exists_of_findSome?_eq_some h

theorem CaseRun.find?_eq_none_iff (runs : List CaseRun) (n : Nat) :
    find? runs n = none ↔ ∀ r ∈ runs, r.map? n = none := List.findSome?_eq_none_iff

end Text
end KeyStore
