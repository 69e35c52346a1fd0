import KeyStore.Numeral
import Mathlib.Data.Nat.Digits.Defs

/-! Numerals. Digits are read as the number that they spell, as long as it does not pass the limit; so what is
written for a number is read as this number again, for every signed word, the least one included. -/
namespace KeyStore

namespace Numeral

theorem le_foldl_digits (acc : Nat) (bs : Bytes) : acc ≤ bs.foldl (fun n b => n * 10 + digit b) acc := by
  induction bs generalizing acc with
  | nil => exact Nat.le_refl acc
  | cons b bs ih => exact Nat.le_trans (by omega) (ih (acc * 10 + digit b))

theorem upToFrom_eq_some_iff {limit acc : Nat} (hacc : acc ≤ limit) (bs : Bytes) (n : Nat) :
    upToFrom limit acc bs = some n ↔
      (∀ b ∈ bs, isDigit b = true) ∧ bs.foldl (fun n b => n * 10 + digit b) acc = n ∧ n ≤ limit := by
  induction bs generalizing acc with
  | nil =>
    simp only [upToFrom, Option.some.injEq, List.foldl_nil, List.not_mem_nil, false_implies, implies_true, true_and]
    exact ⟨fun h => ⟨h, h ▸ hacc⟩, And.left⟩
  | cons b bs ih =>
    rw [upToFrom, List.forall_mem_cons, List.foldl_cons]
    by_cases hfits : acc * 10 + digit b ≤ limit
    · by_cases hdigit : isDigit b = true
      · simp [hdigit, hfits, ih hfits]
      · simp [hdigit]
    · -- once the limit is passed, further digits do not lead back
      rw [if_neg (by simp [hfits])]
      refine iff_of_false (by simp) fun ⟨_, heq, hle⟩ => hfits ?_
      exact Nat.le_trans (le_foldl_digits _ bs) (heq ▸ hle)

theorem upTo?_eq_some_iff (limit : Nat) (bs : Bytes) (n : Nat) :
    upTo? limit bs = some n ↔ bs ≠ [] ∧ (∀ b ∈ bs, isDigit b = true) ∧ value bs = n ∧ n ≤ limit := by
  cases bs with
  | nil => exact iff_of_false (by simp [upTo?]) fun h => h.1 rfl
  | cons b bs =>
    rw [upTo?, upToFrom_eq_some_iff (Nat.zero_le limit), value]
    exact (and_iff_right (List.cons_ne_nil b bs)).symm

theorem value_eq_ofDigits (ds : Bytes) : value ds = Nat.ofDigits 10 (ds.reverse.map digit) := by
  have hstep : (fun (n : Nat) b => n * 10 + digit b) = fun n b => digit b + 10 * n := by
    funext n b
    omega
  simp [value, hstep, Nat.ofDigits_eq_foldr, List.foldl_map]

theorem digit_of_isDigit {c : Char} (hc : c.isDigit = true) :
    isDigit (UInt8.ofNat c.toNat) = true ∧ digit (UInt8.ofNat c.toNat) = c.toNat - 48 := by
  have hrange : 48 ≤ c.toNat ∧ c.toNat ≤ 57 := by
    simpa [Char.isDigit, UInt32.le_iff_toNat_le] using hc
  have hbyte : (UInt8.ofNat c.toNat).toNat = c.toNat :=
    UInt8.toNat_ofNat_of_lt' (Nat.lt_of_le_of_lt hrange.2 (by decide))
  constructor
  · simpa [isDigit, UInt8.le_iff_toNat_le, hbyte] using hrange
  · rw [digit, hbyte]

theorem ofNat_ne_nil (n : Nat) : ofNat n ≠ [] := by simp [ofNat, Nat.toDigits_ne_nil]

theorem isDigit_of_mem_ofNat {n : Nat} {b : UInt8} (hb : b ∈ ofNat n) : isDigit b = true := by
  obtain ⟨c, hc, rfl⟩ := List.mem_map.mp hb
  exact (digit_of_isDigit (Nat.isDigit_of_mem_toDigits (by decide) (by decide) hc)).1

theorem foldl_digits_map (acc : Nat) (cs : List Char) (hcs : ∀ c ∈ cs, c.isDigit = true) :
    (cs.map fun c => UInt8.ofNat c.toNat).foldl (fun n b => n * 10 + digit b) acc = Nat.ofDigitChars 10 cs acc := by
  induction cs generalizing acc with
  | nil => rfl
  | cons c cs ih =>
    obtain ⟨hc, hrest⟩ := List.forall_mem_cons.mp hcs
    rw [List.map_cons, List.foldl_cons, ih _ hrest, (digit_of_isDigit hc).2, Nat.ofDigitChars_cons, Nat.mul_comm]
    rfl

theorem value_ofNat (n : Nat) : value (ofNat n) = n := by
  have hdigits : ∀ c ∈ Nat.toDigits 10 n, c.isDigit = true := fun c hc =>
    Nat.isDigit_of_mem_toDigits (by decide) (by decide) hc
  rw [value, ofNat, foldl_digits_map 0 _ hdigits]
  exact Nat.ofDigitChars_ten_toDigits

/-- The numbers that signed numerals spell: digits, which may follow a minus sign. -/
inductive Spells : Bytes → Int → Prop
  | digits {ds : Bytes} : ds ≠ [] → (∀ b ∈ ds, isDigit b = true) → Spells ds (value ds)
  | minus {ds : Bytes} : ds ≠ [] → (∀ b ∈ ds, isDigit b = true) → Spells (45 :: ds) (-value ds)

theorem spells_ofInt (n : Int) : Spells (ofInt n) n := by
  cases n with
  | ofNat m =>
    have h := Spells.digits (ofNat_ne_nil m) fun _ => isDigit_of_mem_ofNat
    rwa [value_ofNat] at h
  | negSucc m =>
    have h := Spells.minus (ofNat_ne_nil (m + 1)) fun _ => isDigit_of_mem_ofNat
    rwa [value_ofNat] at h

/-- Digits are read as a word through `f`, if it keeps the limit's numbers apart and no other has a word. -/
theorem map_upTo?_eq_some_iff {limit : Nat} {f : Nat → Int64} {i : Nat → Int}
    (hf : ∀ m ≤ limit, (f m).toInt = i m) (hi : ∀ (m : Nat) (n : Int64), n.toInt = i m → m ≤ limit)
    (ds : Bytes) (n : Int64) :
    (upTo? limit ds).map f = some n ↔ ds ≠ [] ∧ (∀ b ∈ ds, isDigit b = true) ∧ n.toInt = i (value ds) := by
  rw [Option.map_eq_some_iff]
  constructor
  · rintro ⟨m, hm, rfl⟩
    obtain ⟨hne, hds, rfl, hle⟩ := (upTo?_eq_some_iff limit ds m).mp hm
    exact ⟨hne, hds, hf _ hle⟩
  · rintro ⟨hne, hds, hn⟩
    have hle := hi _ n hn
    exact ⟨value ds, (upTo?_eq_some_iff limit ds _).mpr ⟨hne, hds, rfl, hle⟩,
      Int64.toInt_inj.mp ((hf _ hle).trans hn.symm)⟩

theorem int64?_minus_eq_some_iff (ds : Bytes) (n : Int64) :
    int64? (45 :: ds) = some n ↔ ds ≠ [] ∧ (∀ b ∈ ds, isDigit b = true) ∧ n.toInt = -value ds := by
  have hread : int64? (45 :: ds) = (upTo? 0x8000000000000000 ds).map fun m : Nat => Int64.ofInt (-(m : Int)) := by
    rw [int64?]
    cases upTo? 0x8000000000000000 ds <;> rfl
  rw [hread, map_upTo?_eq_some_iff (i := fun m => -(m : Int))]
  · exact fun m hm => Int64.toInt_ofInt_of_le (by omega) (by omega)
  · intro m n hn
    have := n.le_toInt
    omega

theorem int64?_digits_eq_some_iff {bs : Bytes} (hbs : ∀ ds, bs ≠ 45 :: ds) (n : Int64) :
    int64? bs = some n ↔ bs ≠ [] ∧ (∀ b ∈ bs, isDigit b = true) ∧ n.toInt = value bs := by
  rw [int64?.eq_2 bs hbs, map_upTo?_eq_some_iff (i := fun m => (m : Int))]
  · exact fun m hm => Int64.toInt_ofNat_of_lt (by omega)
  · intro m n hn
    have := n.toInt_lt
    omega

theorem int64?_eq_some_iff (bs : Bytes) (n : Int64) : int64? bs = some n ↔ Spells bs n.toInt := by
  constructor
  · intro h
    by_cases hminus : ∃ ds, bs = 45 :: ds
    · obtain ⟨ds, rfl⟩ := hminus
      obtain ⟨hne, hds, hn⟩ := (int64?_minus_eq_some_iff ds n).mp h
      exact hn ▸ .minus hne hds
    · obtain ⟨hne, hds, hn⟩ := (int64?_digits_eq_some_iff (fun ds hbs => hminus ⟨ds, hbs⟩) n).mp h
      exact hn ▸ .digits hne hds
  · intro h
    generalize hn : n.toInt = i at h
    cases h with
    | minus hne hds => exact (int64?_minus_eq_some_iff _ n).mpr ⟨hne, hds, hn⟩
    | digits hne hds =>
      refine (int64?_digits_eq_some_iff (fun ds hbs => ?_) n).mpr ⟨hne, hds, hn⟩
      exact absurd (hds 45 (hbs ▸ List.mem_cons_self)) (by decide)

theorem int64?_ofInt (n : Int64) : int64? (ofInt n.toInt) = some n :=
  (int64?_eq_some_iff _ n).mpr (spells_ofInt n.toInt)

theorem spells_iff (bs : Bytes) (i : Int) :
    Spells bs i ↔ ∃ (ds : Bytes) (n : Nat), ds ≠ [] ∧ (∀ b ∈ ds, isDigit b = true) ∧
      n = Nat.ofDigits 10 (ds.reverse.map digit) ∧ (bs = ds ∧ i = n ∨ bs = 45 :: ds ∧ i = -n) := by
  constructor
  · intro h
    cases h with
    | digits hne hds => exact ⟨bs, value bs, hne, hds, value_eq_ofDigits bs, .inl ⟨rfl, rfl⟩⟩
    | @minus ds hne hds => exact ⟨ds, value ds, hne, hds, value_eq_ofDigits ds, .inr ⟨rfl, rfl⟩⟩
  · rintro ⟨ds, n, hne, hds, hn, hsign⟩
    rw [← value_eq_ofDigits] at hn
    subst hn
    rcases hsign with ⟨rfl, rfl⟩ | ⟨rfl, rfl⟩
    · exact .digits hne hds
    · exact .minus hne hds

theorem fitsInt64_toInt (n : Int64) : FitsInt64 n.toInt := ⟨n.le_toInt, n.toInt_lt⟩

theorem exists_int64?_iff (bs : Bytes) (i : Int) :
    (∃ n, int64? bs = some n ∧ n.toInt = i) ↔ Spells bs i ∧ FitsInt64 i := by
  constructor
  · rintro ⟨n, hn, rfl⟩
    exact ⟨(int64?_eq_some_iff bs n).mp hn, fitsInt64_toInt n⟩
  · rintro ⟨hspells, hfits⟩
    have hi : (Int64.ofInt i).toInt = i := Int64.toInt_ofInt_of_le hfits.1 hfits.2
    exact ⟨_, (int64?_eq_some_iff bs _).mpr (hi.symm ▸ hspells), hi⟩

theorem toInt64?_cases (n : Int) :
    FitsInt64 n ∧ (∃ m, toInt64? n = some m ∧ m.toInt = n) ∨ ¬ FitsInt64 n ∧ toInt64? n = none := by
  rw [toInt64?]
  by_cases h : FitsInt64 n
  · exact .inl ⟨h, _, if_pos h, Int64.toInt_ofInt_of_le h.1 h.2⟩
  · exact .inr ⟨h, if_neg h⟩

/-- A byte string is read as a word just when it is a numeral, one digit or more that may follow a minus sign,
and the number that it spells fits; and every word is read from the numeral that is written for it. -/
theorem integers_read_exactly :
    (∀ (bs : Bytes) (i : Int),
      (int64? bs).map Int64.toInt = some i ↔
        (∃ (ds : Bytes) (n : Nat), ds ≠ [] ∧ (∀ b ∈ ds, isDigit b = true) ∧
          n = Nat.ofDigits 10 (ds.reverse.map digit) ∧ (bs = ds ∧ i = n ∨ bs = 45 :: ds ∧ i = -n)) ∧
        -2 ^ 63 ≤ i ∧ i ≤ 2 ^ 63 - 1) ∧
    ∀ n : Int64, int64? (Counter.write n) = some n := by
  refine ⟨?_, int64?_ofInt⟩
  intro bs i
  have hfits : FitsInt64 i ↔ -2 ^ 63 ≤ i ∧ i ≤ 2 ^ 63 - 1 := by
    simp only [FitsInt64]
    omega
  rw [← spells_iff, ← hfits, Option.map_eq_some_iff]
  exact exists_int64?_iff bs i

/-- Zeros may lead a numeral, also that of the least word. -/
example : (int64? (Bytes.ofString "-0009223372036854775808")).map Int64.toInt = some (-2 ^ 63) ∧
    int64? (Bytes.ofString "+1") = none := by decide

end Numeral

namespace Counter

theorem add_cases (n delta : Int64) :
    Numeral.FitsInt64 (n.toInt + delta.toInt) ∧
        (∃ sum, add n delta = .ok sum ∧ sum.toInt = n.toInt + delta.toInt) ∨
      ¬ Numeral.FitsInt64 (n.toInt + delta.toInt) ∧ add n delta = .error .overflow := by
  rw [add]
  rcases Numeral.toInt64?_cases (n.toInt + delta.toInt) with ⟨hfits, sum, hsum, hexact⟩ | ⟨hfits, hsum⟩
  · exact .inl ⟨hfits, sum, by rw [hsum], hexact⟩
  · exact .inr ⟨hfits, by rw [hsum]⟩

theorem add_zero (delta : Int64) : add 0 delta = .ok delta := by
  rcases add_cases 0 delta with ⟨-, sum, hsum, hexact⟩ | ⟨hfits, -⟩
  · rw [hsum, Int64.toInt_inj.mp (hexact.trans (Int.zero_add delta.toInt))]
  · exact absurd ((Int.zero_add delta.toInt).symm ▸ Numeral.fitsInt64_toInt delta) hfits

end Counter
end KeyStore
