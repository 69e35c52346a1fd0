import KeyStore.Double

/-! Scores as numbers. The bits of a double grow with the number that they stand for, so that doubles placed
by their bits are placed by their numbers. Two doubles that are numbers have one place only if they are the
same, or are the two zeros. -/
namespace KeyStore
namespace Double

/-- The number in units of `2 ^ -1074`. Infinity counts as the power of two above the largest number. -/
def value (x : Double) : Int := if x.negative then -(x.units : Int) else x.units

theorem magnitude_eq (x : Double) : x.magnitude = 0x10000000000000 * x.exponent + x.fraction :=
  (Nat.div_add_mod x.magnitude 0x10000000000000).symm

theorem fraction_lt (x : Double) : x.fraction < 0x10000000000000 := Nat.mod_lt _ (by decide)

theorem units_lt (x : Double) : x.units < 0x10000000000000 * Nat.pow 2 x.exponent := by
  have hfraction := x.fraction_lt
  rw [units, significand, scale]
  split
  · rename_i hsubnormal
    rw [hsubnormal]
    exact Nat.mul_lt_mul_of_pos_right hfraction Nat.one_pos
  · rename_i hnormal
    have hpow : Nat.pow 2 x.exponent = 2 * Nat.pow 2 (x.exponent - 1) := by
      have hsucc : x.exponent = x.exponent - 1 + 1 := by omega
      rw [hsucc]
      exact Nat.pow_succ'
    rw [hpow, ← Nat.mul_assoc]
    exact Nat.mul_lt_mul_of_pos_right (by omega) (Nat.two_pow_pos _)

theorem le_units (x : Double) (h : x.exponent ≠ 0) :
    0x10000000000000 * Nat.pow 2 (x.exponent - 1) ≤ x.units := by
  rw [units, significand, if_neg h, scale]
  exact Nat.mul_le_mul_right _ (Nat.le_add_right ..)

theorem units_lt_units {x y : Double} (h : x.magnitude < y.magnitude) : x.units < y.units := by
  have hx := x.fraction_lt
  have hy := y.fraction_lt
  rw [magnitude_eq, magnitude_eq] at h
  rcases Nat.lt_or_ge x.exponent y.exponent with hless | hge
  · calc x.units < 0x10000000000000 * Nat.pow 2 x.exponent := x.units_lt
      _ ≤ 0x10000000000000 * Nat.pow 2 (y.exponent - 1) :=
        Nat.mul_le_mul_left _ (Nat.pow_le_pow_right (by decide) (by omega))
      _ ≤ y.units := y.le_units (by omega)
  · have hexponent : x.exponent = y.exponent := by omega
    have hfraction : x.fraction < y.fraction := by omega
    have hsignificand : x.significand < y.significand := by
      rw [significand, significand, hexponent]
      split <;> omega
    rw [units, units, scale, scale, hexponent]
    exact Nat.mul_lt_mul_of_pos_right hsignificand (Nat.two_pow_pos _)

theorem units_le_units_iff (x y : Double) : x.units ≤ y.units ↔ x.magnitude ≤ y.magnitude := by
  constructor
  · intro h
    exact Nat.le_of_not_lt fun hless => Nat.not_le_of_lt (units_lt_units hless) h
  · intro h
    rcases Nat.lt_or_eq_of_le h with hless | heq
    · exact Nat.le_of_lt (units_lt_units hless)
    · have hexponent : x.exponent = y.exponent := congrArg (· / 0x10000000000000) heq
      have hfraction : x.fraction = y.fraction := congrArg (· % 0x10000000000000) heq
      apply Nat.le_of_eq
      rw [units, units, scale, scale, significand, significand, hexponent, hfraction]

theorem units_eq_zero_iff (x : Double) : x.units = 0 ↔ x.magnitude = 0 := by
  have hzero := x.units_le_units_iff zero
  rw [show zero.units = 0 from rfl, show zero.magnitude = 0 from rfl] at hzero
  omega

/-- Scores are placed by their numbers. The two zeros are one number, and every NaN is placed last. -/
theorem order_le_iff (x y : Double) :
    x.order ≤ y.order ↔ y.isNaN = true ∨ x.isNaN = false ∧ x.value ≤ y.value := by
  have bound : ∀ z : Double, z.isNaN = false → z.magnitude ≤ 0x7ff0000000000000 :=
    fun z hz => Nat.le_of_not_lt (of_decide_eq_false hz)
  have hle := x.units_le_units_iff y
  have hge := y.units_le_units_iff x
  have hzerox := x.units_eq_zero_iff
  have hzeroy := y.units_eq_zero_iff
  cases hx : x.isNaN <;> cases hy : y.isNaN <;> simp only [order, value, hx, hy]
  · cases x.negative <;> cases y.negative <;> simp <;> omega
  · have hbound := bound x hx
    cases x.negative <;> simp
    omega
  · have hbound := bound y hy
    cases y.negative <;> (simp; omega)
  · simp

theorem order_lt_iff {x y : Double} (hx : x.isNaN = false) (hy : y.isNaN = false) :
    x.order < y.order ↔ x.value < y.value := by
  have hyx := y.order_le_iff x
  simp only [hx, hy, Bool.false_eq_true, false_or, true_and] at hyx
  omega

theorem order_eq_iff {x y : Double} (hx : x.isNaN = false) (hy : y.isNaN = false) :
    x.order = y.order ↔ x.value = y.value := by
  have hxy := order_lt_iff hx hy
  have hyx := order_lt_iff hy hx
  omega

theorem isNaN_eq_of_order_eq {x y : Double} (h : x.order = y.order) : x.isNaN = y.isNaN := by
  have hxy := x.order_le_iff y
  have hyx := y.order_le_iff x
  rw [h] at hxy hyx
  cases hx : x.isNaN <;> cases hy : y.isNaN <;> simp_all

theorem eq_or_zeros_of_order_eq {x y : Double} (h : x.order = y.order) (hx : x.isNaN = false) :
    x = y ∨ x.magnitude = 0 ∧ y.magnitude = 0 ∧ x.negative = !y.negative := by
  have hy : y.isNaN = false := (isNaN_eq_of_order_eq h).symm.trans hx
  have hbits : x.bits.toNat = y.bits.toNat → x = y := fun heq => by
    cases x; cases y
    exact congrArg Double.mk (UInt64.toNat_inj.mp heq)
  have hxlt := x.bits.toNat_lt
  have hylt := y.bits.toNat_lt
  simp only [order, hx, hy, magnitude, negative] at h ⊢
  by_cases hxneg : 0x8000000000000000 ≤ x.bits.toNat <;>
    by_cases hyneg : 0x8000000000000000 ≤ y.bits.toNat <;> simp [hxneg, hyneg] at h ⊢
  · exact hbits (by omega)
  · omega
  · omega
  · exact hbits (by omega)

end Double
end KeyStore
