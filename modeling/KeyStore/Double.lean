/-! Double-precision numbers as their sixty-four bits. Every payload of a NaN and both zeros are
kept apart; sums and quotients are formed exactly and rounded once, halves to the even neighbour. -/
namespace KeyStore

structure Double where
  bits : UInt64
deriving DecidableEq, Inhabited, Repr

namespace Double

/-- The bits below the sign; they grow with the absolute value. -/
def magnitude (x : Double) : Nat := x.bits.toNat % 0x8000000000000000

def negative (x : Double) : Bool := decide (0x8000000000000000 ≤ x.bits.toNat)

/-- The magnitude of infinity; the magnitudes above it are NaN. -/
def infinite : Nat := 0x7ff0000000000000

def isNaN (x : Double) : Bool := decide (infinite < x.magnitude)

def isInfinite (x : Double) : Bool := x.magnitude == infinite

def ofMagnitude (negative : Bool) (m : Nat) : Double :=
  ⟨UInt64.ofNat (if negative then 0x8000000000000000 + m else m)⟩

def zero : Double := ⟨0⟩

def nan : Double := ofMagnitude false (infinite + 0x8000000000000)

/-- The place of a number in the order of scores: numeric, the two zeros in one place, every NaN
in one place above infinity. -/
def order (x : Double) : Int :=
  if x.isNaN then 0x8000000000000000
  else if x.negative then -(x.magnitude : Int) else x.magnitude

/-- The comparison of IEEE 754: false when either side is NaN. -/
def le (x y : Double) : Bool := !x.isNaN && !y.isNaN && decide (x.order ≤ y.order)

def fraction (x : Double) : Nat := x.magnitude % 0x10000000000000

def exponent (x : Double) : Nat := x.magnitude / 0x10000000000000

def significand (x : Double) : Nat :=
  if x.exponent = 0 then x.fraction else 0x10000000000000 + x.fraction

/-- The weight of the significand's last bit is `2 ^ (scale - 1074)`. -/
def scale (x : Double) : Nat := x.exponent - 1

/-- The absolute value of a finite number in units of `2 ^ -1074`. -/
def units (x : Double) : Nat := x.significand * Nat.pow 2 x.scale

def unitsPerOne : Nat := Nat.pow 2 1074

def roundDiv (num den : Nat) : Nat :=
  let q := num / den
  let r := num % den
  if den < 2 * r ∨ (2 * r = den ∧ q % 2 = 1) then q + 1 else q

/-- The double nearest to `num / den`, halves to the even significand, infinity beyond the range. -/
def ofRatio (negative : Bool) (num den : Nat) : Double :=
  let e := (num * unitsPerOne / den).log2 - 52
  let m := e * 0x10000000000000 + roundDiv (num * unitsPerOne) (den * Nat.pow 2 e)
  ofMagnitude negative (min m infinite)

/-- The sum. A zero sum is negative only when both terms are negative zeros. -/
def add (x y : Double) : Double :=
  if x.isNaN || y.isNaN then nan
  else if x.isInfinite then (if y.isInfinite && x.negative != y.negative then nan else x)
  else if y.isInfinite then y
  else
    let signed (z : Double) : Int := if z.negative then -(z.units : Int) else z.units
    let sum := signed x + signed y
    if sum = 0 then ofMagnitude (x.negative && y.negative) 0
    else ofRatio (decide (sum < 0)) sum.natAbs unitsPerOne

def ofNat (n : Nat) : Double := ofRatio false n 1

def quotient (x y : Double) : Double := ofRatio false x.units y.units

end Double
end KeyStore
