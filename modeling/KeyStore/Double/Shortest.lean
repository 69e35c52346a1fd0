import KeyStore.Double

/-! Writing a double with the fewest digits that read back as the same number, and of those the
nearest; and writing it with a fixed number of places. -/
namespace KeyStore
namespace Double

/-- The numbers that round to a finite double, in quarters of its last bit: its own place and the
two ends. Below a power of two the doubles lie twice as close. -/
structure Interval where
  low : Nat
  value : Nat
  high : Nat
  /-- The ends belong to the interval. -/
  closed : Bool
deriving DecidableEq, Repr

def interval (x : Double) : Interval :=
  let m := x.significand
  ⟨4 * m - (if m = 0x10000000000000 then 1 else 2), 4 * m, 4 * m + 2, m % 2 = 0⟩

def Interval.holds (i : Interval) (q d : Nat) : Bool :=
  if i.closed then decide (i.low * d ≤ q) && decide (q ≤ i.high * d)
  else decide (i.low * d < q) && decide (q < i.high * d)

/-- The least `p` with `num / den < 10 ^ p`, for a positive quotient. -/
def decimalPoint (num den : Nat) : Int :=
  if den ≤ num then (Nat.toDigits 10 (num / den)).length
  else
    let zeros := (List.range 400).find? fun j => decide (den ≤ num * Nat.pow 10 (j + 1))
    Int.negOfNat (zeros.getD 0)

/-- A decimal number `digits * 10 ^ exponent`. -/
structure Digits where
  digits : Nat
  exponent : Int
deriving DecidableEq, Repr

/-- The same number without the zero that a carry leaves at the end. -/
def Digits.trim (d : Digits) : Digits :=
  if d.digits % 10 = 0 then ⟨d.digits / 10, d.exponent + 1⟩ else d

def powerOfTen (e : Int) : Nat × Nat :=
  if 0 ≤ e then (Nat.pow 10 e.toNat, 1) else (1, Nat.pow 10 (-e).toNat)

/-- The neighbour of the number on the grid of multiples of `10 ^ e` that reads back, the nearer
of two and the upper one of two equally near. -/
def onGrid? (x : Double) (e : Int) : Option Digits :=
  let i := x.interval
  let (up, down) := powerOfTen e
  -- one quarter is 2 ^ scale / (4 * unitsPerOne); a grid step is up / down
  let num := i.value * Nat.pow 2 x.scale * down
  let den := 4 * unitsPerOne * up
  let below := num / den
  let quarters (n : Nat) : Nat := n * den
  let holds (n : Nat) : Bool := i.holds (quarters n) (Nat.pow 2 x.scale * down)
  match holds below, holds (below + 1) with
  | true, true => some ⟨if 2 * (num % den) < den then below else below + 1, e⟩
  | true, false => some ⟨below, e⟩
  | false, true => some ⟨below + 1, e⟩
  | false, false => none

/-- The shortest digits of a finite positive double; seventeen always suffice. -/
def shortest (x : Double) : Digits :=
  let p := decimalPoint x.units unitsPerOne
  (((List.range 17).findSome? fun n => onGrid? x (p - (n + 1 : Nat))).getD ⟨0, 0⟩).trim

def Digits.positional (d : Digits) : List Char :=
  let ds := Nat.toDigits 10 d.digits
  if 0 ≤ d.exponent then ds ++ List.replicate d.exponent.toNat '0'
  else
    let places := (-d.exponent).toNat
    if places < ds.length then
      ds.take (ds.length - places) ++ '.' :: ds.drop (ds.length - places)
    else '0' :: '.' :: (List.replicate (places - ds.length) '0' ++ ds)

def text (x : Double) : List Char :=
  if x.isNaN then "NaN".toList
  else
    let body := if x.isInfinite then "inf".toList
      else if x.magnitude = 0 then ['0']
      else x.shortest.positional
    if x.negative then '-' :: body else body

/-- A finite number that is not negative with two places, halves to the even neighbour. -/
def twoPlaces (x : Double) : List Char :=
  let n := roundDiv (x.units * 100) unitsPerOne
  let cents := n % 100
  Nat.toDigits 10 (n / 100) ++ '.' :: (if cents < 10 then ['0'] else []) ++ Nat.toDigits 10 cents

end Double
end KeyStore
