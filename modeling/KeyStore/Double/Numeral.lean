import KeyStore.Double
import KeyStore.Numeral

/-! Reading a double: decimal digits with an optional point and exponent, or a word for infinity
or NaN. The value is the double nearest to what is written. -/
namespace KeyStore
namespace Double

/-- The decimal fraction `0.d₁d₂… × 10 ^ point`, given by the bytes of its digits. The first digit is
not zero; zero has no digits. -/
structure Decimal where
  digits : Bytes
  point : Int
deriving DecidableEq, Repr

namespace Decimal

def ofDigits (digits : Bytes) (point : Int) : Decimal :=
  let significant := digits.dropWhile (· == 48)
  ⟨significant, point - ((digits.length - significant.length : Nat) : Int)⟩

/-- The most digits that a number halfway between two neighbouring doubles has. -/
def halfwayDigits : Nat := 768

/-- Digits with the same nearest double. Of those after the longest halfway number it matters only
whether they are all zero, so a one stands for them if they are not. -/
def decisive (d : Decimal) : Bytes :=
  d.digits.take halfwayDigits ++ if (d.digits.drop halfwayDigits).all (· == 48) then [] else [49]

/-- The nearest double. Fractions far outside the range are settled without forming a power. -/
def toDouble (negative : Bool) (d : Decimal) : Double :=
  if d.digits.isEmpty || d.point < -400 then ofMagnitude negative 0
  else if 400 < d.point then ofMagnitude negative infinite
  else
    let n := Numeral.value d.decisive
    let exponent := d.point - (d.decisive.length : Int)
    if 0 ≤ exponent then ofRatio negative (n * Nat.pow 10 exponent.toNat) 1
    else ofRatio negative n (Nat.pow 10 (-exponent).toNat)

end Decimal

/-- The digits of an exponent after a number already read. Once that number is past 65535, the digits
that follow change nothing. -/
def exponentFrom (acc : Nat) : Bytes → Option Nat
  | [] => some acc
  | b :: bs =>
    if Numeral.isDigit b then
      exponentFrom (if acc < 65536 then acc * 10 + Numeral.digit b else acc) bs
    else none

def exponentDigits? : Bytes → Option Nat
  | [] => none
  | b :: bs => exponentFrom 0 (b :: bs)

def exponent? : Bytes → Option Int
  | 43 :: bs => (exponentDigits? bs).map Int.ofNat
  | 45 :: bs => (exponentDigits? bs).map fun n => -(n : Int)
  | bs => (exponentDigits? bs).map Int.ofNat

/-- What may follow the digits: nothing, or the letter `e` and an exponent. -/
def scale? : Bytes → Option Int
  | [] => some 0
  | b :: bs => if Bytes.toLower b = 101 then exponent? bs else none

def splitDigits (bs : Bytes) : Bytes × Bytes := bs.span Numeral.isDigit

/-- Digits with an optional point, at least one digit on either side of it, and an exponent. -/
def decimal? (bs : Bytes) : Option Decimal :=
  let (whole, rest) := splitDigits bs
  let (part, rest) := match rest with
    | 46 :: rest => splitDigits rest
    | _ => ([], rest)
  if whole.isEmpty && part.isEmpty then none
  else (scale? rest).map fun e => .ofDigits (whole ++ part) (e + (whole.length : Int))

def unsigned? (negative : Bool) (bs : Bytes) : Option Double :=
  if bs.isWord "inf" || bs.isWord "infinity" then some (ofMagnitude negative infinite)
  else if bs.isWord "nan" then some nan
  else (decimal? bs).map (·.toDouble negative)

def ofNumeral? : Bytes → Option Double
  | 43 :: bs => unsigned? false bs
  | 45 :: bs => unsigned? true bs
  | bs => unsigned? false bs

end Double
end KeyStore
