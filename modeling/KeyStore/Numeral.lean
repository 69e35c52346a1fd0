import KeyStore.Bytes
import KeyStore.Error

/-! Decimal numerals: how integers are read from and written to bytes. A counter is a byte string that
spells a signed 64-bit number. -/
namespace KeyStore
namespace Numeral

def isDigit (b : UInt8) : Bool := 48 ≤ b && b ≤ 57

def digit (b : UInt8) : Nat := b.toNat - 48

def value (digits : Bytes) : Nat := digits.foldl (fun n b => n * 10 + digit b) 0

/-- Reads digits after a number already read, as long as the number does not pass `limit`. -/
def upToFrom (limit acc : Nat) : Bytes → Option Nat
  | [] => some acc
  | b :: bs =>
    let n := acc * 10 + digit b
    if isDigit b && n ≤ limit then upToFrom limit n bs else none

/-- A non-empty run of digits and nothing else that spells a number up to `limit`; leading zeros are
allowed. -/
def upTo? (limit : Nat) : Bytes → Option Nat
  | [] => none
  | b :: bs => upToFrom limit 0 (b :: bs)

def FitsInt64 (n : Int) : Prop := -0x8000000000000000 ≤ n ∧ n < 0x8000000000000000

instance (n : Int) : Decidable (FitsInt64 n) := inferInstanceAs (Decidable (_ ∧ _))

def toInt64? (n : Int) : Option Int64 := if FitsInt64 n then some (Int64.ofInt n) else none

/-- A signed 64-bit number: an optional minus sign and digits, no plus sign, no blanks. -/
def int64? : Bytes → Option Int64
  | 45 :: bs => (upTo? 0x8000000000000000 bs).map fun n => Int64.ofInt (-n)
  | bs => (upTo? 0x7fffffffffffffff bs).map Int64.ofNat

/-- An unsigned 64-bit number, with an optional plus sign. -/
def word64? : Bytes → Option Nat
  | 43 :: bs => upTo? 0xffffffffffffffff bs
  | bs => upTo? 0xffffffffffffffff bs

def ofNat (n : Nat) : Bytes := (Nat.toDigits 10 n).map fun c => UInt8.ofNat c.toNat

def ofInt : Int → Bytes
  | .ofNat n => ofNat n
  | .negSucc n => 45 :: ofNat (n + 1)

end Numeral

namespace Counter

def add (n delta : Int64) : Except Error Int64 :=
  match Numeral.toInt64? (n.toInt + delta.toInt) with
  | some m => .ok m
  | none => .error .overflow

def read (bs : Bytes) : Except Error Int64 :=
  match Numeral.int64? bs with
  | some n => .ok n
  | none => .error .notAnInteger

def write (n : Int64) : Bytes := Numeral.ofInt n.toInt

def increment (bs : Bytes) (delta : Int64) : Except Error Int64 := do
  add (← read bs) delta

end Counter
end KeyStore
