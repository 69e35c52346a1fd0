import KeyStore.Command
import KeyStore.Double.Numeral
import KeyStore.Error
import KeyStore.Text.LowerCase
import KeyStore.Text.UpperCase
import KeyStore.Text.Utf8

/-! Arguments: the words after the verb, read as numbers, options and groups. -/
namespace KeyStore
namespace Arguments

def int64 (arg : Bytes) : Except Error Int64 :=
  match Numeral.int64? arg with
  | some n => .ok n
  | none => .error .notAnInteger

/-- A number of elements: a signed number that is not negative. -/
def count (arg : Bytes) : Except Error Nat := do
  let n ← int64 arg
  if n.toInt < 0 then throw .notPositive
  return n.toInt.toNat

def double (arg : Bytes) : Except Error Double :=
  match Double.ofNumeral? arg with
  | some x => if x.isNaN then .error .notAFloat else .ok x
  | none => .error .notAFloat

def lifetime (command : String) (unit : TimeUnit) (arg : Bytes) : Except Error Nat := do
  let n ← int64 arg
  if n.toInt ≤ 0 then throw (.invalidExpiry command)
  return n.toInt.toNat * unit.inMillis

/-- A lifetime in milliseconds that may be negative but must fit a word. -/
def signedLifetime (command : String) (unit : TimeUnit) (arg : Bytes) : Except Error Int64 := do
  let n ← int64 arg
  match Numeral.toInt64? (n.toInt * unit.inMillis) with
  | some millis => return millis
  | none => throw (.invalidExpiry command)

def negated (n : Int64) : Except Error Int64 :=
  match Numeral.toInt64? (-n.toInt) with
  | some m => .ok m
  | none => .error .overflow

/-- The words two by two; none if one is left over. -/
def pairs? : List Bytes → Option (List (Bytes × Bytes))
  | [] => some []
  | [_] => none
  | a :: b :: rest => (pairs? rest).map ((a, b) :: ·)

/-- The options of SET after those in `o`. A lifetime may be given once and not together with
KEEPTTL, a condition once; the others may be repeated. -/
def setOptions (o : SetOptions) : List Bytes → Except Error SetOptions
  | [] => .ok o
  | word :: rest =>
    if word.isWord "EX" || word.isWord "PX" then
      if o.expiry != .clear then .error .badSyntax
      else match rest with
        | [] => .error .badSyntax
        | arg :: rest =>
          let unit := if word.isWord "EX" then TimeUnit.seconds else .millis
          match lifetime "set" unit arg with
          | .error e => .error e
          | .ok millis => setOptions { o with expiry := .after millis } rest
    else if word.isWord "NX" || word.isWord "XX" then
      if o.condition != .always then .error .badSyntax
      else setOptions { o with
        condition := if word.isWord "NX" then .ifAbsent else .ifPresent } rest
    else if word.isWord "KEEPTTL" then
      match o.expiry with
      | .after _ => .error .badSyntax
      | _ => setOptions { o with expiry := .keep } rest
    else if word.isWord "GET" then setOptions { o with get := true } rest
    else .error .badSyntax

/-- The options of ZRANGE and ZREVRANGE: whether scores are asked for and whether the order is
reversed, which only ZRANGE leaves open. -/
def rangeOptions (mayReverse : Bool) (withScores descending : Bool) :
    List Bytes → Except Error (Bool × Bool)
  | [] => .ok (withScores, descending)
  | word :: rest =>
    if word.isWord "WITHSCORES" then rangeOptions mayReverse true descending rest
    else if word.isWord "REV" && mayReverse then rangeOptions mayReverse withScores true rest
    else .error .badSyntax

structure ScanOptions where
  pattern : Option Bytes := none
  count : Option Nat := none
  kind : Option String := none
deriving DecidableEq, Repr

/-- The options of SCAN after those in `o`; of a repeated one the last counts. -/
def scanOptions (o : ScanOptions) : List Bytes → Except Error ScanOptions
  | [] => .ok o
  | [_] => .error .badSyntax
  | word :: value :: rest =>
    if word.isWord "MATCH" then scanOptions { o with pattern := some value } rest
    else if word.isWord "COUNT" then
      match count value with
      | .error e => .error e
      | .ok n =>
        if n = 0 then .error .badSyntax else scanOptions { o with count := some n } rest
    else if word.isWord "TYPE" then
      scanOptions { o with kind := some (Text.lower (Text.Utf8.lossy value)) } rest
    else .error .badSyntax

def cursor (arg : Bytes) : Except Error UInt64 :=
  match Numeral.word64? arg with
  | some n => .ok (UInt64.ofNat n)
  | none => .error .invalidCursor

def capitals (arg : Bytes) : String := Text.upper (Text.Utf8.lossy arg)

end Arguments
end KeyStore
