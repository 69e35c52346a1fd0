import KeyStore.Bytes
import KeyStore.Double

/-! Replies: what a command that succeeds answers. -/
namespace KeyStore

inductive Reply
  | ok
  | status (text : String)
  /-- A key, field or member that is not there. -/
  | nil
  | integer (n : Int)
  | bool (b : Bool)
  | double (x : Double)
  | bulk (bytes : Bytes)
  | array (items : List Reply)
  /-- Fields with values, in order. -/
  | map (pairs : List (Bytes × Reply))
deriving Repr

namespace Reply

def count (n : Nat) : Reply := integer n

def optional : Option Bytes → Reply
  | some b => bulk b
  | none => nil

def text (s : String) : Reply := bulk (Bytes.ofString s)

def bulks (items : List Bytes) : Reply := array (items.map bulk)

/-- Members, each paired with its score if asked for. -/
def scored (items : List (Bytes × Double)) (withScores : Bool) : Reply :=
  array (items.map fun p => if withScores then array [bulk p.1, double p.2] else bulk p.1)

def isNil : Reply → Bool
  | nil => true
  | _ => false

def asInteger : Reply → Option Int
  | integer n => some n
  | bool b => some (if b then 1 else 0)
  | _ => none

def asBool : Reply → Option Bool
  | bool b => some b
  | integer n => some (n != 0)
  | _ => none

def asDouble : Reply → Option Double
  | double x => some x
  | _ => none

def asBulk : Reply → Option Bytes
  | bulk b => some b
  | _ => none

def asArray : Reply → Option (List Reply)
  | array items => some items
  | _ => none

def asMap : Reply → Option (List (Bytes × Reply))
  | map pairs => some pairs
  | _ => none

end Reply
end KeyStore
