import KeyStore.Value.Deque
import KeyStore.Value.FieldMap
import KeyStore.Value.MemberSet
import KeyStore.Value.SortedSet

/-! Values: what a key can hold. A command works on one kind of value and refuses the others. -/
namespace KeyStore

inductive Kind
  | string
  | list
  | hash
  | set
  | zset
deriving DecidableEq, Repr

def Kind.name : Kind → String
  | string => "string"
  | list => "list"
  | hash => "hash"
  | set => "set"
  | zset => "zset"

inductive Value
  | string (bytes : Bytes)
  | list (items : Deque)
  | hash (fields : FieldMap)
  | set (members : MemberSet)
  | zset (members : SortedSet)
deriving DecidableEq

namespace Value

def kind : Value → Kind
  | string _ => .string
  | list _ => .list
  | hash _ => .hash
  | set _ => .set
  | zset _ => .zset

def size : Value → Nat
  | string _ => 0
  | list d => d.size
  | hash h => h.size
  | set s => s.size
  | zset z => z.size

/-- Whether the value is a collection without elements. A string is kept even when empty. -/
def isEmptyCollection : Value → Bool
  | string _ => false
  | list d => d.isEmpty
  | hash h => h.isEmpty
  | set s => s.isEmpty
  | zset z => z.isEmpty

end Value

/-- One kind of value as a type: how its contents are wrapped, taken out again, and begun. -/
structure Shape (σ : Type) where
  wrap : σ → Value
  open? : Value → Option σ
  fresh : σ
  open?_eq_some : ∀ v x, open? v = some x ↔ v = wrap x

namespace Shape

def string : Shape Bytes where
  wrap := .string
  open? | .string b => some b | _ => none
  fresh := []
  open?_eq_some v x := by cases v <;> simp

def list : Shape Deque where
  wrap := .list
  open? | .list d => some d | _ => none
  fresh := .empty
  open?_eq_some v x := by cases v <;> simp

def hash : Shape FieldMap where
  wrap := .hash
  open? | .hash h => some h | _ => none
  fresh := .empty
  open?_eq_some v x := by cases v <;> simp

def set : Shape MemberSet where
  wrap := .set
  open? | .set s => some s | _ => none
  fresh := ∅
  open?_eq_some v x := by cases v <;> simp

def zset : Shape SortedSet where
  wrap := .zset
  open? | .zset z => some z | _ => none
  fresh := .empty
  open?_eq_some v x := by cases v <;> simp

end Shape
end KeyStore
