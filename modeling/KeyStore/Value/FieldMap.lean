import Std.Data.ExtTreeMap
import KeyStore.Numeral

/-! Hashes: fields with values, listed in the order in which the fields were created. Each field
carries the number of its creation, and a second index goes from the numbers to the fields. -/
namespace KeyStore
open Std

/-- A map from fields to values that remembers the order of creation. -/
structure FieldMap where
  fields : ExtTreeMap Bytes (UInt64 × Bytes)
  order : ExtTreeMap UInt64 Bytes
  /-- The number of the next creation, which is a word. -/
  next : UInt64
deriving DecidableEq

namespace FieldMap

def empty : FieldMap := ⟨∅, ∅, 0⟩

def size (h : FieldMap) : Nat := h.fields.size

def isEmpty (h : FieldMap) : Bool := h.fields.isEmpty

def get? (h : FieldMap) (field : Bytes) : Option Bytes := h.fields[field]?.map (·.2)

def contains (h : FieldMap) (field : Bytes) : Bool := h.fields.contains field

/-- Sets a field; says whether it is new. A field that exists keeps its place. -/
def set (h : FieldMap) (field value : Bytes) : Bool × FieldMap :=
  match h.fields[field]? with
  | some (n, _) => (false, { h with fields := h.fields.insert field (n, value) })
  | none =>
    (true, ⟨h.fields.insert field (h.next, value), h.order.insert h.next field, h.next + 1⟩)

def remove (h : FieldMap) (field : Bytes) : Bool × FieldMap :=
  match h.fields[field]? with
  | some (n, _) => (true, { h with fields := h.fields.erase field, order := h.order.erase n })
  | none => (false, h)

def keys (h : FieldMap) : List Bytes := h.order.toList.map (·.2)

def entries (h : FieldMap) : List (Bytes × Bytes) :=
  h.keys.filterMap fun field => (h.get? field).map fun value => (field, value)

def increment (h : FieldMap) (field : Bytes) (delta : Int64) : Except Error Int64 × FieldMap :=
  let current := match h.get? field with
    | some value => Counter.read value
    | none => .ok 0
  match current.bind (Counter.add · delta) with
  | .ok n => (.ok n, (h.set field (Counter.write n)).2)
  | .error e => (.error e, h)

end FieldMap
end KeyStore
