import KeyStore.Bytes

/-! Lists of byte strings that grow and shrink at both ends, and the ranges of positions that are read
of them. Positions may count from the end, and a range includes both of its ends. Main statements:
`items_push` and `items_pop` say what the operations at an end do to the items. -/
namespace KeyStore

namespace IndexRange

/-- The length of a sequence that a word gives: no sequence is longer than a signed word can count. -/
def length? (word : UInt64) : Option Nat :=
  if word.toNat < 0x8000000000000000 then some word.toNat else none

/-- A position in a sequence of `len` elements; `-1` is the last one. -/
def resolve (i : Int64) (len : Nat) : Int := if i.toInt < 0 then len + i.toInt else i.toInt

/-- The first and the last position that the range covers in a sequence of `len` elements, if it covers
any. The range may begin before the first element and end after the last one. -/
def normalize (start stop : Int64) (len : Nat) : Option (Nat × Nat) :=
  if len = 0 then none
  else
    let first : Int := if start.toInt < 0 then max (len + start.toInt) 0 else start.toInt
    let last : Int := if stop.toInt < 0 then len + stop.toInt else min stop.toInt (len - 1)
    if last < first ∨ len ≤ first then none else some (first.toNat, last.toNat)

/-- The elements of a list that the range covers, the list taken to have `len` elements. -/
def slice (start stop : Int64) (len : Nat) (xs : List α) : List α :=
  match normalize start stop len with
  | some (first, last) => (xs.drop first).take (last - first + 1)
  | none => []

end IndexRange

inductive Side
  | left
  | right
deriving DecidableEq, Repr

/-- A list in two parts, each kept from its own end inwards, so that both ends are at hand. -/
structure Deque where
  front : List Bytes
  back : List Bytes
  size : Nat
  size_eq : size = front.length + back.length
deriving DecidableEq, Repr

namespace Deque

def empty : Deque := ⟨[], [], 0, rfl⟩

def items (d : Deque) : List Bytes := d.front ++ d.back.reverse

@[simp] theorem length_items (d : Deque) : d.items.length = d.size := by simp [items, d.size_eq]

@[simp] theorem items_empty : empty.items = [] := rfl

def isEmpty (d : Deque) : Bool := d.size == 0

theorem isEmpty_iff (d : Deque) : d.isEmpty = true ↔ d.items = [] := by
  rw [← List.length_eq_zero_iff, length_items]
  simp [isEmpty]

def ofItems (xs : List Bytes) : Deque :=
  let n := xs.length / 2
  ⟨xs.take n, (xs.drop n).reverse, xs.length, by simp; omega⟩

@[simp] theorem items_ofItems (xs : List Bytes) : (ofItems xs).items = xs := by
  simp [ofItems, items]

def flip (d : Deque) : Deque := ⟨d.back, d.front, d.size, by simp [d.size_eq, Nat.add_comm]⟩

@[simp] theorem items_flip (d : Deque) : d.flip.items = d.items.reverse := by
  simp [flip, items]

def pushLeft (d : Deque) (x : Bytes) : Deque :=
  ⟨x :: d.front, d.back, d.size + 1, by simp [d.size_eq]; omega⟩

@[simp] theorem items_pushLeft (d : Deque) (x : Bytes) : (d.pushLeft x).items = x :: d.items := rfl

def push (d : Deque) (side : Side) (x : Bytes) : Deque :=
  match side with
  | .left => d.pushLeft x
  | .right => (d.flip.pushLeft x).flip

theorem items_push (d : Deque) (side : Side) (x : Bytes) :
    (d.push side x).items =
      match side with
      | .left => x :: d.items
      | .right => d.items ++ [x] := by
  cases side <;> simp [push]

/-- Removes the leftmost item. When the left part is used up, the right one is divided anew. -/
def popLeft (d : Deque) : Option Bytes × Deque :=
  match h : d.front with
  | x :: xs => (some x, ⟨xs, d.back, d.size - 1, by simp [d.size_eq, h]⟩)
  | [] =>
    match d.back.reverse with
    | x :: xs => (some x, ofItems xs)
    | [] => (none, empty)

theorem items_popLeft (d : Deque) :
    d.popLeft.1 = d.items.head? ∧ d.popLeft.2.items = d.items.tail := by
  unfold popLeft
  split
  · simp_all [items]
  · rename_i h
    split <;> rename_i h'
    · simp [show d.items = d.back.reverse by simp [items, h], h']
    · simp [show d.items = d.back.reverse by simp [items, h], h']

def pop (d : Deque) (side : Side) : Option Bytes × Deque :=
  match side with
  | .left => d.popLeft
  | .right => let r := d.flip.popLeft; (r.1, r.2.flip)

theorem items_pop (d : Deque) (side : Side) :
    (d.pop side).1 = (match side with | .left => d.items.head? | .right => d.items.getLast?) ∧
      (d.pop side).2.items =
        match side with
        | .left => d.items.tail
        | .right => d.items.dropLast := by
  cases side
  · exact d.items_popLeft
  · simp [pop, items_popLeft, List.head?_reverse, List.tail_reverse]

def pushAll (d : Deque) (side : Side) (xs : List Bytes) : Deque := xs.foldl (·.push side ·) d

/-- Removes up to `n` items at an end; the first one removed comes first. -/
def popMany (side : Side) : Nat → Deque → List Bytes × Deque
  | 0, d => ([], d)
  | n + 1, d =>
    match d.pop side with
    | (some x, d) => let r := popMany side n d; (x :: r.1, r.2)
    | (none, d) => ([], d)

def get? (d : Deque) (i : Int64) : Option Bytes :=
  let j := IndexRange.resolve i d.size
  if j < 0 then none else d.items[j.toNat]?

def range (d : Deque) (start stop : Int64) : List Bytes :=
  IndexRange.slice start stop d.size d.items

end Deque
end KeyStore
