import KeyStore.Value

/-! Entries: values with an optional instant from which on they are gone. -/
namespace KeyStore

/-- Milliseconds since the clock was started. -/
abbrev Instant := Nat

/-- How far the instants of a platform reach. Every lifetime that a signed word counts in milliseconds is assumed
to end at one of them, whenever it begins. -/
structure Horizon where
  last : Instant
  le_last : UInt64.size + 0x7fffffffffffffff ≤ last

/-- Seconds in a signed 64-bit word, of which a thousand are left for the time before the clock was started. -/
def Horizon.standard : Horizon := ⟨(0x7fffffffffffffff - 1000) * 1000, by decide⟩

/-- Milliseconds since the clock was started, in a word that wraps. -/
structure Clock where
  millis : UInt64
  horizon : Horizon

namespace Clock

def now (c : Clock) : Instant := c.millis.toNat

def advance (c : Clock) (millis : UInt64) : Clock := { c with millis := c.millis + millis }

def after? (c : Clock) (millis : Nat) : Option Instant :=
  if c.now + millis ≤ c.horizon.last then some (c.now + millis) else none

end Clock

inductive TimeUnit
  | seconds
  | millis
deriving DecidableEq, Repr

def TimeUnit.inMillis : TimeUnit → Nat
  | seconds => 1000
  | millis => 1

structure Entry where
  value : Value
  expiresAt : Option Instant
deriving DecidableEq

namespace Entry

def lasting (v : Value) : Entry := ⟨v, none⟩

def isDue (e : Entry) (now : Instant) : Bool := e.expiresAt.any (· ≤ now)

/-- The milliseconds left as a 64-bit word, `-1` for an entry that does not expire. -/
def millisLeft (e : Entry) (now : Instant) : Int64 :=
  match e.expiresAt with
  | none => -1
  | some at' => Int64.ofNat (at' - now)

def timeLeft (e : Entry) (now : Instant) : TimeUnit → Int64
  | .millis => e.millisLeft now
  | .seconds => if e.expiresAt.isNone then -1 else (e.millisLeft now + 500) / 1000

end Entry

abbrev Slot := Option Entry

namespace Slot

/-- The slot as a command sees it: an entry that has expired is not there. -/
def live (s : Slot) (now : Instant) : Slot := s.filter fun e => !e.isDue now

def nonempty (s : Slot) : Slot := s.filter fun e => !e.value.isEmptyCollection

end Slot

namespace Shape

/-- Reads the contents of a slot; a missing key gives `missing`, another kind of value is refused. -/
def look (shape : Shape σ) (missing : α) (f : σ → α) : Slot → Except Error α
  | none => .ok missing
  | some e =>
    match shape.open? e.value with
    | some x => .ok (f x)
    | none => .error .wrongType

/-- A key that holds nothing is looked at as one that holds fresh contents. -/
theorem look_eq_map (shape : Shape σ) {missing : α} {f : σ → α} (hmissing : f shape.fresh = missing)
    (s : Slot) : shape.look missing f s = (shape.look shape.fresh id s).map f := by
  cases s with
  | none => exact congrArg Except.ok hmissing.symm
  | some e => cases ho : shape.open? e.value <;> simp [look, ho, Except.map]

/-- Works on the contents of a slot that must exist; a missing key gives `missing`. -/
def alter (shape : Shape σ) (missing : α) (f : σ → Except Error α × σ) :
    Slot → Except Error α × Slot
  | none => (.ok missing, none)
  | some e =>
    match shape.open? e.value with
    | some x => let r := f x; (r.1, some { e with value := shape.wrap r.2 })
    | none => (.error .wrongType, some e)

/-- Works on the contents of a slot, begun afresh for a missing key. -/
def grow (shape : Shape σ) (f : σ → Except Error α × σ) (s : Slot) : Except Error α × Slot :=
  let e := s.getD (.lasting (shape.wrap shape.fresh))
  match shape.open? e.value with
  | some x => let r := f x; (r.1, some { e with value := shape.wrap r.2 })
  | none => (.error .wrongType, some e)

end Shape
end KeyStore
