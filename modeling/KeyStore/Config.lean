import KeyStore.Bytes
import KeyStore.Error
import KeyStore.Numeral
import KeyStore.Text.LowerCase

/-! Settings: eight parameters, read and changed as text by their names. -/
namespace KeyStore

/-- What happens to a message when the queue of a subscriber is full. -/
inductive OverflowPolicy
  /-- The publisher waits for room for a while and then drops the message. -/
  | block
  /-- The oldest message makes room. -/
  | dropOldest
deriving DecidableEq, Repr

namespace OverflowPolicy

def name : OverflowPolicy → String
  | block => "block"
  | dropOldest => "drop-oldest"

def ofName (name : String) : Except SettingError OverflowPolicy :=
  let low := Text.lower name
  if low == "block" then .ok block
  else if low == "drop-oldest" then .ok dropOldest
  else .error (.unknownPolicy low)

end OverflowPolicy

structure Config where
  /-- Sweeps in a second. -/
  hz : Nat := 10
  loglevel : String := "info"
  activeExpire : Bool := true
  activeExpireSample : Nat := 20
  queueCapacity : Nat := 1024
  /-- Milliseconds that a publisher waits for room. -/
  publishTimeout : Nat := 100
  overflow : OverflowPolicy := .block
  /-- The keys of a scan's page when the scan does not say. -/
  scanCount : Nat := 10
deriving DecidableEq, Repr

inductive Parameter
  | hz
  | loglevel
  | activeExpire
  | activeExpireSample
  | queueCapacity
  | publishTimeout
  | overflow
  | scanCount
deriving DecidableEq, Repr

namespace Parameter

def all : List Parameter :=
  [hz, loglevel, activeExpire, activeExpireSample, queueCapacity, publishTimeout, overflow, scanCount]

def name : Parameter → String
  | hz => "hz"
  | loglevel => "loglevel"
  | activeExpire => "active-expire"
  | activeExpireSample => "active-expire-sample"
  | queueCapacity => "pubsub-queue-capacity"
  | publishTimeout => "pubsub-publish-timeout"
  | overflow => "pubsub-overflow"
  | scanCount => "scan-count"

def ofName? (name : String) : Option Parameter := all.find? (·.name == name)

end Parameter

namespace Config

def default : Config := {}

def yesNo (b : Bool) : String := if b then "yes" else "no"

def get (c : Config) : Parameter → String
  | .hz => toString c.hz
  | .loglevel => c.loglevel
  | .activeExpire => yesNo c.activeExpire
  | .activeExpireSample => toString c.activeExpireSample
  | .queueCapacity => toString c.queueCapacity
  | .publishTimeout => toString c.publishTimeout
  | .overflow => c.overflow.name
  | .scanCount => toString c.scanCount

def number (value : String) (e : SettingError) : Except SettingError Nat :=
  match Numeral.word64? (Bytes.ofString value) with
  | some n => .ok n
  | none => .error e

def positive (value : String) : Except SettingError Nat :=
  (number value .badNumber).map (max 1)

def ofYesNo (value : String) : Except SettingError Bool :=
  let low := Text.lower value
  if low == "yes" then .ok true else if low == "no" then .ok false else .error .notYesNo

/-- Changes a parameter. The rate is kept between 1 and 500, and counts are at least one. -/
def set (c : Config) (p : Parameter) (value : String) : Except SettingError Config :=
  match p with
  | .hz => (number value .badRate).map fun n => { c with hz := min (max 1 n) 500 }
  | .loglevel => .ok { c with loglevel := Text.lower value }
  | .activeExpire => (ofYesNo value).map fun b => { c with activeExpire := b }
  | .activeExpireSample => (positive value).map fun n => { c with activeExpireSample := n }
  | .queueCapacity => (positive value).map fun n => { c with queueCapacity := n }
  | .publishTimeout => (number value .badNumber).map fun n => { c with publishTimeout := n }
  | .overflow => (OverflowPolicy.ofName value).map fun o => { c with overflow := o }
  | .scanCount => (positive value).map fun n => { c with scanCount := n }

def get? (c : Config) (name : String) : Option String :=
  (Parameter.ofName? (Text.lower name)).map c.get

def setNamed (c : Config) (name value : String) : Except SettingError Config :=
  match Parameter.ofName? (Text.lower name) with
  | some p => c.set p value
  | none => .error (.unknownParameter name)

/-- The parameter that a command line argument names: two dashes and its exact name. -/
def flag? (arg : String) : Option Parameter :=
  match arg.toList with
  | '-' :: '-' :: name => Parameter.ofName? (String.ofList name)
  | _ => none

/-- Reads settings from command line arguments. What names no parameter is passed over, and a value
that does not suit its parameter leaves it as it is. -/
def applyArgs (c : Config) : List String → Config
  | [] => c
  | [_] => c
  | arg :: value :: rest =>
    match flag? arg with
    | some p => applyArgs ((c.set p value).toOption.getD c) rest
    | none => applyArgs c (value :: rest)

def ofArgs (args : List String) : Config := applyArgs default args

end Config
end KeyStore
