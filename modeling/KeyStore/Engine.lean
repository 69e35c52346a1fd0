import KeyStore.Broker
import KeyStore.Command.Grammar
import KeyStore.Command.Task
import KeyStore.Keyspace.Scan
import KeyStore.Stats

/-! The engine: a keyspace, a broker, the settings and the statistics, and the commands that run
on them. -/
namespace KeyStore

/-- What an engine is built on: the hash that orders scans, the instants of the platform, the queues of
subscribers, and the order in which followers are visited. -/
structure Base (Q : Type) where
  hash : Key → UInt64
  horizon : Horizon
  fifo : Fifo Q
  visits : Visits

def Base.standard : Base Queue := ⟨Key.fnv1a, .standard, Queue.fifo, .ascending⟩

structure Engine (Q : Type) where
  keyspace : Keyspace
  broker : Broker Q
  config : Config
  stats : Stats

abbrev Outcome := Except Error Reply

namespace Engine
variable {Q : Type}

def new (config : Config) (base : Base Q) : Engine Q :=
  ⟨.new base.hash base.horizon, .new base.fifo base.visits, config, ∅⟩

def crlf : String := "\r\n"

def keyspaceInfo (e : Engine Q) : String :=
  "# Keyspace" ++ crlf ++
    (if e.keyspace.size = 0 then ""
      else "db0:keys=" ++ toString e.keyspace.size ++
        ",expires=" ++ toString e.keyspace.volatileSize ++ crlf) ++ crlf

def statsInfo (e : Engine Q) : String :=
  let gone := e.keyspace.lazilyExpired
  let swept := e.keyspace.activelyExpired
  "# Stats" ++ crlf ++
    "total_commands_processed:" ++ toString e.stats.totalCalls ++ crlf ++
    "expired_keys:" ++ toString (gone + swept) ++ crlf ++
    "expired_keys_active:" ++ toString swept ++ crlf ++
    "expired_keys_lazy:" ++ toString gone ++ crlf ++ crlf

def pubsubInfo (e : Engine Q) : String :=
  "# Pubsub" ++ crlf ++
    "pubsub_channels:" ++ toString (e.broker.activeChannels none).length ++ crlf ++
    "pubsub_patterns:" ++ toString e.broker.patternCount ++ crlf ++
    "pubsub_subscribers:" ++ toString e.broker.subscriberCount ++ crlf ++
    "published_messages:" ++ toString e.broker.published ++ crlf ++
    "delivered_messages:" ++ toString e.broker.delivered ++ crlf ++
    "dropped_messages:" ++ toString e.broker.dropped ++ crlf ++ crlf

def info (e : Engine Q) (topic : Option String) : String :=
  let all := topic.all fun t => ["all", "everything", "default"].contains t
  let shows (name : String) : Bool := all || topic == some name
  (if shows "keyspace" then e.keyspaceInfo else "") ++
    (if shows "stats" then e.statsInfo else "") ++
    (if shows "pubsub" then e.pubsubInfo else "") ++
    (if shows "commandstats" then e.stats.render else "")

def settings (e : Engine Q) (pattern : Bytes) : List (Bytes × Reply) :=
  let glob := Glob.ofBytes (pattern.map Bytes.toLower)
  (Parameter.all.filter fun p => glob.isMatch (Bytes.ofString p.name)).map fun p =>
    (Bytes.ofString p.name, .text (e.config.get p))

/-- What a scan lets through: keys that match the pattern and hold a value of the kind. -/
def scanFilter (pattern : Option Bytes) (kind : Option String) (key : Key) (entry : Entry) : Bool :=
  let glob := (pattern.map Glob.ofBytes).filter fun g => !g.isMatchAll
  glob.all (·.isMatch key) && kind.all (Bytes.isWord (Bytes.ofString entry.value.kind.name))

def serve (e : Engine Q) : ServerCommand → Outcome × Engine Q
  | .ping (some message) => (.ok (.bulk message), e)
  | .ping none => (.ok (.status "PONG"), e)
  | .dbsize => (.ok (.count e.keyspace.size), e)
  | .flushdb => (.ok .ok, { e with keyspace := e.keyspace.flush.2 })
  | .info topic => (.ok (.text (e.info topic)), e)
  | .configGet pattern => (.ok (.map (e.settings pattern)), e)
  | .configSet parameter value =>
    match e.config.setNamed parameter value with
    | .ok config => (.ok .ok, { e with config })
    | .error err => (.error (.badSetting err), e)
  | .configResetStat => (.ok .ok, { e with stats := ∅ })
  | .scan cursor pattern count kind =>
    let ((next, keys), keyspace) :=
      e.keyspace.scan cursor (count.getD e.config.scanCount) (scanFilter pattern kind)
    (.ok (.array [.text (toString next), .bulks keys]), { e with keyspace })
  | .publish channel message =>
    let (n, broker) := e.broker.publish e.config.overflow e.config.publishTimeout channel message
    (.ok (.count n), { e with broker })
  | .pubsubChannels pattern => (.ok (.bulks (e.broker.activeChannels pattern)), e)
  | .pubsubNumSub channels =>
    (.ok (.map (channels.map fun c => (c, .count (e.broker.subscribers c)))), e)
  | .pubsubNumPat => (.ok (.count e.broker.patternCount), e)

def perform (e : Engine Q) : Command → Outcome × Engine Q
  | .onKeys c =>
    let (out, keyspace) := (c.task e.keyspace.clock).run e.keyspace
    (out, { e with keyspace })
  | .onServer c => e.serve c

def record (e : Engine Q) (name : String) (nanos : Nat) (out : Outcome) : Engine Q :=
  { e with stats := e.stats.record name (nanos / 1000) (!out.isOk) }

def execute (e : Engine Q) (c : Command) (nanos : Nat) : Outcome × Engine Q :=
  let (out, e) := e.perform c
  (out, e.record c.name nanos out)

/-- Runs what was understood; what was not is only reported. -/
def executeParsed (e : Engine Q) (c : Except Error Command) (nanos : Nat) : Outcome × Engine Q :=
  match c with
  | .ok c => e.execute c nanos
  | .error err => (.error err, e)

def call (e : Engine Q) (words : List Bytes) (nanos : Nat) : Outcome × Engine Q :=
  e.executeParsed (Command.ofWords words) nanos

def advance (e : Engine Q) (millis : UInt64) : Engine Q :=
  { e with keyspace := e.keyspace.advance millis }

/-- Admits a subscriber; the queue gets the capacity that is in force. -/
def subscriber (e : Engine Q) : SubscriberId × Engine Q :=
  let (id, broker) := e.broker.subscriber e.config.queueCapacity
  (id, { e with broker })

def subscribe (e : Engine Q) (channels : List Bytes) : SubscriberId × Engine Q :=
  let (id, e) := e.subscriber
  (id, { e with broker := e.broker.subscribe id channels })

def psubscribe (e : Engine Q) (patterns : List Bytes) : SubscriberId × Engine Q :=
  let (id, e) := e.subscriber
  (id, { e with broker := e.broker.psubscribe id patterns })

end Engine

/-- Commands that wait to be run, those that were not understood with the reason. -/
structure Batch where
  queued : Array (Except Error Command)

namespace Batch

def empty : Batch := ⟨#[]⟩

def push (b : Batch) (c : Command) : Batch := ⟨b.queued.push (.ok c)⟩

def pushWords (b : Batch) (words : List Bytes) : Batch := ⟨b.queued.push (Command.ofWords words)⟩

def size (b : Batch) : Nat := b.queued.size

def isEmpty (b : Batch) : Bool := b.queued.isEmpty

/-- Runs commands one after the other; the `i`-th takes `nanos i`. -/
def runFrom (nanos : Nat → Nat) : Nat → List (Except Error Command) → Engine Q → List Outcome × Engine Q
  | _, [], e => ([], e)
  | i, c :: cs, e =>
    let (out, e) := e.executeParsed c (nanos i)
    let (outs, e) := runFrom nanos (i + 1) cs e
    (out :: outs, e)

def run (b : Batch) (e : Engine Q) (nanos : Nat → Nat) : List Outcome × Engine Q :=
  runFrom nanos 0 b.queued.toList e

end Batch

end KeyStore
