import KeyStore.Command.Arguments
import KeyStore.Command.Verb

/-! Grammar: what the words of a command mean. The number of words is judged before what they say. -/
namespace KeyStore
namespace Grammar
open Arguments

def one (command : String) (f : Bytes → Except Error KeyCommand) :
    List Bytes → Except Error Command
  | [a] => (f a).map .onKeys
  | _ => .error (.wrongArity command)

def two (command : String) (f : Bytes → Bytes → Except Error KeyCommand) :
    List Bytes → Except Error Command
  | [a, b] => (f a b).map .onKeys
  | _ => .error (.wrongArity command)

def three (command : String) (f : Bytes → Bytes → Bytes → Except Error KeyCommand) :
    List Bytes → Except Error Command
  | [a, b, c] => (f a b c).map .onKeys
  | _ => .error (.wrongArity command)

/-- The words of a command that takes one or more. -/
def some1 (command : String) (f : List Bytes → Except Error KeyCommand) :
    List Bytes → Except Error Command
  | [] => .error (.wrongArity command)
  | a :: rest => (f (a :: rest)).map .onKeys

/-- The words of a command that takes a key and one or more others. -/
def some2 (command : String) (f : Bytes → List Bytes → Except Error KeyCommand) :
    List Bytes → Except Error Command
  | a :: b :: rest => (f a (b :: rest)).map .onKeys
  | _ => .error (.wrongArity command)

def somePairs (command : String) (f : Bytes → List (Bytes × Bytes) → Except Error KeyCommand) :
    List Bytes → Except Error Command
  | a :: b :: rest =>
    match pairs? (b :: rest) with
    | some ps => (f a ps).map .onKeys
    | none => .error (.wrongArity command)
  | _ => .error (.wrongArity command)

def set : List Bytes → Except Error Command
  | key :: value :: options =>
    (setOptions {} options).map fun o => .onKeys (.set key value o)
  | _ => .error (.wrongArity "set")

/-- SETEX and PSETEX: a string with a lifetime. -/
def setWithLifetime (command : String) (unit : TimeUnit) : List Bytes → Except Error Command :=
  three command fun key arg value => do
    return .set key value { expiry := .after (← lifetime command unit arg) }

def pop (command : String) (side : Side) : List Bytes → Except Error Command
  | [key] => .ok (.onKeys (.pop key side none))
  | [key, arg] => (count arg).map fun n => .onKeys (.pop key side (some n))
  | _ => .error (.wrongArity command)

/-- ZRANGE and ZREVRANGE. The options are judged before the indices. -/
def zrange (command : String) (mayReverse : Bool) : List Bytes → Except Error Command
  | key :: start :: stop :: options => do
    let (withScores, descending) ← rangeOptions mayReverse false (!mayReverse) options
    return .onKeys (.zrange key (← int64 start) (← int64 stop) withScores descending)
  | _ => .error (.wrongArity command)

def zrangeByScore : List Bytes → Except Error Command
  | key :: low :: high :: options => do
    let withScores ← match options with
      | [] => pure false
      | [word] => if word.isWord "WITHSCORES" then pure true else throw .badSyntax
      | _ => throw .badSyntax
    return .onKeys (.zrangeByScore key (← double low) (← double high) withScores)
  | _ => .error (.wrongArity "zrangebyscore")

/-- Members with their scores, all of which are read before any is used. -/
def scoredMembers : List (Bytes × Bytes) → Except Error (List (Double × Bytes))
  | [] => .ok []
  | (score, member) :: rest => do
    let x ← double score
    return (x, member) :: (← scoredMembers rest)

def info : List Bytes → Except Error Command
  | [] => .ok (.onServer (.info none))
  | [topic] => .ok (.onServer (.info (some (Text.lower (Text.Utf8.lossy topic)))))
  | _ => .error .badSyntax

def ping : List Bytes → Except Error Command
  | [] => .ok (.onServer (.ping none))
  | [message] => .ok (.onServer (.ping (some message)))
  | _ => .error (.wrongArity "ping")

def bare (command : String) (c : ServerCommand) : List Bytes → Except Error Command
  | [] => .ok (.onServer c)
  | _ => .error (.wrongArity command)

def config : List Bytes → Except Error Command
  | [] => .error (.wrongArity "config")
  | word :: rest =>
    let sub := capitals word
    if sub == "GET" then
      match rest with
      | [pattern] => .ok (.onServer (.configGet pattern))
      | _ => .error (.wrongArity "config|get")
    else if sub == "SET" then
      match rest with
      | [parameter, value] =>
        .ok (.onServer (.configSet (Text.lower (Text.Utf8.lossy parameter)) (Text.Utf8.lossy value)))
      | _ => .error (.wrongArity "config|set")
    else if sub == "RESETSTAT" && rest.isEmpty then .ok (.onServer .configResetStat)
    else .error (.unknownSubcommand "CONFIG" sub)

def scan : List Bytes → Except Error Command
  | [] => .error (.wrongArity "scan")
  | word :: options => do
    let start ← cursor word
    let o ← scanOptions {} options
    return .onServer (.scan start o.pattern o.count o.kind)

def publish : List Bytes → Except Error Command
  | [channel, message] => .ok (.onServer (.publish channel message))
  | _ => .error (.wrongArity "publish")

def pubsub : List Bytes → Except Error Command
  | [] => .error (.wrongArity "pubsub")
  | word :: rest =>
    let sub := capitals word
    let unknown := Except.error (.unknownSubcommand "PUBSUB" sub)
    if sub == "CHANNELS" then
      match rest with
      | [] => .ok (.onServer (.pubsubChannels none))
      | [pattern] => .ok (.onServer (.pubsubChannels (some pattern)))
      | _ => unknown
    else if sub == "NUMSUB" then .ok (.onServer (.pubsubNumSub rest))
    else if sub == "NUMPAT" && rest.isEmpty then .ok (.onServer .pubsubNumPat)
    else unknown

def ofVerb : Verb → List Bytes → Except Error Command
  | .ping => ping
  | .dbsize => bare "dbsize" .dbsize
  | .flushdb => bare "flushdb" .flushdb
  | .info => info
  | .config => config
  | .get => one "get" fun key => .ok (.get key)
  | .mget => some1 "mget" fun keys => .ok (.mget keys)
  | .set => set
  | .setex => setWithLifetime "setex" .seconds
  | .psetex => setWithLifetime "psetex" .millis
  | .incr => one "incr" fun key => .ok (.incrBy key 1)
  | .decr => one "decr" fun key => .ok (.incrBy key (-1))
  | .incrby => two "incrby" fun key arg => do return .incrBy key (← int64 arg)
  | .decrby => two "decrby" fun key arg => do return .incrBy key (← negated (← int64 arg))
  | .ttl => one "ttl" fun key => .ok (.ttl key .seconds)
  | .pttl => one "pttl" fun key => .ok (.ttl key .millis)
  | .expire => two "expire" fun key arg => do
    return .expire key (← signedLifetime "expire" .seconds arg)
  | .pexpire => two "pexpire" fun key arg => do
    return .expire key (← signedLifetime "pexpire" .millis arg)
  | .persist => one "persist" fun key => .ok (.persist key)
  | .present => some1 "exists" fun keys => .ok (.present keys)
  | .del | .unlink => some1 "del" fun keys => .ok (.del keys)
  | .type => one "type" fun key => .ok (.type key)
  | .rename => two "rename" fun source destination => .ok (.rename source destination)
  | .scan => scan
  | .lpush => some2 "lpush" fun key values => .ok (.push key values .left false)
  | .rpush => some2 "rpush" fun key values => .ok (.push key values .right false)
  | .lpushx => some2 "lpushx" fun key values => .ok (.push key values .left true)
  | .rpushx => some2 "rpushx" fun key values => .ok (.push key values .right true)
  | .lpop => pop "lpop" .left
  | .rpop => pop "rpop" .right
  | .lrange => three "lrange" fun key start stop => do
    return .lrange key (← int64 start) (← int64 stop)
  | .lindex => two "lindex" fun key index => do return .lindex key (← int64 index)
  | .llen => one "llen" fun key => .ok (.llen key)
  | .hset | .hmset => somePairs "hset" fun key fields => .ok (.hset key fields)
  | .hget => two "hget" fun key field => .ok (.hget key field)
  | .hmget => some2 "hmget" fun key fields => .ok (.hmget key fields)
  | .hgetall => one "hgetall" fun key => .ok (.hgetAll key)
  | .hincrby => three "hincrby" fun key field arg => do return .hincrBy key field (← int64 arg)
  | .hexists => two "hexists" fun key field => .ok (.hexists key field)
  | .hkeys => one "hkeys" fun key => .ok (.hkeys key)
  | .hdel => some2 "hdel" fun key fields => .ok (.hdel key fields)
  | .hlen => one "hlen" fun key => .ok (.hlen key)
  | .sadd => some2 "sadd" fun key members => .ok (.sadd key members)
  | .srem => some2 "srem" fun key members => .ok (.srem key members)
  | .smembers => one "smembers" fun key => .ok (.smembers key)
  | .sismember => two "sismember" fun key member => .ok (.sisMember key member)
  | .scard => one "scard" fun key => .ok (.scard key)
  | .sinter => some1 "sinter" fun keys => .ok (.combine .inter keys)
  | .sunion => some1 "sunion" fun keys => .ok (.combine .union keys)
  | .sdiff => some1 "sdiff" fun keys => .ok (.combine .diff keys)
  | .zadd => somePairs "zadd" fun key pairs => do return .zadd key (← scoredMembers pairs)
  | .zrem => some2 "zrem" fun key members => .ok (.zrem key members)
  | .zrange => zrange "zrange" true
  | .zrevrange => zrange "zrevrange" false
  | .zrank => two "zrank" fun key member => .ok (.zrank key member false)
  | .zrevrank => two "zrevrank" fun key member => .ok (.zrank key member true)
  | .zscore => two "zscore" fun key member => .ok (.zscore key member)
  | .zrangebyscore => zrangeByScore
  | .zincrby => three "zincrby" fun key arg member => do return .zincrBy key (← double arg) member
  | .zcard => one "zcard" fun key => .ok (.zcard key)
  | .publish => publish
  | .pubsub => pubsub
  | .subscribe => fun _ => .error (.needsSubscriber "subscribe")
  | .unsubscribe => fun _ => .error (.needsSubscriber "unsubscribe")
  | .psubscribe => fun _ => .error (.needsSubscriber "psubscribe")
  | .punsubscribe => fun _ => .error (.needsSubscriber "punsubscribe")

end Grammar

/-- The command that words make, the verb first. -/
def Command.ofWords : List Bytes → Except Error Command
  | [] => .error .emptyCommand
  | word :: args =>
    match Verb.ofBytes? word with
    | some v => Grammar.ofVerb v args
    | none => .error (.unknownCommand (Text.Utf8.lossy word))

end KeyStore
