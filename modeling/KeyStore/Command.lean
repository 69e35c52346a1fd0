import KeyStore.Double
import KeyStore.Entry

/-! Commands: what a client can ask for, once its words have been understood. Commands on keys work
on the entries of the keys they name; commands on the server do not name keys. -/
namespace KeyStore

inductive SetCondition
  | always
  | ifAbsent
  | ifPresent
deriving DecidableEq, Repr

inductive SetExpiry
  /-- The new entry does not expire. -/
  | clear
  /-- The new entry expires after so many milliseconds. -/
  | after (millis : Nat)
  /-- The new entry expires when the old one would have. -/
  | keep
deriving DecidableEq, Repr

structure SetOptions where
  condition : SetCondition := .always
  expiry : SetExpiry := .clear
  /-- The reply is the previous string. -/
  get : Bool := false
deriving DecidableEq, Repr

inductive KeyCommand
  | get (key : Key)
  | mget (keys : List Key)
  | set (key : Key) (value : Bytes) (options : SetOptions)
  | incrBy (key : Key) (delta : Int64)
  | ttl (key : Key) (unit : TimeUnit)
  | expire (key : Key) (millis : Int64)
  | persist (key : Key)
  | push (key : Key) (values : List Bytes) (side : Side) (onlyExisting : Bool)
  | pop (key : Key) (side : Side) (count : Option Nat)
  | lrange (key : Key) (start stop : Int64)
  | lindex (key : Key) (index : Int64)
  | llen (key : Key)
  | hset (key : Key) (fields : List (Bytes × Bytes))
  | hget (key : Key) (field : Bytes)
  | hmget (key : Key) (fields : List Bytes)
  | hgetAll (key : Key)
  | hincrBy (key : Key) (field : Bytes) (delta : Int64)
  | hexists (key : Key) (field : Bytes)
  | hkeys (key : Key)
  | hdel (key : Key) (fields : List Bytes)
  | hlen (key : Key)
  | sadd (key : Key) (members : List Bytes)
  | srem (key : Key) (members : List Bytes)
  | smembers (key : Key)
  | sisMember (key : Key) (member : Bytes)
  | scard (key : Key)
  | combine (op : Algebra) (keys : List Key)
  | zadd (key : Key) (members : List (Double × Bytes))
  | zrem (key : Key) (members : List Bytes)
  | zrange (key : Key) (start stop : Int64) (withScores descending : Bool)
  | zrank (key : Key) (member : Bytes) (descending : Bool)
  | zscore (key : Key) (member : Bytes)
  | zrangeByScore (key : Key) (low high : Double) (withScores : Bool)
  | zincrBy (key : Key) (delta : Double) (member : Bytes)
  | zcard (key : Key)
  | present (keys : List Key)
  | del (keys : List Key)
  | type (key : Key)
  | rename (source destination : Key)
deriving DecidableEq, Repr

inductive ServerCommand
  | ping (message : Option Bytes)
  | dbsize
  | flushdb
  | info (topic : Option String)
  | configGet (pattern : Bytes)
  | configSet (parameter value : String)
  | configResetStat
  | scan (cursor : UInt64) (pattern : Option Bytes) (count : Option Nat) (kind : Option String)
  | publish (channel message : Bytes)
  | pubsubChannels (pattern : Option Bytes)
  | pubsubNumSub (channels : List Bytes)
  | pubsubNumPat
deriving DecidableEq, Repr

inductive Command
  | onKeys (c : KeyCommand)
  | onServer (c : ServerCommand)
deriving DecidableEq, Repr

namespace KeyCommand

def keys : KeyCommand → List Key
  | get key | set key .. | incrBy key _ | ttl key _ | expire key _ | persist key | push key ..
  | pop key .. | lrange key .. | lindex key _ | llen key | hset key _ | hget key _ | hmget key _
  | hgetAll key | hincrBy key .. | hexists key _ | hkeys key | hdel key _ | hlen key | sadd key _
  | srem key _ | smembers key | sisMember key _ | scard key | zadd key _ | zrem key _ | zrange key ..
  | zrank key .. | zscore key _ | zrangeByScore key .. | zincrBy key .. | zcard key | type key => [key]
  | mget keys | combine _ keys | present keys | del keys => keys
  | rename source destination => [source, destination]

/-- The name under which a command is counted. -/
def name : KeyCommand → String
  | get _ => "get"
  | mget _ => "mget"
  | set .. => "set"
  | incrBy .. => "incrby"
  | ttl _ .seconds => "ttl"
  | ttl _ .millis => "pttl"
  | expire .. => "expire"
  | persist _ => "persist"
  | push _ _ .left false => "lpush"
  | push _ _ .right false => "rpush"
  | push _ _ .left true => "lpushx"
  | push _ _ .right true => "rpushx"
  | pop _ .left _ => "lpop"
  | pop _ .right _ => "rpop"
  | lrange .. => "lrange"
  | lindex .. => "lindex"
  | llen _ => "llen"
  | hset .. => "hset"
  | hget .. => "hget"
  | hmget .. => "hmget"
  | hgetAll _ => "hgetall"
  | hincrBy .. => "hincrby"
  | hexists .. => "hexists"
  | hkeys _ => "hkeys"
  | hdel .. => "hdel"
  | hlen _ => "hlen"
  | sadd .. => "sadd"
  | srem .. => "srem"
  | smembers _ => "smembers"
  | sisMember .. => "sismember"
  | scard _ => "scard"
  | combine .inter _ => "sinter"
  | combine .union _ => "sunion"
  | combine .diff _ => "sdiff"
  | zadd .. => "zadd"
  | zrem .. => "zrem"
  | zrange _ _ _ _ false => "zrange"
  | zrange _ _ _ _ true => "zrevrange"
  | zrank _ _ false => "zrank"
  | zrank _ _ true => "zrevrank"
  | zscore .. => "zscore"
  | zrangeByScore .. => "zrangebyscore"
  | zincrBy .. => "zincrby"
  | zcard _ => "zcard"
  | present _ => "exists"
  | del _ => "del"
  | type _ => "type"
  | rename .. => "rename"

/-- Whether a command may change what its keys hold. -/
def isWrite : KeyCommand → Bool
  | set .. | incrBy .. | expire .. | persist _ | push .. | pop .. | hset .. | hincrBy .. | hdel ..
  | sadd .. | srem .. | zadd .. | zrem .. | zincrBy .. | del _ | rename .. => true
  | _ => false

end KeyCommand

namespace ServerCommand

def name : ServerCommand → String
  | ping _ => "ping"
  | dbsize => "dbsize"
  | flushdb => "flushdb"
  | info _ => "info"
  | configGet _ | configSet .. | configResetStat => "config"
  | scan .. => "scan"
  | publish .. => "publish"
  | pubsubChannels _ | pubsubNumSub _ | pubsubNumPat => "pubsub"

def isWrite : ServerCommand → Bool
  | flushdb => true
  | _ => false

end ServerCommand

namespace Command

def name : Command → String
  | onKeys c => c.name
  | onServer c => c.name

def isWrite : Command → Bool
  | onKeys c => c.isWrite
  | onServer c => c.isWrite

end Command
end KeyStore
