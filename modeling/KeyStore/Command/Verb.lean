import KeyStore.Text.UpperCase
import KeyStore.Text.Utf8

/-! Verbs: the first word of a command. It is recognised by its capitals. -/
namespace KeyStore

inductive Verb
  | ping | dbsize | flushdb | info | config
  | get | mget | set | setex | psetex | incr | decr | incrby | decrby
  | ttl | pttl | expire | pexpire | persist | present | del | unlink | type | rename | scan
  | lpush | rpush | lpushx | rpushx | lpop | rpop | lrange | lindex | llen
  | hset | hmset | hget | hmget | hgetall | hincrby | hexists | hkeys | hdel | hlen
  | sadd | srem | smembers | sismember | scard | sinter | sunion | sdiff
  | zadd | zrem | zrange | zrevrange | zrank | zrevrank | zscore | zrangebyscore | zincrby | zcard
  | publish | pubsub | subscribe | unsubscribe | psubscribe | punsubscribe
deriving DecidableEq, Repr

namespace Verb

def table : List (String × Verb) :=
  [("PING", ping), ("DBSIZE", dbsize), ("FLUSHDB", flushdb), ("INFO", info), ("CONFIG", config),
   ("GET", get), ("MGET", mget), ("SET", set), ("SETEX", setex), ("PSETEX", psetex),
   ("INCR", incr), ("DECR", decr), ("INCRBY", incrby), ("DECRBY", decrby),
   ("TTL", ttl), ("PTTL", pttl), ("EXPIRE", expire), ("PEXPIRE", pexpire), ("PERSIST", persist),
   ("EXISTS", present), ("DEL", del), ("UNLINK", unlink), ("TYPE", type), ("RENAME", rename),
   ("SCAN", scan),
   ("LPUSH", lpush), ("RPUSH", rpush), ("LPUSHX", lpushx), ("RPUSHX", rpushx), ("LPOP", lpop),
   ("RPOP", rpop), ("LRANGE", lrange), ("LINDEX", lindex), ("LLEN", llen),
   ("HSET", hset), ("HMSET", hmset), ("HGET", hget), ("HMGET", hmget), ("HGETALL", hgetall),
   ("HINCRBY", hincrby), ("HEXISTS", hexists), ("HKEYS", hkeys), ("HDEL", hdel), ("HLEN", hlen),
   ("SADD", sadd), ("SREM", srem), ("SMEMBERS", smembers), ("SISMEMBER", sismember),
   ("SCARD", scard), ("SINTER", sinter), ("SUNION", sunion), ("SDIFF", sdiff),
   ("ZADD", zadd), ("ZREM", zrem), ("ZRANGE", zrange), ("ZREVRANGE", zrevrange), ("ZRANK", zrank),
   ("ZREVRANK", zrevrank), ("ZSCORE", zscore), ("ZRANGEBYSCORE", zrangebyscore),
   ("ZINCRBY", zincrby), ("ZCARD", zcard),
   ("PUBLISH", publish), ("PUBSUB", pubsub), ("SUBSCRIBE", subscribe),
   ("UNSUBSCRIBE", unsubscribe), ("PSUBSCRIBE", psubscribe), ("PUNSUBSCRIBE", punsubscribe)]

def ofBytes? (word : Bytes) : Option Verb := table.lookup (Text.upper (Text.Utf8.lossy word))

end Verb
end KeyStore
