import KeyStore.Command
import KeyStore.Task

/-! What each command on keys does with their slots. -/
namespace KeyStore
namespace KeyCommand

/-- The reply and the contents after a step that may fail and then changes nothing. -/
def attempt (old : σ) (r : Except Error α) (reply : α → Reply) (new : α → σ) :
    Except Error Reply × σ :=
  match r with
  | .ok x => (.ok (reply x), new x)
  | .error e => (.error e, old)

/-- Applies a step that says whether it changed something to each element; counts the changes. -/
def tally (step : σ → α → Bool × σ) : List α → σ → Nat × σ
  | [], x => (0, x)
  | a :: as, x =>
    let (changed, x) := step x a
    let (n, x) := tally step as x
    (if changed then n + 1 else n, x)

def counted (step : σ → α → Bool × σ) (as : List α) (x : σ) : Except Error Reply × σ :=
  let (n, x) := tally step as x
  (.ok (.count n), x)

/-- The string in a slot, if it is to be replied: a slot of another kind is then refused. -/
def previous (get : Bool) (s : Slot) : Except Error (Option Bytes) :=
  if get then Shape.string.look none some s else .ok none

def allows : SetCondition → Slot → Bool
  | .always, _ => true
  | .ifAbsent, s => s.isNone
  | .ifPresent, s => s.isSome

/-- Sets a string, with the expiry that `expiry` gives for the slot found. -/
def setSlot (value : Bytes) (o : SetOptions) (expiry : Slot → Option Instant) (s : Slot) :
    Except Error Reply × Slot :=
  match previous o.get s with
  | .error e => (.error e, s)
  | .ok old =>
    let writes := allows o.condition s
    (.ok (if o.get then .optional old else if writes then .ok else .nil),
      if writes then some ⟨.string value, expiry s⟩ else s)

def setTask (clock : Clock) (key : Key) (value : Bytes) (o : SetOptions) : Task :=
  match o.expiry with
  | .clear => .edit key (setSlot value o fun _ => none)
  | .keep => .edit key (setSlot value o fun s => s.bind (·.expiresAt))
  | .after millis =>
    match clock.after? millis with
    | some at' => .edit key (setSlot value o fun _ => some at')
    | none => .refuse (.invalidExpiry "set")

theorem setTask_cases (clock : Clock) (key : Key) (value : Bytes) (o : SetOptions) :
    setTask clock key value o = .refuse (.invalidExpiry "set") ∨
      ∃ expiry, setTask clock key value o = .edit key (setSlot value o expiry) := by
  rw [setTask]
  split
  · exact .inr ⟨_, rfl⟩
  · exact .inr ⟨_, rfl⟩
  · split
    · exact .inr ⟨_, rfl⟩
    · exact .inl rfl

def incrSlot (delta : Int64) : Slot → Except Error Reply × Slot
  | none => (.ok (.integer delta.toInt), some (.lasting (.string (Counter.write delta))))
  | some e =>
    Shape.string.alter .nil (fun b =>
      attempt b (Counter.increment b delta) (fun n => .integer n.toInt) Counter.write) (some e)

/-- Sets the instant of expiry; without one the entry is removed at once. -/
def expireSlot (at' : Option Instant) : Slot → Except Error Reply × Slot
  | none => (.ok (.count 0), none)
  | some e => (.ok (.count 1), at'.map fun t => { e with expiresAt := some t })

/-- Sets a lifetime that begins now. One that is not positive has already ended. -/
def expireTask (clock : Clock) (key : Key) (millis : Int64) : Task :=
  if millis.toInt ≤ 0 then .edit key (expireSlot none)
  else
    match clock.after? millis.toInt.toNat with
    | some at' => .edit key (expireSlot (some at'))
    | none => .refuse (.invalidExpiry "expire")

theorem expireTask_cases (clock : Clock) (key : Key) (millis : Int64) :
    expireTask clock key millis = .refuse (.invalidExpiry "expire") ∨
      ∃ at', expireTask clock key millis = .edit key (expireSlot at') := by
  rw [expireTask]
  split
  · exact .inr ⟨_, rfl⟩
  · split
    · exact .inr ⟨_, rfl⟩
    · exact .inl rfl

def persistSlot : Slot → Except Error Reply × Slot
  | none => (.ok (.count 0), none)
  | some e =>
    if e.expiresAt.isSome then (.ok (.count 1), some { e with expiresAt := none })
    else (.ok (.count 0), some e)

def pushSlot (values : List Bytes) (side : Side) (onlyExisting : Bool) (s : Slot) :
    Except Error Reply × Slot :=
  if onlyExisting && s.isNone then (.ok (.count 0), s)
  else Shape.list.grow (fun d => let d := d.pushAll side values; (.ok (.count d.size), d)) s

/-- Pops one element, or up to a number of them as an array. -/
def popItems (side : Side) (count : Option Nat) (d : Deque) : Except Error Reply × Deque :=
  match count with
  | none => let r := d.pop side; (.ok (.optional r.1), r.2)
  | some n => let r := d.popMany side n; (.ok (.bulks r.1), r.2)

/-- The combination of the sets that the keys hold; a key of another kind is refused. -/
def combineHeld (op : Algebra) (keys : List Key) (held : Held) : Except Error Reply × Held :=
  let operands := keys.mapM fun key => Shape.set.look none some (held.entry key)
  (operands.map fun sets => .bulks (op.combine sets).toList, held)

def renameHeld (source destination : Key) (held : Held) : Except Error Reply × Held :=
  match held.take source with
  | (none, held) => (.error .noSuchKey, held)
  | (some e, held) => (.ok .ok, (held.put destination e).2)

theorem renameHeld_fst (source destination : Key) (held : Held) :
    (renameHeld source destination held).1 =
      if (held.entry source).isSome then .ok .ok else .error .noSuchKey := by
  rw [renameHeld, ← Held.take_fst]
  split
  · rename_i htake
    rw [htake]
    rfl
  · rename_i htake
    rw [htake]
    rfl

theorem entry_renameHeld (source destination : Key) (h : Held) (err : Error)
    (he : (renameHeld source destination h).1 = .error err) (k : Key) :
    (renameHeld source destination h).2.entry k = h.entry k := by
  have hnone : h.entry source = none := by
    rw [renameHeld_fst] at he
    split at he
    · cases he
    · exact Option.not_isSome_iff_eq_none.mp ‹_›
  rw [renameHeld]
  split
  · rename_i held htake
    have hentry := h.entry_take source k
    rw [htake] at hentry
    rw [hentry]
    split
    · rename_i hk
      rw [← hk, hnone]
    · rfl
  · rename_i e held htake
    have htaken := h.take_fst source
    rw [htake, hnone] at htaken
    cases htaken

theorem entry_renameHeld_of_ne (source destination : Key) (held : Held) {k : Key}
    (hk : destination ≠ k) :
    (renameHeld source destination held).2.entry k = if source = k then none else held.entry k := by
  rw [renameHeld, ← Held.entry_take]
  split
  · rename_i held' htake
    rw [htake]
  · rename_i e held' htake
    rw [htake]
    exact held'.entry_put_of_ne hk e

theorem entry_renameHeld_self {source destination : Key} {held : Held}
    (hheld : destination ∈ held) {r : Reply}
    (hok : (renameHeld source destination held).1 = .ok r) :
    (renameHeld source destination held).2.entry destination = held.entry source := by
  have hstays : destination ∈ (held.take source).2 := (held.mem_take source destination).mpr hheld
  have hentry := held.take_fst source
  rw [renameHeld] at hok ⊢
  split
  · rename_i held' htake
    simp [htake] at hok
  · rename_i e held' htake
    rw [htake] at hstays hentry
    rw [Held.entry_put, if_pos ⟨rfl, hstays⟩, ← hentry]

def task (clock : Clock) : KeyCommand → Task
  | get key => .look key (Shape.string.look .nil .bulk)
  | mget keys => .lookEach keys fun slots => .array (slots.map fun s =>
      ((Shape.string.look .nil .bulk s).toOption.getD .nil))
  | set key value o => setTask clock key value o
  | incrBy key delta => .edit key (incrSlot delta)
  | ttl key unit => .look key fun
    | none => .ok (.integer (-2))
    | some e => .ok (.integer (e.timeLeft clock.now unit).toInt)
  | expire key millis => expireTask clock key millis
  | persist key => .edit key persistSlot
  | push key values side onlyExisting => .edit key (pushSlot values side onlyExisting)
  | pop key side count => .edit key (Shape.list.alter .nil (popItems side count))
  | lrange key start stop => .look key (Shape.list.look (.array []) fun d => .bulks (d.range start stop))
  | lindex key index => .look key (Shape.list.look .nil fun d => .optional (d.get? index))
  | llen key => .look key (Shape.list.look (.count 0) fun d => .count d.size)
  | hset key fields => .edit key (Shape.hash.grow (counted (fun h p => h.set p.1 p.2) fields))
  | hget key field => .look key (Shape.hash.look .nil fun h => .optional (h.get? field))
  | hmget key fields => .look key (Shape.hash.look (.array (fields.map fun _ => .nil)) fun h =>
      .array (fields.map fun field => .optional (h.get? field)))
  | hgetAll key => .look key (Shape.hash.look (.map []) fun h =>
      .map (h.entries.map fun p => (p.1, .bulk p.2)))
  | hincrBy key field delta => .edit key (Shape.hash.grow fun h =>
      let r := h.increment field delta; (r.1.map fun n => .integer n.toInt, r.2))
  | hexists key field => .look key (Shape.hash.look (.bool false) fun h => .bool (h.contains field))
  | hkeys key => .look key (Shape.hash.look (.array []) fun h => .bulks h.keys)
  | hdel key fields => .edit key (Shape.hash.alter (.count 0) (counted FieldMap.remove fields))
  | hlen key => .look key (Shape.hash.look (.count 0) fun h => .count h.size)
  | sadd key members => .edit key (Shape.set.grow (counted MemberSet.add members))
  | srem key members => .edit key (Shape.set.alter (.count 0) (counted MemberSet.remove members))
  | smembers key => .look key (Shape.set.look (.array []) fun s => .bulks s.toList)
  | sisMember key member => .look key (Shape.set.look (.bool false) fun s => .bool (s.contains member))
  | scard key => .look key (Shape.set.look (.count 0) fun s => .count s.size)
  | combine op keys => .together keys (combineHeld op keys)
  | zadd key members => .edit key (Shape.zset.grow (counted (fun z p => z.insert p.2 p.1) members))
  | zrem key members => .edit key (Shape.zset.alter (.count 0) (counted SortedSet.remove members))
  | zrange key start stop withScores descending => .look key (Shape.zset.look (.array []) fun z =>
      .scored (z.range start stop descending) withScores)
  | zrank key member descending => .look key (Shape.zset.look .nil fun z =>
      match if descending then z.revRank? member else z.rank? member with
      | some r => .count r
      | none => .nil)
  | zscore key member => .look key (Shape.zset.look .nil fun z =>
      match z.score? member with
      | some x => .double x
      | none => .nil)
  | zrangeByScore key low high withScores => .look key (Shape.zset.look (.array []) fun z =>
      .scored (z.rangeByScore low high) withScores)
  | zincrBy key delta member => .edit key (Shape.zset.grow fun z =>
      let r := z.increment member delta; (r.1.map .double, r.2))
  | zcard key => .look key (Shape.zset.look (.count 0) fun z => .count z.size)
  | present keys => .lookEach keys fun slots => .count (slots.countP Option.isSome)
  | del keys => .removeEach keys
  | type key => .look key fun s => .ok (.status ((s.map fun e => e.value.kind.name).getD "none"))
  | rename source destination =>
    if source = destination then
      .look source fun s => if s.isSome then .ok .ok else .error .noSuchKey
    else .together [source, destination] (renameHeld source destination)

end KeyCommand
end KeyStore
