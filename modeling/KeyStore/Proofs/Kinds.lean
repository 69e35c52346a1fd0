import KeyStore.Proofs.Failure
import KeyStore.Proofs.Locality

/-! Kinds. A command that works on values of one kind is refused for the kind just when one of its keys
holds a live value of another, and no other command is refused for it. Only a command that puts an
entry over what a key holds may change the kind that is found there. -/
namespace KeyStore

def Slot.Foreign (kind : Kind) (s : Slot) : Prop := ∃ e, s = some e ∧ e.value.kind ≠ kind

@[simp] theorem Slot.not_foreign_none (kind : Kind) : ¬ Slot.Foreign kind none := by
  rintro ⟨e, he, -⟩
  cases he

@[simp] theorem Slot.foreign_some (kind : Kind) (e : Entry) :
    Slot.Foreign kind (some e) ↔ e.value.kind ≠ kind := by simp [Foreign]

instance (kind : Kind) : DecidablePred (Slot.Foreign kind)
  | none => isFalse (Slot.not_foreign_none kind)
  | some e => decidable_of_iff _ (Slot.foreign_some kind e).symm

def NeverMistyped (f : σ → Except Error α × σ) : Prop := ∀ x, (f x).1 ≠ .error .wrongType

def KeepsKind (f : Slot → Except Error α × Slot) : Prop :=
  ∀ e e', (f (some e)).2 = some e' → e'.value.kind = e.value.kind

/-- A body that works on values of one kind: it fails for the kind just where it finds another, and
leaves the kind that it finds. -/
structure WorksOn (kind : Kind) (f : Slot → Except Error α × Slot) : Prop where
  refuses : ∀ s, (f s).1 = .error .wrongType ↔ s.Foreign kind
  keeps : KeepsKind f

def SetExpiry.inReach (clock : Clock) : SetExpiry → Bool
  | after millis => (clock.after? millis).isSome
  | _ => true

namespace Shape
variable {σ : Type} {shape : Shape σ} {kind : Kind}

def Opens (shape : Shape σ) (kind : Kind) : Prop := ∀ v, (shape.open? v).isSome ↔ v.kind = kind

theorem string_opens : string.Opens .string := fun v => by cases v <;> simp [string, Value.kind]

theorem list_opens : list.Opens .list := fun v => by cases v <;> simp [list, Value.kind]

theorem hash_opens : hash.Opens .hash := fun v => by cases v <;> simp [hash, Value.kind]

theorem set_opens : set.Opens .set := fun v => by cases v <;> simp [set, Value.kind]

theorem zset_opens : zset.Opens .zset := fun v => by cases v <;> simp [zset, Value.kind]

theorem Opens.kind_wrap (h : shape.Opens kind) (x : σ) : (shape.wrap x).kind = kind :=
  (h _).mp (by simp [shape.open?_wrap])

theorem Opens.open?_eq_none (h : shape.Opens kind) (v : Value) :
    shape.open? v = none ↔ v.kind ≠ kind := by
  rw [← Option.not_isSome_iff_eq_none, h]

theorem Opens.look_iff (h : shape.Opens kind) (missing : α) (f : σ → α) (s : Slot) :
    shape.look missing f s = .error .wrongType ↔ s.Foreign kind := by
  cases s with
  | none => simp [look]
  | some e =>
    rw [Slot.foreign_some, ← h.open?_eq_none]
    cases ho : shape.open? e.value <;> simp [look, ho]

theorem eq_wrongType_of_look (shape : Shape σ) (missing : α) (f : σ → α) (s : Slot) (err : Error)
    (h : shape.look missing f s = .error err) : err = .wrongType := by
  cases s with
  | none => simp [look] at h
  | some e =>
    cases ho : shape.open? e.value with
    | none => simpa [look, ho] using h.symm
    | some x => simp [look, ho] at h

theorem Opens.alter (h : shape.Opens kind) (missing : α) {f : σ → Except Error α × σ}
    (hf : NeverMistyped f) : WorksOn kind (shape.alter missing f) where
  refuses s := by
    cases s with
    | none => simp [Shape.alter]
    | some e =>
      rw [Slot.foreign_some, ← h.open?_eq_none]
      cases ho : shape.open? e.value with
      | none => simp [Shape.alter, ho]
      | some x => simpa [Shape.alter, ho] using hf x
  keeps e e' he := by
    cases ho : shape.open? e.value with
    | none =>
      simp only [Shape.alter, ho, Option.some.injEq] at he
      rw [he]
    | some x =>
      simp only [Shape.alter, ho, Option.some.injEq] at he
      rw [← he, h.kind_wrap, (h e.value).mp (by simp [ho])]

/-- On a slot that holds something, a body that would begin afresh does what one that would not does. -/
theorem Opens.grow (h : shape.Opens kind) {f : σ → Except Error Reply × σ} (hf : NeverMistyped f) :
    WorksOn kind (shape.grow f) where
  refuses s := by
    cases s with
    | none => simpa [Shape.grow, Entry.lasting, shape.open?_wrap] using hf shape.fresh
    | some e => exact (h.alter .nil hf).refuses (some e)
  keeps := (h.alter .nil hf).keeps

theorem map_look (shape : Shape σ) (g : α → β) (missing : α) (f : σ → α) (s : Slot) :
    (shape.look missing f s).map g = shape.look (g missing) (fun x => g (f x)) s := by
  cases s with
  | none => rfl
  | some e => cases ho : shape.open? e.value <;> simp [look, ho, Except.map]

theorem exists_of_look_some {missing : α} {f : σ → α} {e : Entry} {a : α}
    (h : shape.look missing f (some e) = .ok a) : ∃ x, e.value = shape.wrap x ∧ f x = a := by
  cases ho : shape.open? e.value with
  | none => simp [look, ho] at h
  | some x => exact ⟨x, (shape.open?_eq_some e.value x).mp ho, by simpa [look, ho] using h⟩

theorem exists_of_look {missing : α} {f : σ → α} (hmissing : f shape.fresh = missing) {s : Slot} {a : α}
    (h : shape.look missing f s = .ok a) : ∃ x, shape.look shape.fresh id s = .ok x ∧ f x = a := by
  cases s with
  | none => exact ⟨shape.fresh, rfl, hmissing.trans (Except.ok.inj h)⟩
  | some e =>
    obtain ⟨x, hvalue, hx⟩ := exists_of_look_some h
    exact ⟨x, by simp [look, hvalue, open?_wrap], hx⟩

/-- What is read from contents without elements is read from a slot that does not keep them. -/
theorem look_nonempty (shape : Shape σ) {missing : α} {f : σ → α}
    (hempty : ∀ x, (shape.wrap x).isEmptyCollection = true → f x = missing) {s : Slot} {a : α}
    (h : shape.look missing f s = .ok a) : shape.look missing f s.nonempty = .ok a := by
  cases s with
  | none => exact h
  | some e =>
    cases hkept : e.value.isEmptyCollection with
    | false => simpa [Slot.nonempty, Option.filter, hkept] using h
    | true =>
      obtain ⟨x, hvalue, rfl⟩ := exists_of_look_some h
      rw [hvalue] at hkept
      simp [Slot.nonempty, Option.filter, look, hvalue, hkept, hempty x hkept]

theorem grow_of_look {s : Slot} {x : σ} (h : shape.look shape.fresh id s = .ok x) (f : σ → Except Error α × σ) :
    shape.grow f s = ((f x).1, some ⟨shape.wrap (f x).2, s.bind (·.expiresAt)⟩) := by
  cases s with
  | none =>
    obtain rfl : shape.fresh = x := Except.ok.inj h
    simp only [Shape.grow, Option.getD_none, Entry.lasting, open?_wrap, Option.bind_none]
  | some e =>
    obtain ⟨y, hvalue, rfl⟩ := exists_of_look_some h
    simp only [Shape.grow, Option.getD_some, hvalue, open?_wrap, Option.bind_some, id]

theorem alter_of_look {e : Entry} {x : σ} (h : shape.look shape.fresh id (some e) = .ok x) (missing : α)
    (f : σ → Except Error α × σ) :
    shape.alter missing f (some e) = ((f x).1, some ⟨shape.wrap (f x).2, e.expiresAt⟩) := by
  obtain ⟨y, hvalue, rfl⟩ := exists_of_look_some h
  simp only [Shape.alter, hvalue, open?_wrap, id]

end Shape

theorem NeverMistyped.map {f : σ → Except Error α × σ} (h : NeverMistyped f) (reply : α → Reply) :
    NeverMistyped fun x => ((f x).1.map reply, (f x).2) := by
  intro x he
  cases hx : (f x).1 with
  | ok a => simp [hx, Except.map] at he
  | error err =>
    simp only [hx, Except.map, Except.error.injEq] at he
    exact h x (by rw [hx, he])

theorem bind_ne_error {r : Except Error α} {f : α → Except Error β} {err : Error}
    (hr : r ≠ .error err) (hf : ∀ a, f a ≠ .error err) : r.bind f ≠ .error err := by
  cases r with
  | ok a => exact hf a
  | error e => exact fun he => hr (by simpa [Except.bind] using he)

theorem mapM_eq_error_iff {f : α → Except Error β} {err : Error}
    (h : ∀ a e, f a = .error e → e = err) (as : List α) :
    as.mapM f = .error err ↔ ∃ a ∈ as, f a = .error err := by
  induction as with
  | nil => simp [pure, Except.pure]
  | cons a as ih =>
    rw [List.mapM_cons]
    cases ha : f a with
    | error e => simp [bind, Except.bind, ha, h a e ha]
    | ok b => cases hs : as.mapM f <;> simp [bind, Except.bind, pure, Except.pure, ha, ← ih, hs]

theorem Counter.add_ne_wrongType (n delta : Int64) : add n delta ≠ .error .wrongType := by
  rw [add]
  split <;> simp

theorem Counter.read_ne_wrongType (bs : Bytes) : read bs ≠ .error .wrongType := by
  rw [read]
  split <;> simp

theorem Counter.increment_ne_wrongType (bs : Bytes) (delta : Int64) :
    increment bs delta ≠ .error .wrongType :=
  bind_ne_error (read_ne_wrongType bs) fun n => add_ne_wrongType n delta

theorem FieldMap.increment_neverMistyped (field : Bytes) (delta : Int64) :
    NeverMistyped fun h : FieldMap => h.increment field delta := by
  intro h he
  have hsum : ∀ r : Except Error Int64, r ≠ .error .wrongType →
      r.bind (Counter.add · delta) ≠ .error .wrongType :=
    fun r hr => bind_ne_error hr fun n => Counter.add_ne_wrongType n delta
  simp only [increment] at he
  split at he
  · cases he
  · rename_i err hbind
    rw [Except.error.inj he] at hbind
    split at hbind
    · exact hsum _ (Counter.read_ne_wrongType _) hbind
    · exact hsum _ (by simp) hbind

theorem SortedSet.increment_neverMistyped (member : Bytes) (delta : Double) :
    NeverMistyped fun z : SortedSet => z.increment member delta := by
  intro z
  simp only [increment]
  split <;> simp

namespace KeyCommand

theorem counted_neverMistyped (step : σ → α → Bool × σ) (as : List α) :
    NeverMistyped (counted step as) := by
  intro x
  simp [counted]

theorem popItems_neverMistyped (side : Side) (count : Option Nat) :
    NeverMistyped (popItems side count) := by
  intro d
  cases count <;> simp [popItems]

theorem attempt_neverMistyped {r : σ → Except Error α} (hr : ∀ x, r x ≠ .error .wrongType)
    (reply : α → Reply) (new : α → σ) : NeverMistyped fun x => attempt x (r x) reply new := by
  intro x he
  simp only [attempt] at he
  split at he
  · cases he
  · rename_i err hx
    exact hr x (by rw [hx, Except.error.inj he])

theorem worksOn_increment (delta : Int64) :
    WorksOn .string (Shape.string.alter .nil fun b =>
      attempt b (Counter.increment b delta) (fun n => .integer n.toInt) Counter.write) :=
  Shape.string_opens.alter .nil
    (attempt_neverMistyped (fun b => Counter.increment_ne_wrongType b delta) _ _)

theorem worksOn_incrSlot (delta : Int64) : WorksOn .string (incrSlot delta) where
  refuses s := by
    cases s with
    | none => simp [incrSlot]
    | some e => exact (worksOn_increment delta).refuses (some e)
  keeps := (worksOn_increment delta).keeps

theorem worksOn_pushSlot (values : List Bytes) (side : Side) (onlyExisting : Bool) :
    WorksOn .list (pushSlot values side onlyExisting) := by
  have hgrow := Shape.list_opens.grow
    (f := fun d => let d := d.pushAll side values; (.ok (.count d.size), d)) (fun d => by simp)
  constructor
  · intro s
    rw [pushSlot]
    split
    · rename_i hmissing
      have hs : s = none := by simp_all
      simp [hs]
    · exact hgrow.refuses s
  · intro e e'
    rw [pushSlot]
    simpa using hgrow.keeps e e'

theorem setSlot_iff (value : Bytes) (o : SetOptions) (expiry : Slot → Option Instant) (s : Slot) :
    (setSlot value o expiry s).1 = .error .wrongType ↔ o.get = true ∧ s.Foreign .string := by
  have hlook := Shape.string_opens.look_iff none some s
  rw [setSlot, previous]
  cases o.get with
  | false => simp
  | true =>
    rw [if_pos rfl, ← hlook]
    cases Shape.string.look none some s <;> simp

theorem keepsKind_expireSlot (at' : Option Instant) : KeepsKind (expireSlot at') := by
  intro e e' he
  cases at' with
  | none => simp [expireSlot] at he
  | some t =>
    simp only [expireSlot, Option.map_some, Option.some.injEq] at he
    rw [← he]

theorem keepsKind_persistSlot : KeepsKind persistSlot := by
  intro e e' he
  simp only [persistSlot] at he
  split at he
  · rw [← Option.some.inj he]
  · rw [← Option.some.inj he]

theorem expireSlot_ne_wrongType (at' : Option Instant) (s : Slot) :
    (expireSlot at' s).1 ≠ .error .wrongType := by
  cases s <;> simp [expireSlot]

theorem persistSlot_ne_wrongType (s : Slot) : (persistSlot s).1 ≠ .error .wrongType := by
  cases s with
  | none => simp [persistSlot]
  | some e =>
    rw [persistSlot]
    split <;> simp

theorem combineHeld_iff (op : Algebra) (keys : List Key) (held : Held) :
    (combineHeld op keys held).1 = .error .wrongType ↔ ∃ k ∈ keys, (held.entry k).Foreign .set := by
  have hoperands := mapM_eq_error_iff (f := fun k => Shape.set.look none some (held.entry k))
    (fun k err h => Shape.set.eq_wrongType_of_look _ _ _ _ h) keys
  simp only [Shape.set_opens.look_iff] at hoperands
  rw [← hoperands, combineHeld]
  cases keys.mapM fun k => Shape.set.look none some (held.entry k) <;> simp [Except.map]

theorem renameHeld_ne_wrongType (source destination : Key) (held : Held) :
    (renameHeld source destination held).1 ≠ .error .wrongType := by
  rw [renameHeld]
  split <;> simp

/-- The kind of value that a command works on; `none` if it takes any. A set looks at the string that it
replaces if that is the reply, and looks at nothing if its expiry is out of reach. -/
def kind? (clock : Clock) : KeyCommand → Option Kind
  | get _ | incrBy .. => some .string
  | set _ _ o => if o.get && o.expiry.inReach clock then some .string else none
  | push .. | pop .. | lrange .. | lindex .. | llen _ => some .list
  | hset .. | hget .. | hmget .. | hgetAll _ | hincrBy .. | hexists .. | hkeys _ | hdel .. | hlen _ =>
    some .hash
  | sadd .. | srem .. | smembers _ | sisMember .. | scard _ | combine .. => some .set
  | zadd .. | zrem .. | zrange .. | zrank .. | zscore .. | zrangeByScore .. | zincrBy .. | zcard _ =>
    some .zset
  | mget _ | ttl .. | expire .. | persist _ | present _ | del _ | type _ | rename .. => none

/-- The key over which a command puts an entry, whatever is there. -/
def overwrites : KeyCommand → Option Key
  | set key .. => some key
  | rename _ destination => some destination
  | _ => none

theorem worksOn {clock : Clock} {c : KeyCommand} {kind : Kind} {key : Key}
    {f : Slot → Except Error Reply × Slot} (hkind : c.kind? clock = some kind)
    (hstays : c.overwrites = none) (htask : c.task clock = .edit key f) : WorksOn kind f := by
  cases c with
  | set | rename => cases hstays
  | expire | persist => cases hkind
  | incrBy _ delta =>
    cases hkind; cases htask
    exact worksOn_incrSlot delta
  | push _ values side onlyExisting =>
    cases hkind; cases htask
    exact worksOn_pushSlot values side onlyExisting
  | pop _ side count =>
    cases hkind; cases htask
    exact Shape.list_opens.alter .nil (popItems_neverMistyped side count)
  | hset =>
    cases hkind; cases htask
    exact Shape.hash_opens.grow (counted_neverMistyped _ _)
  | hincrBy _ field delta =>
    cases hkind; cases htask
    exact Shape.hash_opens.grow ((FieldMap.increment_neverMistyped field delta).map _)
  | hdel =>
    cases hkind; cases htask
    exact Shape.hash_opens.alter _ (counted_neverMistyped _ _)
  | sadd =>
    cases hkind; cases htask
    exact Shape.set_opens.grow (counted_neverMistyped _ _)
  | srem =>
    cases hkind; cases htask
    exact Shape.set_opens.alter _ (counted_neverMistyped _ _)
  | zadd =>
    cases hkind; cases htask
    exact Shape.zset_opens.grow (counted_neverMistyped _ _)
  | zrem =>
    cases hkind; cases htask
    exact Shape.zset_opens.alter _ (counted_neverMistyped _ _)
  | zincrBy _ delta member =>
    cases hkind; cases htask
    exact Shape.zset_opens.grow ((SortedSet.increment_neverMistyped member delta).map _)
  | _ => cases htask

/-- One of the keys of a command holds a value of another kind than the command works on. -/
def Mistyped (clock : Clock) (v : View) (c : KeyCommand) : Prop :=
  ∃ kind, c.kind? clock = some kind ∧ ∃ k ∈ c.keys, (v k).Foreign kind

theorem foreign_singleton (v : View) (key : Key) (kind : Kind) :
    (v key).Foreign kind ↔ ∃ kind', some kind = some kind' ∧ ∃ k ∈ [key], (v k).Foreign kind' := by
  simp

theorem not_mistyped {clock : Clock} {v : View} {c : KeyCommand} (h : c.kind? clock = none) :
    ¬ c.Mistyped clock v := by
  rintro ⟨kind, hkind, -⟩
  rw [h] at hkind
  cases hkind

theorem combine_wrongType_iff (clock : Clock) (v : View) (op : Algebra) (keys : List Key) :
    (((combine op keys).task clock).meaning clock.now v).1 = .error .wrongType ↔
      (combine op keys).Mistyped clock v := by
  have hentries : ∀ k ∈ keys, (Held.ofKeys keys v).entry k = v k := fun k hk =>
    Held.entry_ofKeys_of_mem hk v
  refine (combineHeld_iff op keys (.ofKeys keys v)).trans ⟨?_, ?_⟩
  · rintro ⟨k, hk, hforeign⟩
    exact ⟨.set, rfl, k, hk, hentries k hk ▸ hforeign⟩
  · rintro ⟨kind, hkind, k, hk, hforeign⟩
    cases hkind
    exact ⟨k, hk, (hentries k hk).symm ▸ hforeign⟩

theorem set_wrongType_iff (clock : Clock) (v : View) (key : Key) (value : Bytes) (o : SetOptions) :
    (((set key value o).task clock).meaning clock.now v).1 = .error .wrongType ↔
      (set key value o).Mistyped clock v := by
  have hset := fun expiry => setSlot_iff value o expiry (v key)
  have hmistyped : (set key value o).Mistyped clock v ↔
      o.expiry.inReach clock = true ∧ o.get = true ∧ (v key).Foreign .string := by
    cases hreach : o.expiry.inReach clock <;> cases hget : o.get <;>
      simp [Mistyped, kind?, keys, hreach, hget]
  rw [hmistyped, task, setTask]
  cases hx : o.expiry with
  | clear => simpa [SetExpiry.inReach, Task.meaning] using hset _
  | keep => simpa [SetExpiry.inReach, Task.meaning] using hset _
  | after millis =>
    cases ha : clock.after? millis with
    | none => simp [SetExpiry.inReach, Task.meaning, ha]
    | some t => simpa [SetExpiry.inReach, Task.meaning, ha] using hset _

/-- A command is refused for the kind of a value just when a key holds another than it works on. -/
theorem wrongType_iff (clock : Clock) (v : View) (c : KeyCommand) :
    ((c.task clock).meaning clock.now v).1 = .error .wrongType ↔ c.Mistyped clock v := by
  -- most commands look at one slot or edit one
  have look : ∀ {σ : Type} {shape : Shape σ} {kind : Kind} (_ : shape.Opens kind) (missing : Reply)
      (f : σ → Reply) (key : Key), shape.look missing f (v key) = .error .wrongType ↔
        ∃ kind', some kind = some kind' ∧ ∃ k ∈ [key], (v k).Foreign kind' :=
    fun h missing f key => (h.look_iff missing f (v key)).trans (foreign_singleton v key _)
  have edit : ∀ {kind : Kind} {f : Slot → Except Error Reply × Slot} (_ : WorksOn kind f) (key : Key),
      (f (v key)).1 = .error .wrongType ↔
        ∃ kind', some kind = some kind' ∧ ∃ k ∈ [key], (v k).Foreign kind' :=
    fun h key => (h.refuses (v key)).trans (foreign_singleton v key _)
  have hworks := @worksOn clock c
  cases c with
  | get => exact look Shape.string_opens ..
  | lrange | lindex | llen => exact look Shape.list_opens ..
  | hget | hmget | hgetAll | hexists | hkeys | hlen => exact look Shape.hash_opens ..
  | smembers | sisMember | scard => exact look Shape.set_opens ..
  | zrange | zrank | zscore | zrangeByScore | zcard => exact look Shape.zset_opens ..
  | incrBy | push | pop | hset | hincrBy | hdel | sadd | srem | zadd | zrem | zincrBy =>
    exact edit (hworks rfl rfl rfl) _
  | combine op keys => exact combine_wrongType_iff clock v op keys
  | set key value o => exact set_wrongType_iff clock v key value o
  | expire key millis =>
    refine iff_of_false ?_ (not_mistyped rfl)
    rw [task]
    rcases expireTask_cases clock key millis with htask | ⟨at', htask⟩
    · simp [htask, Task.meaning]
    · rw [htask]
      exact expireSlot_ne_wrongType at' (v key)
  | persist key => exact iff_of_false (persistSlot_ne_wrongType (v key)) (not_mistyped rfl)
  | ttl key unit =>
    refine iff_of_false ?_ (not_mistyped rfl)
    simp only [task, Task.meaning]
    split <;> simp
  | rename source destination =>
    refine iff_of_false ?_ (not_mistyped rfl)
    simp only [task]
    split
    · simp only [Task.meaning]
      split <;> simp
    · exact renameHeld_ne_wrongType source destination _
  | type | mget | present | del => exact iff_of_false (by simp [task, Task.meaning]) (not_mistyped rfl)

end KeyCommand

def Task.KeepsKind (k : Key) : Task → Prop
  | edit key f => key = k → KeyStore.KeepsKind f
  | together _ f => ∀ (h : Held) (e e' : Entry), h.entry k = some e →
      (f h).2.entry k = some e' → e'.value.kind = e.value.kind
  | _ => True

theorem Task.KeepsKind.writes {k : Key} {t : Task} (ht : t.KeepsKind k) :
    t.Writes (fun s e' => ∀ e, s = some e → e'.value.kind = e.value.kind) k := by
  cases t with
  | edit key f => exact fun hk s e' he' e he => ht hk e e' (he ▸ he')
  | together keys f => exact fun _ h e' he' e he => ht h e e' he he'
  | _ => trivial

namespace KeyCommand

theorem keepsKind_task (clock : Clock) (c : KeyCommand) {k : Key} (hk : c.overwrites ≠ some k) :
    (c.task clock).KeepsKind k := by
  have hworks := @worksOn clock c
  cases c with
  | set key value o =>
    have hne : key ≠ k := fun h => hk (congrArg some h)
    rw [task]
    rcases setTask_cases clock key value o with htask | ⟨expiry, htask⟩
    · rw [htask]
      trivial
    · rw [htask]
      exact fun h => absurd h hne
  | expire key millis =>
    rw [task]
    rcases expireTask_cases clock key millis with htask | ⟨at', htask⟩
    · rw [htask]
      trivial
    · rw [htask]
      exact fun _ => keepsKind_expireSlot at'
  | persist key => exact fun _ => keepsKind_persistSlot
  | incrBy | push | pop | hset | hincrBy | hdel | sadd | srem | zadd | zrem | zincrBy =>
    exact fun _ => (hworks rfl rfl rfl).keeps
  | combine op keys =>
    intro h e e' he he'
    rw [Option.some.inj (he'.symm.trans he)]
  | rename source destination =>
    have hne : destination ≠ k := fun h => hk (congrArg some h)
    simp only [task]
    split
    · trivial
    · intro h e e' he he'
      rw [entry_renameHeld_of_ne source destination h hne] at he'
      split at he'
      · cases he'
      · rw [Option.some.inj (he'.symm.trans he)]
  | _ => trivial

end KeyCommand

def Command.overwrites : Command → Option Key
  | onKeys c => c.overwrites
  | onServer _ => none

namespace Engine

theorem serve_ne_wrongType (e : Engine Q) (c : ServerCommand) : (e.serve c).1 ≠ .error .wrongType := by
  cases c with
  | ping message => cases message <;> simp [serve]
  | configSet parameter value =>
    simp only [serve]
    split <;> simp
  | _ => simp [serve]

theorem kind_execute (e : Engine Q) (c : Command) (nanos : Nat) {k : Key} (hk : c.overwrites ≠ some k)
    {entry entry' : Entry} (h : e.keyspace.live k = some entry)
    (h' : (e.execute c nanos).2.keyspace.live k = some entry') :
    entry'.value.kind = entry.value.kind := by
  have hwrites : ∀ c', c = .onKeys c' → (c'.task e.keyspace.clock).Writes
      (fun s e' => ∀ e, s = some e → e'.value.kind = e.value.kind) k := by
    rintro c' rfl
    exact (c'.keepsKind_task e.keyspace.clock hk).writes
  exact e.execute_of_writes nanos hwrites (fun _ _ he => Option.some.inj he ▸ rfl) h' entry h

/-- Kinds are respected. A command on keys is refused for the kind of a value just when it works on
values of one kind and one of its keys holds a live value of another; a command on the server never is.
And no command changes the kind of the value that a key holds, save one that puts an entry over it. -/
theorem kinds_respected :
    (∀ (e : Engine Q) (c : KeyCommand) (nanos : Nat),
      (e.execute (.onKeys c) nanos).1 = .error .wrongType ↔
        ∃ kind, c.kind? e.keyspace.clock = some kind ∧
          ∃ k ∈ c.keys, ∃ entry, e.keyspace.live k = some entry ∧ entry.value.kind ≠ kind) ∧
    (∀ (e : Engine Q) (c : ServerCommand) (nanos : Nat),
      (e.execute (.onServer c) nanos).1 ≠ .error .wrongType) ∧
    ∀ (e : Engine Q) (c : Command) (nanos : Nat) (k : Key) (entry entry' : Entry),
      c.overwrites ≠ some k → e.keyspace.live k = some entry →
      (e.execute c nanos).2.keyspace.live k = some entry' →
      entry'.value.kind = entry.value.kind := by
  refine ⟨fun e c nanos => ?_, fun e c _ => e.serve_ne_wrongType c, ?_⟩
  · rw [(e.execute_onKeys c nanos).1]
    exact c.wrongType_iff e.keyspace.clock e.keyspace.live
  · intro e c nanos k entry entry' hk h h'
    exact e.kind_execute c nanos hk h h'

/-- A push finds the list it works on; an intersection is refused for its second operand, and so is a
set that was to reply with the string it replaces, until the list has gone. -/
theorem kinds_respected_of_list :
    let e := (new .default .standard).run [
      .execute (.onKeys (.push [108] [[97]] .left false)) 0,
      .execute (.onKeys (.expire [108] 5)) 0,
      .execute (.onKeys (.sadd [115] [[97]])) 0]
    let late := e.run [.advance 5]
    let inter : KeyCommand := .combine .inter [[115], [108]]
    let set : KeyCommand := .set [108] [118] { expiry := .after 10, get := true }
    let push : Command := .onKeys (.push [108] [[98]] .right true)
    (e.execute (.onKeys inter) 0).1 = .error .wrongType ∧
      (e.execute (.onKeys set) 0).1 = .error .wrongType ∧
      (late.execute (.onKeys set) 0).1 ≠ .error .wrongType ∧
      ∃ entry', (e.execute push 0).2.keyspace.live [108] = some entry' ∧
        entry'.value.kind = .list := by
  intro e late inter set push
  have hlist : ∃ entry, e.keyspace.live [108] = some entry ∧ entry.value.kind ≠ .set :=
    ⟨_, rfl, by decide⟩
  refine ⟨?_, ?_, ?_, _, rfl, ?_⟩
  · exact (kinds_respected.1 e inter 0).mpr ⟨.set, rfl, [108], by decide, hlist⟩
  · exact (kinds_respected.1 e set 0).mpr ⟨.string, rfl, [108], by decide, _, rfl, by decide⟩
  · intro h
    obtain ⟨_, _, k, hk, entry, hentry, _⟩ := (kinds_respected.1 late set 0).mp h
    rw [List.mem_singleton.mp hk] at hentry
    cases hentry
  · exact kinds_respected.2.2 e push 0 [108] _ _ (by decide) rfl rfl

end Engine
end KeyStore
