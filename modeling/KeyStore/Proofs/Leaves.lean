import KeyStore.Proofs.Numbers

/-! Leaves. A reply is made of leaves, scalars and collections without elements; of these only a status could
break its line, and none that a command replies with does. -/
namespace KeyStore

namespace Reply

mutual

/-- The parts of a reply that are not made of others, from the first to the last: scalars, and collections
without elements. -/
def leaves : Reply → List Reply
  | array [] => [array []]
  | array items => leavesOfItems items
  | map [] => [map []]
  | map pairs => leavesOfPairs pairs
  | scalar => [scalar]

def leavesOfItems : List Reply → List Reply
  | [] => []
  | item :: items => leaves item ++ leavesOfItems items

def leavesOfPairs : List (Bytes × Reply) → List Reply
  | [] => []
  | (_, value) :: pairs => leaves value ++ leavesOfPairs pairs

end

theorem leavesOfItems_eq (items : List Reply) : leavesOfItems items = items.flatMap leaves := by
  induction items with
  | nil => simp [leavesOfItems]
  | cons item items ih => simp [leavesOfItems, ih]

theorem leavesOfPairs_eq (pairs : List (Bytes × Reply)) :
    leavesOfPairs pairs = pairs.flatMap fun p => leaves p.2 := by
  induction pairs with
  | nil => simp [leavesOfPairs]
  | cons p pairs ih => simp [leavesOfPairs, ih]

def StatusesFit (leaves : List Reply) : Prop := ∀ text, status text ∈ leaves → '\n' ∉ text.toList

theorem statusesFit_append {before after : List Reply} :
    StatusesFit (before ++ after) ↔ StatusesFit before ∧ StatusesFit after := by
  simp [StatusesFit, or_imp, forall_and]

theorem statusesFit_flatMap {xs : List α} {f : α → List Reply} :
    StatusesFit (xs.flatMap f) ↔ ∀ x ∈ xs, StatusesFit (f x) := by
  induction xs with
  | nil => simp [StatusesFit]
  | cons x xs ih => simp [statusesFit_append, ih]

/-- No status within a reply breaks its line. -/
abbrev Fits (r : Reply) : Prop := StatusesFit r.leaves

theorem fits_of_leaf {r : Reply} (hleaves : r.leaves = [r]) (hr : ∀ text, status text ≠ r) : r.Fits := by
  simp [Fits, StatusesFit, hleaves, hr]

@[simp] theorem fits_ok : ok.Fits := fits_of_leaf rfl nofun

@[simp] theorem fits_nil : nil.Fits := fits_of_leaf rfl nofun

@[simp] theorem fits_integer (n : Int) : (integer n).Fits := fits_of_leaf rfl nofun

@[simp] theorem fits_bool (b : Bool) : (bool b).Fits := fits_of_leaf rfl nofun

@[simp] theorem fits_double (x : Double) : (double x).Fits := fits_of_leaf rfl nofun

@[simp] theorem fits_bulk (bytes : Bytes) : (bulk bytes).Fits := fits_of_leaf rfl nofun

@[simp] theorem fits_status_iff (text : String) : (status text).Fits ↔ '\n' ∉ text.toList := by
  have hleaves : (status text).leaves = [status text] := rfl
  simp [Fits, StatusesFit, hleaves]

@[simp] theorem fits_array_iff (items : List Reply) : (array items).Fits ↔ ∀ item ∈ items, item.Fits := by
  cases items with
  | nil => simp [fits_of_leaf (r := array []) rfl nofun]
  | cons item items =>
    rw [← statusesFit_flatMap, ← leavesOfItems_eq]
    rfl

@[simp] theorem fits_map_iff (pairs : List (Bytes × Reply)) : (map pairs).Fits ↔ ∀ p ∈ pairs, p.2.Fits := by
  cases pairs with
  | nil => simp [fits_of_leaf (r := map []) rfl nofun]
  | cons p pairs =>
    rw [← statusesFit_flatMap, ← leavesOfPairs_eq]
    rfl

@[simp] theorem fits_count (n : Nat) : (count n).Fits := fits_integer n

@[simp] theorem fits_text (s : String) : (text s).Fits := fits_bulk _

@[simp] theorem fits_optional (b : Option Bytes) : (optional b).Fits := by
  cases b <;> simp [optional]

@[simp] theorem fits_bulks (items : List Bytes) : (bulks items).Fits := by simp [bulks]

@[simp] theorem fits_scored (items : List (Bytes × Double)) (withScores : Bool) :
    (scored items withScores).Fits := by
  rw [scored, fits_array_iff, List.forall_mem_map]
  cases withScores <;> simp

end Reply

namespace Shape
variable {p : α → Prop} {missing : α}

theorem yields_look (shape : Shape σ) (hmissing : p missing) {f : σ → α} (hf : ∀ x, p (f x)) (s : Slot) :
    Yields p (shape.look missing f s) := by
  cases s with
  | none => exact .ok hmissing
  | some e =>
    cases ho : shape.open? e.value with
    | none => simpa [look, ho] using Yields.error .wrongType
    | some x => simpa [look, ho] using Yields.ok (hf x)

theorem yields_alter (shape : Shape σ) (hmissing : p missing) {f : σ → Except Error α × σ}
    (hf : ∀ x, Yields p (f x).1) (s : Slot) : Yields p (shape.alter missing f s).1 := by
  cases s with
  | none => exact .ok hmissing
  | some e =>
    cases ho : shape.open? e.value with
    | none => simpa [alter, ho] using Yields.error .wrongType
    | some x => simpa [alter, ho] using hf x

theorem yields_grow (shape : Shape σ) {f : σ → Except Error α × σ} (hf : ∀ x, Yields p (f x).1) (s : Slot) :
    Yields p (shape.grow f s).1 := by
  cases ho : shape.open? (s.getD (.lasting (shape.wrap shape.fresh))).value with
  | none => simpa [grow, ho] using Yields.error .wrongType
  | some x => simpa [grow, ho] using hf x

end Shape

namespace KeyCommand
open Reply (Fits)

theorem fits_attempt {r : Except Error α} {reply : α → Reply} (hreply : ∀ x, (reply x).Fits) (old : σ)
    (new : α → σ) : Yields Fits (attempt old r reply new).1 := by
  cases r with
  | error err => exact .error err
  | ok x => exact .ok (hreply x)

theorem fits_setSlot (value : Bytes) (o : SetOptions) (expiry : Slot → Option Instant) (s : Slot) :
    Yields Fits (setSlot value o expiry s).1 := by
  rw [setSlot]
  cases previous o.get s with
  | error err => exact .error err
  | ok old =>
    apply Yields.ok
    split
    · simp
    · split <;> simp

theorem fits_incrSlot (delta : Int64) (s : Slot) : Yields Fits (incrSlot delta s).1 := by
  cases s with
  | none => exact .ok (by simp)
  | some e =>
    have hsum (b : Bytes) := fits_attempt (r := Counter.increment b delta) (fun n => Reply.fits_integer n.toInt) b
    exact Shape.string.yields_alter Reply.fits_nil (fun b => hsum b Counter.write) (some e)

theorem fits_expireSlot (at' : Option Instant) (s : Slot) : Yields Fits (expireSlot at' s).1 := by
  cases s <;> exact .ok (by simp)

theorem fits_persistSlot (s : Slot) : Yields Fits (persistSlot s).1 := by
  cases s with
  | none => exact .ok (by simp)
  | some e =>
    rw [persistSlot]
    split <;> exact .ok (by simp)

theorem fits_pushSlot (values : List Bytes) (side : Side) (onlyExisting : Bool) (s : Slot) :
    Yields Fits (pushSlot values side onlyExisting s).1 := by
  rw [pushSlot]
  split
  · exact .ok (by simp)
  · exact Shape.list.yields_grow (fun _ => .ok (by simp)) s

theorem fits_popItems (side : Side) (count : Option Nat) (d : Deque) :
    Yields Fits (popItems side count d).1 := by
  cases count <;> exact .ok (by simp)

theorem fits_renameHeld (source destination : Key) (held : Held) :
    Yields Fits (renameHeld source destination held).1 := by
  rw [renameHeld_fst]
  split
  · exact .ok (by simp)
  · exact .error _

theorem fits_task (clock : Clock) (v : View) (c : KeyCommand) :
    Yields Fits ((c.task clock).meaning clock.now v).1 := by
  cases c with
  | get => exact Shape.string.yields_look (by simp) (by simp) _
  | lrange | lindex | llen => exact Shape.list.yields_look (by simp) (by simp) _
  | hget | hmget | hexists | hkeys | hlen => exact Shape.hash.yields_look (by simp) (by simp) _
  | smembers | sisMember | scard => exact Shape.set.yields_look (by simp) (by simp) _
  | zrange | zrangeByScore | zcard => exact Shape.zset.yields_look (by simp) (by simp) _
  | hset => exact Shape.hash.yields_grow (fun _ => .ok (by simp)) _
  | hincrBy => exact Shape.hash.yields_grow (fun _ => (Yields.any _).map (by simp)) _
  | hdel => exact Shape.hash.yields_alter (by simp) (fun _ => .ok (by simp)) _
  | sadd => exact Shape.set.yields_grow (fun _ => .ok (by simp)) _
  | srem => exact Shape.set.yields_alter (by simp) (fun _ => .ok (by simp)) _
  | zadd => exact Shape.zset.yields_grow (fun _ => .ok (by simp)) _
  | zincrBy => exact Shape.zset.yields_grow (fun _ => (Yields.any _).map (by simp)) _
  | zrem => exact Shape.zset.yields_alter (by simp) (fun _ => .ok (by simp)) _
  | present | del => exact .ok (by simp)
  | combine => exact (Yields.any _).map (by simp)
  | incrBy key delta => exact fits_incrSlot delta _
  | persist => exact fits_persistSlot _
  | push key values side onlyExisting => exact fits_pushSlot values side onlyExisting _
  | pop key side count => exact Shape.list.yields_alter (by simp) (fits_popItems side count) _
  | mget keys =>
    apply Yields.ok
    rw [Reply.fits_array_iff, List.forall_mem_map]
    intro s _
    cases hlook : Shape.string.look Reply.nil Reply.bulk s with
    | error err => exact Reply.fits_nil
    | ok r => exact Shape.string.yields_look Reply.fits_nil Reply.fits_bulk s r hlook
  | hgetAll key =>
    refine Shape.hash.yields_look (by simp) (fun h => ?_) _
    rw [Reply.fits_map_iff, List.forall_mem_map]
    simp
  | zrank | zscore =>
    refine Shape.zset.yields_look (by simp) (fun z => ?_) _
    split <;> simp
  | set key value o =>
    rw [task]
    rcases setTask_cases clock key value o with htask | ⟨expiry, htask⟩
    · rw [htask]
      exact .error _
    · rw [htask]
      exact fits_setSlot value o expiry _
  | expire key millis =>
    rw [task]
    rcases expireTask_cases clock key millis with htask | ⟨at', htask⟩
    · rw [htask]
      exact .error _
    · rw [htask]
      exact fits_expireSlot at' _
  | ttl key unit =>
    simp only [task, Task.meaning]
    split <;> exact .ok (by simp)
  | type key =>
    have hname (kind : Kind) : '\n' ∉ kind.name.toList := by cases kind <;> decide
    apply Yields.ok
    rw [Reply.fits_status_iff]
    cases v key with
    | none => decide
    | some e => exact hname e.value.kind
  | rename source destination =>
    simp only [task]
    split
    · simp only [Task.meaning]
      split
      · exact .ok (by simp)
      · exact .error _
    · exact fits_renameHeld source destination _

end KeyCommand

namespace Engine
open Reply (Fits)

theorem fits_serve (e : Engine Q) (c : ServerCommand) : Yields Fits (e.serve c).1 := by
  cases c with
  | ping message =>
    cases message with
    | none => exact .ok ((Reply.fits_status_iff _).mpr (by decide))
    | some message => exact .ok (by simp)
  | configSet parameter value =>
    simp only [serve]
    split
    · exact .ok (by simp)
    · exact .error _
  | configGet pattern =>
    apply Yields.ok
    rw [Reply.fits_map_iff, settings, List.forall_mem_map]
    simp
  | pubsubNumSub channels =>
    apply Yields.ok
    rw [Reply.fits_map_iff, List.forall_mem_map]
    simp
  | _ => exact .ok (by simp)

theorem fits_execute (e : Engine Q) (c : Command) (nanos : Nat) : Yields Fits (e.execute c nanos).1 := by
  cases c with
  | onKeys c =>
    rw [(e.execute_onKeys c nanos).1]
    exact KeyCommand.fits_task _ _ c
  | onServer c => exact e.fits_serve c

end Engine
end KeyStore
