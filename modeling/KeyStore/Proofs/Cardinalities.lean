import KeyStore.Proofs.Frames

/-! Cardinalities: how many elements a key holds, and what the replies of commands tell of it. A command that
adds elements or takes some away works on the contents of one slot, one argument after the other, and each
argument counts for as much as it changes; so the replies are right whether or not arguments are repeated.
After such a command a key is there just when it holds an element. -/
namespace KeyStore
open Std

def Value.has (x : Bytes) : Value → Bool
  | hash h => h.contains x
  | set s => s.contains x
  | zset z => (z.score? x).isSome
  | string _ | list _ => false

namespace Slot

def card : Slot → Nat
  | none => 0
  | some e => e.value.size

def has (x : Bytes) (s : Slot) : Bool := s.any (·.value.has x)

/-- The slot holds no string: what it holds, if anything, has elements to count. -/
def Collection (s : Slot) : Prop := ∀ e, s = some e → e.value.kind ≠ .string

end Slot

def Reply.elements : Reply → Nat
  | bulk _ => 1
  | array items => items.length
  | _ => 0

namespace KeyCommand

/-- Whether a command adds elements to what its keys hold, or takes some away. -/
def resizes : KeyCommand → Bool
  | push .. | pop .. | hset .. | hincrBy .. | hdel .. | sadd .. | srem .. | zadd .. | zrem ..
  | zincrBy .. | del _ => true
  | _ => false

/-- What a command tells, or brings about, of the number of elements under its key before and after it. -/
def Tells (before after : Slot) (r : Reply) : KeyCommand → Prop
  | llen _ | hlen _ | scard _ | zcard _ => r = .count before.card
  | hset .. | sadd .. | zadd .. => r = .integer (after.card - before.card)
  | hdel .. | srem .. | zrem .. => r = .integer (before.card - after.card)
  | push _ values _ onlyExisting =>
    r = .count after.card ∧
      after.card = before.card + if onlyExisting && before.isNone then 0 else values.length
  | pop .. => before.card = after.card + r.elements
  | hincrBy _ x _ | zincrBy _ _ x => after.card = before.card + if before.has x then 0 else 1
  | _ => True

end KeyCommand

theorem Value.isEmptyCollection_eq (v : Value) :
    v.isEmptyCollection = (v.kind != .string && v.size == 0) := by
  cases v with
  | string b => rfl
  | list d => rfl
  | hash h => exact ExtTreeMap.isEmpty_eq_size_beq_zero
  | set s => exact ExtTreeSet.isEmpty_eq_size_beq_zero
  | zset z => exact ExtTreeMap.isEmpty_eq_size_beq_zero

namespace Slot

@[simp] theorem card_nonempty (s : Slot) : s.nonempty.card = s.card := by
  cases s with
  | none => rfl
  | some e =>
    cases hempty : e.value.isEmptyCollection with
    | false => simp [nonempty, Option.filter, hempty]
    | true =>
      have hsize : e.value.size = 0 := by simp_all [Value.isEmptyCollection_eq]
      simp [nonempty, Option.filter, hempty, card, hsize]

theorem Collection.isSome_nonempty_iff {s : Slot} (h : s.Collection) :
    s.nonempty.isSome ↔ 0 < s.nonempty.card := by
  rw [card_nonempty]
  cases s with
  | none => exact iff_of_false (by simp) (by simp [card])
  | some e => simp [nonempty, card, Option.filter, Value.isEmptyCollection_eq, h e rfl, Nat.pos_iff_ne_zero]

end Slot

/-- What is written over an entry that commands see, with its expiry, has not expired either. -/
theorem KeepsExpiry.live_nonempty {f : Slot → α × Slot} (h : KeepsExpiry f) (s : Slot) (now : Instant) :
    (f (s.live now)).2.nonempty.live now = (f (s.live now)).2.nonempty := by
  cases hwrites : (f (s.live now)).2.nonempty with
  | none => rfl
  | some e =>
    apply Slot.live_of_not_isDue
    have hexpiry := h _ e (Option.filter_eq_some_iff.mp hwrites).1
    cases hs : s.live now with
    | none => simp [Entry.isDue, hexpiry, hs]
    | some old =>
      have hold : old.isDue now = false := by simpa using (Option.filter_eq_some_iff.mp hs).2
      simpa [Entry.isDue, hexpiry, hs] using hold

/-- A step that says whether it changed a measure of the contents by one. -/
def Measures (m : σ → Int) (step : σ → α → Bool × σ) : Prop :=
  ∀ x a, m (step x a).2 = m x + if (step x a).1 then 1 else 0

theorem Measures.tally {m : σ → Int} {step : σ → α → Bool × σ} (h : Measures m step) (as : List α) (x : σ) :
    m (KeyCommand.tally step as x).2 = m x + (KeyCommand.tally step as x).1 := by
  induction as generalizing x with
  | nil => simp [KeyCommand.tally]
  | cons a as ih =>
    have hrest := ih (step x a).2
    have hfirst := h x a
    simp only [KeyCommand.tally]
    rw [hrest, hfirst]
    split <;> simp
    omega

theorem size_erase_add {α : Type} [Ord α] [TransOrd α] (m : ExtTreeMap α β) (k : α) :
    (m.erase k).size + (if m.contains k then 1 else 0) = m.size := by
  rw [ExtTreeMap.size_erase]
  split
  · rename_i hmem
    have hpos : m.size ≠ 0 := by
      intro hzero
      rw [ExtTreeMap.eq_empty_iff_size_eq_zero.mpr hzero] at hmem
      simp at hmem
    omega
  · rfl

namespace FieldMap

theorem size_set (h : FieldMap) (field value : Bytes) :
    (h.set field value).2.size = h.size + if h.contains field then 0 else 1 := by
  have hfound : h.fields.contains field = h.fields[field]?.isSome :=
    ExtTreeMap.contains_eq_isSome_getElem?
  rw [set, contains, size, size]
  split <;> simp_all [ExtTreeMap.size_insert]

theorem measures_set : Measures (fun h => (size h : Int)) fun h (p : Bytes × Bytes) => h.set p.1 p.2 := by
  intro h p
  have hnew : (h.set p.1 p.2).1 = !h.contains p.1 := by
    rw [set, contains, ExtTreeMap.contains_eq_isSome_getElem?]
    split <;> simp_all
  dsimp only
  rw [size_set, hnew]
  cases h.contains p.1 <;> rfl

theorem measures_remove : Measures (fun h => -(size h : Int)) remove := by
  intro h field
  have hsize := size_erase_add h.fields field
  rw [ExtTreeMap.contains_eq_isSome_getElem?] at hsize
  cases hf : h.fields[field]? with
  | none => simp [remove, hf]
  | some p =>
    simp only [hf, Option.isSome_some, if_true] at hsize
    simp only [remove, size, hf, if_true]
    omega

end FieldMap

namespace MemberSet

theorem measures_add : Measures (fun s => (s.size : Int)) add := by
  intro s m
  simp only [add, ExtTreeSet.size_insert]
  by_cases hm : s.contains m = true <;> simp [hm]

theorem measures_remove : Measures (fun s => -(s.size : Int)) remove := by
  intro s m
  have hsize : (remove s m).2.size + (if (remove s m).1 then 1 else 0) = s.size :=
    size_erase_add s.inner m
  dsimp only
  split at hsize
  · rename_i hm
    rw [if_pos hm]
    omega
  · rename_i hm
    rw [if_neg hm]
    omega

end MemberSet

namespace SortedSet

theorem size_insert (z : SortedSet) (member : Bytes) (score : Double) :
    (z.insert member score).2.size = z.size + if (z.score? member).isSome then 0 else 1 := by
  have hfound : z.scores.contains member = z.scores[member]?.isSome :=
    ExtTreeMap.contains_eq_isSome_getElem?
  rw [insert, score?, size, size]
  split
  · split <;> simp_all [ExtTreeMap.size_insert]
  · simp_all [ExtTreeMap.size_insert]

theorem measures_insert :
    Measures (fun z => (size z : Int)) fun z (p : Double × Bytes) => z.insert p.2 p.1 := by
  intro z p
  have hnew : (z.insert p.2 p.1).1 = !(z.score? p.2).isSome := by
    rw [insert, score?]
    split
    · split <;> simp_all
    · simp_all
  dsimp only
  rw [size_insert, hnew]
  cases (z.score? p.2).isSome <;> rfl

theorem measures_remove : Measures (fun z => -(size z : Int)) remove := by
  intro z member
  have hsize := size_erase_add z.scores member
  rw [ExtTreeMap.contains_eq_isSome_getElem?] at hsize
  cases hf : z.scores[member]? with
  | none => simp [remove, hf]
  | some score =>
    simp only [hf, Option.isSome_some, if_true] at hsize
    simp only [remove, size, hf, if_true]
    omega

end SortedSet

namespace Deque

theorem size_pushAll (d : Deque) (side : Side) (xs : List Bytes) :
    (d.pushAll side xs).size = d.size + xs.length := by
  have hpush : ∀ (d : Deque) (x : Bytes), (d.push side x).size = d.size + 1 := fun d x => by
    cases side <;> rfl
  induction xs generalizing d with
  | nil => rfl
  | cons x xs ih =>
    have hall : d.pushAll side (x :: xs) = (d.push side x).pushAll side xs := rfl
    rw [hall, ih, hpush, List.length_cons]
    omega

theorem size_pop (d : Deque) (side : Side) :
    d.size = (d.pop side).2.size + if (d.pop side).1.isSome then 1 else 0 := by
  obtain ⟨hout, hrest⟩ := d.items_pop side
  rw [← length_items, ← length_items, hout, hrest]
  cases side with
  | left => cases d.items <;> simp
  | right => cases d.items <;> simp

theorem size_popMany (side : Side) (n : Nat) (d : Deque) :
    d.size = (popMany side n d).2.size + (popMany side n d).1.length := by
  induction n generalizing d with
  | zero => rfl
  | succ n ih =>
    have hpop := d.size_pop side
    rw [popMany]
    split
    · rename_i x rest hx
      rw [hx] at hpop
      have hrest := ih rest
      simp only [Option.isSome_some, if_true] at hpop
      simp only [List.length_cons]
      omega
    · rename_i rest hx
      simpa [hx] using hpop

end Deque

namespace Shape
variable {σ : Type} {shape : Shape σ}

/-- A kind of collection, begun without elements. -/
structure Collects (shape : Shape σ) : Prop where
  kind : ∀ x, (shape.wrap x).kind ≠ .string
  size_fresh : (shape.wrap shape.fresh).size = 0
  has_fresh : ∀ x, (shape.wrap shape.fresh).has x = false

theorem list_collects : list.Collects := ⟨fun _ => by simp [list, Value.kind], rfl, fun _ => rfl⟩

theorem hash_collects : hash.Collects where
  kind _ := by simp [hash, Value.kind]
  size_fresh := rfl
  has_fresh x := by simp [hash, Value.has, FieldMap.contains, FieldMap.empty]

theorem set_collects : set.Collects where
  kind _ := by simp [set, Value.kind]
  size_fresh := rfl
  has_fresh x := by simp [set, Value.has]

theorem zset_collects : zset.Collects where
  kind _ := by simp [zset, Value.kind]
  size_fresh := rfl
  has_fresh x := by simp [zset, Value.has, SortedSet.score?, SortedSet.empty]

structure Shows (shape : Shape σ) (s : Slot) (x : σ) : Prop where
  card : s.card = (shape.wrap x).size
  has : ∀ y, s.has y = (shape.wrap x).has y

theorem shows_of_value {e : Entry} {x : σ} (hvalue : e.value = shape.wrap x) : shape.Shows (some e) x := by
  constructor
  · rw [← hvalue]
    rfl
  · intro y
    rw [← hvalue]
    rfl

theorem Collects.shows_fresh (h : shape.Collects) : shape.Shows none shape.fresh where
  card := h.size_fresh.symm
  has y := (h.has_fresh y).symm

theorem Collects.collection (h : shape.Collects) {e : Entry} {x : σ} (hvalue : e.value = shape.wrap x) :
    Slot.Collection (some e) := by
  intro e' he
  rw [← Option.some.inj he, hvalue]
  exact h.kind x

end Shape

/-- A body that, where it succeeds, leaves no string, and does and replies what a command tells. -/
def KeyCommand.Counts (c : KeyCommand) (f : Slot → Except Error Reply × Slot) : Prop :=
  ∀ s r, (f s).1 = .ok r → c.Tells s (f s).2 r ∧ (f s).2.Collection

namespace Shape.Collects
open KeyCommand
variable {σ : Type} {shape : Shape σ} (h : shape.Collects) {c : KeyCommand}
include h

/-- What a body does with a slot that holds something, whether or not it would begin afresh. -/
theorem counts_some {f : σ → Except Error Reply × σ}
    (hf : ∀ s s' x r, shape.Shows s x → (f x).1 = .ok r → shape.Shows s' (f x).2 → c.Tells s s' r)
    {e : Entry} {r : Reply} (hr : (shape.grow f (some e)).1 = .ok r) :
    c.Tells (some e) (shape.grow f (some e)).2 r ∧ (shape.grow f (some e)).2.Collection := by
  cases ho : shape.open? e.value with
  | none => simp [Shape.grow, ho] at hr
  | some x =>
    simp only [Shape.grow, Option.getD_some, ho] at hr ⊢
    have hvalue := (shape.open?_eq_some e.value x).mp ho
    exact ⟨hf _ _ x r (shows_of_value hvalue) hr (shows_of_value rfl), h.collection rfl⟩

theorem counts_alter {missing : Reply} {f : σ → Except Error Reply × σ}
    (hmissing : c.Tells none none missing)
    (hf : ∀ s s' x r, shape.Shows s x → (f x).1 = .ok r → shape.Shows s' (f x).2 → c.Tells s s' r) :
    c.Counts (shape.alter missing f) := by
  intro s r hr
  cases s with
  | none =>
    cases hr
    exact ⟨hmissing, fun _ he => by cases he⟩
  | some e => exact h.counts_some hf hr

theorem counts_grow {f : σ → Except Error Reply × σ}
    (hf : ∀ s s' x r, shape.Shows s x → (f x).1 = .ok r → shape.Shows s' (f x).2 → c.Tells s s' r) :
    c.Counts (shape.grow f) := by
  intro s r hr
  cases s with
  | none =>
    simp only [Shape.grow, Option.getD_none, Entry.lasting, open?_wrap] at hr ⊢
    exact ⟨hf _ _ _ r h.shows_fresh hr (shows_of_value rfl), h.collection rfl⟩
  | some e => exact h.counts_some hf hr

theorem counts_adding {step : σ → α → Bool × σ} (hstep : Measures (fun x => ((shape.wrap x).size : Int)) step)
    (as : List α) (htells : ∀ s s' r, r = .integer (s'.card - s.card) → c.Tells s s' r) :
    c.Counts (shape.grow (counted step as)) := by
  refine h.counts_grow fun s s' x r hs hr hs' => htells s s' r ?_
  have hsum := hstep.tally as x
  cases hr
  rw [hs.card, hs'.card]
  refine congrArg Reply.integer ?_
  dsimp only [counted] at hsum ⊢
  omega

theorem counts_removing {step : σ → α → Bool × σ}
    (hstep : Measures (fun x => -((shape.wrap x).size : Int)) step) (as : List α)
    (htells : ∀ s s' r, r = .integer (s.card - s'.card) → c.Tells s s' r) :
    c.Counts (shape.alter (.count 0) (counted step as)) := by
  refine h.counts_alter (htells _ _ _ rfl) fun s s' x r hs hr hs' => htells s s' r ?_
  have hsum := hstep.tally as x
  cases hr
  rw [hs.card, hs'.card]
  refine congrArg Reply.integer ?_
  dsimp only [counted] at hsum ⊢
  omega

end Shape.Collects

theorem FieldMap.size_increment {h : FieldMap} {field : Bytes} {delta n : Int64}
    (hok : (h.increment field delta).1 = .ok n) :
    (h.increment field delta).2.size = h.size + if h.contains field then 0 else 1 := by
  simp only [increment] at hok ⊢
  split
  · exact h.size_set field _
  · rename_i hfails
    rw [hfails] at hok
    cases hok

theorem SortedSet.size_increment {z : SortedSet} {member : Bytes} {delta x : Double}
    (hok : (z.increment member delta).1 = .ok x) :
    (z.increment member delta).2.size = z.size + if (z.score? member).isSome then 0 else 1 := by
  simp only [increment] at hok ⊢
  split
  · rename_i hnan
    rw [if_pos hnan] at hok
    cases hok
  · exact z.size_insert member _

namespace KeyCommand

theorem counts_pushSlot (key : Key) (values : List Bytes) (side : Side) (onlyExisting : Bool) :
    (push key values side onlyExisting).Counts (pushSlot values side onlyExisting) := by
  intro s r hr
  rw [pushSlot] at hr ⊢
  split
  · rename_i hmissing
    rw [if_pos hmissing] at hr
    have hs : s = none := by simp_all
    cases hr
    subst hs
    exact ⟨⟨rfl, by rw [if_pos hmissing, Nat.add_zero]⟩, fun _ he => by cases he⟩
  · rename_i hgrows
    rw [if_neg hgrows] at hr
    -- a list that is there, or may be begun, gets every value
    have hall : (push key values side false).Counts (Shape.list.grow fun d =>
        let d := d.pushAll side values; (.ok (.count d.size), d)) := by
      refine Shape.list_collects.counts_grow fun s s' d r hs hr hs' => ?_
      cases hr
      refine ⟨congrArg Reply.count hs'.card.symm, ?_⟩
      rw [hs.card, hs'.card]
      exact d.size_pushAll side values
    simpa [Tells, hgrows] using hall s r hr

theorem counts_pop (key : Key) (side : Side) (count : Option Nat) :
    (pop key side count).Counts (Shape.list.alter .nil (popItems side count)) := by
  refine Shape.list_collects.counts_alter rfl fun s s' d r hs hr hs' => ?_
  rw [Tells, hs.card, hs'.card]
  cases count with
  | none =>
    cases hr
    refine (d.size_pop side).trans (congrArg _ ?_)
    cases (d.pop side).1 <;> rfl
  | some n =>
    cases hr
    refine (Deque.size_popMany side n d).trans (congrArg _ ?_)
    exact (List.length_map ..).symm

theorem counts_hincrBy (key : Key) (field : Bytes) (delta : Int64) :
    (hincrBy key field delta).Counts (Shape.hash.grow fun h =>
      let r := h.increment field delta; (r.1.map fun n => .integer n.toInt, r.2)) := by
  refine Shape.hash_collects.counts_grow fun s s' h r hs hr hs' => ?_
  rw [Tells, hs.card, hs'.card, hs.has]
  cases hok : (h.increment field delta).1 with
  | error err => simp [hok, Except.map] at hr
  | ok n => exact FieldMap.size_increment hok

theorem counts_zincrBy (key : Key) (delta : Double) (member : Bytes) :
    (zincrBy key delta member).Counts (Shape.zset.grow fun z =>
      let r := z.increment member delta; (r.1.map .double, r.2)) := by
  refine Shape.zset_collects.counts_grow fun s s' z r hs hr hs' => ?_
  rw [Tells, hs.card, hs'.card, hs.has]
  cases hok : (z.increment member delta).1 with
  | error err => simp [hok, Except.map] at hr
  | ok x => exact SortedSet.size_increment hok

theorem counts_of_edit {clock : Clock} {c : KeyCommand} {key : Key}
    {f : Slot → Except Error Reply × Slot} (hresizes : c.resizes = true)
    (htask : c.task clock = .edit key f) : c.Counts f := by
  cases c with
  | push _ values side onlyExisting =>
    cases htask
    exact counts_pushSlot key values side onlyExisting
  | pop _ side count =>
    cases htask
    exact counts_pop key side count
  | hset _ fields =>
    cases htask
    exact Shape.hash_collects.counts_adding FieldMap.measures_set fields fun _ _ _ h => h
  | hincrBy _ field delta =>
    cases htask
    exact counts_hincrBy key field delta
  | hdel _ fields =>
    cases htask
    exact Shape.hash_collects.counts_removing FieldMap.measures_remove fields fun _ _ _ h => h
  | sadd _ members =>
    cases htask
    exact Shape.set_collects.counts_adding MemberSet.measures_add members fun _ _ _ h => h
  | srem _ members =>
    cases htask
    exact Shape.set_collects.counts_removing MemberSet.measures_remove members fun _ _ _ h => h
  | zadd _ members =>
    cases htask
    exact Shape.zset_collects.counts_adding SortedSet.measures_insert members fun _ _ _ h => h
  | zrem _ members =>
    cases htask
    exact Shape.zset_collects.counts_removing SortedSet.measures_remove members fun _ _ _ h => h
  | zincrBy _ delta member =>
    cases htask
    exact counts_zincrBy key delta member
  | del => cases htask
  | _ => cases hresizes

/-- The empty collections that a command leaves and that are not kept do not count. -/
theorem Tells.nonempty {c : KeyCommand} {s s' : Slot} {r : Reply} (h : c.Tells s s' r) :
    c.Tells s s'.nonempty r := by
  cases c with
  | push | pop | hset | hincrBy | hdel | sadd | srem | zadd | zrem | zincrBy =>
    rw [Tells, Slot.card_nonempty]
    exact h
  | _ => exact h

end KeyCommand

namespace Keyspace

theorem size_remove (ks : Keyspace) (k : Key) :
    (ks.remove k).2.size + (if (ks.remove k).1 then 1 else 0) = ks.size := by
  have hentries : (ks.remove k).2.entries = ks.entries.erase k := by
    apply ExtTreeMap.ext_getElem?
    intro j
    rw [getElem?_entries, live_remove, ExtTreeMap.getElem?_erase, getElem?_entries]
    simp
  have hthere : (ks.remove k).1 = ks.entries.contains k := by
    rw [remove_fst, ExtTreeMap.contains_eq_isSome_getElem?, getElem?_entries]
  rw [← size_entries, ← size_entries, hentries, hthere]
  exact size_erase_add ks.entries k

theorem size_removeEach (keys : List Key) (ks : Keyspace) :
    (removeEach keys ks).2.size + (removeEach keys ks).1 = ks.size := by
  induction keys generalizing ks with
  | nil => rfl
  | cons k keys ih =>
    have hfirst := ks.size_remove k
    have hrest := ih (ks.remove k).2
    rw [removeEach]
    dsimp only
    split
    · rename_i hthere
      rw [if_pos hthere] at hfirst
      omega
    · rename_i hmissing
      rw [if_neg hmissing] at hfirst
      omega

end Keyspace

theorem Shape.eq_card_of_look {σ : Type} {shape : Shape σ} {n : σ → Nat}
    (hn : ∀ x, (shape.wrap x).size = n x) {s : Slot} {r : Reply}
    (hr : shape.look (.count 0) (fun x => .count (n x)) s = .ok r) : r = .count s.card := by
  cases s with
  | none =>
    cases hr
    rfl
  | some e =>
    cases ho : shape.open? e.value with
    | none => simp [look, ho] at hr
    | some x =>
      simp only [look, ho] at hr
      cases hr
      rw [Slot.card, (shape.open?_eq_some e.value x).mp ho, hn]

namespace Engine

theorem execute_of_edit (e : Engine Q) {c : KeyCommand} {key : Key} {f : Slot → Except Error Reply × Slot}
    (htask : c.task e.keyspace.clock = .edit key f) (hkeeps : c.retimes = none) (nanos : Nat) :
    (e.execute (.onKeys c) nanos).1 = (f (e.keyspace.live key)).1 ∧
      (e.execute (.onKeys c) nanos).2.keyspace.live key = (f (e.keyspace.live key)).2.nonempty := by
  obtain ⟨hout, hlive⟩ := e.execute_onKeys c nanos
  rw [hout, hlive, htask]
  refine ⟨rfl, (if_pos rfl).trans ?_⟩
  exact (KeyCommand.keepsExpiry_of_edit hkeeps htask).live_nonempty (e.keyspace.slot key) e.keyspace.now

theorem told_of_edit (e : Engine Q) {c : KeyCommand} {key : Key} {f : Slot → Except Error Reply × Slot}
    (htask : c.task e.keyspace.clock = .edit key f) (hresizes : c.resizes = true) (hkeeps : c.retimes = none)
    {nanos : Nat} {r : Reply} (hr : (e.execute (.onKeys c) nanos).1 = .ok r) :
    let after := (e.execute (.onKeys c) nanos).2.keyspace
    c.Tells (e.keyspace.live key) (after.live key) r ∧
      ((after.live key).isSome ↔ 0 < (after.live key).card) := by
  obtain ⟨hout, hlive⟩ := e.execute_of_edit htask hkeeps nanos
  rw [hout] at hr
  obtain ⟨htells, hcollection⟩ := KeyCommand.counts_of_edit hresizes htask _ r hr
  dsimp only
  rw [hlive]
  exact ⟨htells.nonempty, hcollection.isSome_nonempty_iff⟩

/-- Replies tell cardinalities. A command that succeeds and that counts, adds or removes elements replies as
`KeyCommand.Tells` says, whatever its arguments and however often they are repeated; after one that adds or
removes, its key is there just when it holds an element; and a removal of keys replies by how many keys there
are fewer. -/
theorem cardinalities_told (e : Engine Q) (c : KeyCommand) (nanos : Nat) (r : Reply)
    (hr : (e.execute (.onKeys c) nanos).1 = .ok r) :
    let after := (e.execute (.onKeys c) nanos).2.keyspace
    (∀ k ∈ c.keys, c.Tells (e.keyspace.live k) (after.live k) r ∧
      (c.resizes = true → ((after.live k).isSome ↔ 0 < (after.live k).card))) ∧
    ∀ keys, c = .del keys → r = .integer (e.keyspace.size - after.size) := by
  intro after
  have hedit := fun key f htask => @told_of_edit _ e c key f htask
  have hout := (e.execute_onKeys c nanos).1
  cases c with
  | push | pop | hset | hincrBy | hdel | sadd | srem | zadd | zrem | zincrBy =>
    obtain ⟨htells, hiff⟩ := hedit _ _ rfl rfl rfl hr
    refine ⟨fun k hk => ?_, fun _ h => by cases h⟩
    rw [List.mem_singleton.mp hk]
    exact ⟨htells, fun _ => hiff⟩
  | llen | hlen | scard | zcard =>
    rw [hr] at hout
    refine ⟨fun k hk => ⟨?_, fun h => by cases h⟩, fun _ h => by cases h⟩
    rw [List.mem_singleton.mp hk]
    exact Shape.eq_card_of_look (fun _ => rfl) hout.symm
  | del keys =>
    refine ⟨fun k hk => ⟨trivial, fun _ => ?_⟩, fun _ _ => ?_⟩
    · have hnone : after.live k = none := by
        rw [(e.execute_onKeys (.del keys) nanos).2]
        exact (View.removeEach_snd keys e.keyspace.live k).trans (if_pos hk)
      rw [hnone]
      exact iff_of_false (by simp) (by simp [Slot.card])
    · have hsize : after.size + (Keyspace.removeEach keys e.keyspace).1 = e.keyspace.size :=
        e.keyspace.size_removeEach keys
      cases hr
      refine congrArg Reply.integer ?_
      omega
  | _ => exact ⟨fun _ _ => ⟨trivial, fun h => by cases h⟩, fun _ h => by cases h⟩

/-- Repeated arguments: an addition to a set over an expired string, a removal of all the fields of a hash,
and a removal of the hash and of keys that hold nothing. -/
theorem cardinalities_told_of_repeats :
    let e := (new .default .standard).run [
      .execute (.onKeys (.set [107] [118] { expiry := .after 5 })) 0,
      .execute (.onKeys (.hset [104] [([97], [49]), ([98], [50]), ([97], [51])])) 0,
      .advance 5]
    let add : KeyCommand := .sadd [107] [[97], [98], [97]]
    let remove : KeyCommand := .hdel [104] [[97], [98], [97], [99]]
    let del : KeyCommand := .del [[104], [107], [104], [109]]
    let added := (e.execute (.onKeys add) 0).2.keyspace
    let removed := (e.execute (.onKeys remove) 0).2.keyspace
    let deleted := (e.execute (.onKeys del) 0).2.keyspace
    (add.Tells (e.keyspace.live [107]) (added.live [107]) (.integer 2) ∧
      ((added.live [107]).isSome ↔ 0 < (added.live [107]).card)) ∧
    (remove.Tells (e.keyspace.live [104]) (removed.live [104]) (.integer 2) ∧
      ((removed.live [104]).isSome ↔ 0 < (removed.live [104]).card)) ∧
    Reply.integer 1 = .integer (e.keyspace.size - deleted.size) := by
  intro e add remove del added removed deleted
  obtain ⟨hadd, hadded⟩ := (e.cardinalities_told add 0 (.integer 2) rfl).1 [107] (by decide)
  obtain ⟨hremove, hremoved⟩ := (e.cardinalities_told remove 0 (.integer 2) rfl).1 [104] (by decide)
  exact ⟨⟨hadd, hadded rfl⟩, ⟨hremove, hremoved rfl⟩,
    (e.cardinalities_told del 0 (.integer 1) rfl).2 _ rfl⟩

end Engine
end KeyStore
