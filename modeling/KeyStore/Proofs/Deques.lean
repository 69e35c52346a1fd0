import KeyStore.Proofs.Cardinalities
import KeyStore.Proofs.Positions
import KeyStore.Proofs.Steps

/-! Deques. Read from an end inwards, a list grows at its head and shrinks at its head there, whichever end it is.
Commands on a list do this to what their key holds, one after the other, and keep the key just as long as the list
has items. So a run of them hands over every item once, and never changes the order of those that stay. -/
namespace KeyStore

namespace Side

def inwards (side : Side) (xs : List α) : List α :=
  match side with
  | left => xs
  | right => xs.reverse

@[simp] theorem inwards_nil (side : Side) : side.inwards ([] : List α) = [] := by cases side <;> rfl

@[simp] theorem inwards_inwards (side : Side) (xs : List α) : side.inwards (side.inwards xs) = xs := by
  cases side with
  | left => rfl
  | right => exact xs.reverse_reverse

@[simp] theorem length_inwards (side : Side) (xs : List α) : (side.inwards xs).length = xs.length := by
  cases side with
  | left => rfl
  | right => exact xs.length_reverse

theorem inwards_eq_nil_iff (side : Side) (xs : List α) : side.inwards xs = [] ↔ xs = [] := by
  rw [← List.length_eq_zero_iff, length_inwards, List.length_eq_zero_iff]

theorem inwards_perm (side : Side) (xs : List α) : (side.inwards xs).Perm xs := by
  cases side with
  | left => exact .refl xs
  | right => exact xs.reverse_perm

end Side

namespace Deque

theorem inwards_push (d : Deque) (side : Side) (x : Bytes) :
    side.inwards (d.push side x).items = x :: side.inwards d.items := by
  rw [items_push]
  cases side with
  | left => rfl
  | right => exact List.reverse_append

theorem inwards_pop (d : Deque) (side : Side) :
    (d.pop side).1 = (side.inwards d.items).head? ∧
      side.inwards (d.pop side).2.items = (side.inwards d.items).tail := by
  obtain ⟨hout, hrest⟩ := d.items_pop side
  rw [hout, hrest]
  cases side with
  | left => exact ⟨rfl, rfl⟩
  | right => exact ⟨List.head?_reverse.symm, List.tail_reverse.symm⟩

theorem inwards_pushAll (d : Deque) (side : Side) (xs : List Bytes) :
    side.inwards (d.pushAll side xs).items = xs.reverse ++ side.inwards d.items := by
  induction xs generalizing d with
  | nil => rfl
  | cons x xs ih =>
    have hall : d.pushAll side (x :: xs) = (d.push side x).pushAll side xs := rfl
    rw [hall, ih, inwards_push, List.reverse_cons, List.append_assoc, List.singleton_append]

theorem inwards_popMany (side : Side) (n : Nat) (d : Deque) :
    (popMany side n d).1 = (side.inwards d.items).take n ∧
      side.inwards (popMany side n d).2.items = (side.inwards d.items).drop n := by
  induction n generalizing d with
  | zero => exact ⟨rfl, rfl⟩
  | succ n ih =>
    obtain ⟨hout, hrest⟩ := d.inwards_pop side
    rw [popMany]
    split
    · rename_i x rest hpop
      rw [hpop] at hout hrest
      obtain ⟨xs, hitems⟩ := List.head?_eq_some_iff.mp hout.symm
      rw [hitems] at hrest ⊢
      obtain ⟨hfirst, hlast⟩ := ih rest
      rw [hrest] at hfirst hlast
      exact ⟨List.cons_eq_cons.mpr ⟨rfl, hfirst⟩, hlast⟩
    · -- nothing is popped just when there is nothing
      rename_i rest hpop
      rw [hpop] at hout hrest
      rw [List.head?_eq_none_iff.mp hout.symm] at hrest ⊢
      exact ⟨rfl, hrest⟩

end Deque

theorem IndexRange.slice_take {stop : Int64} {n : Nat} (hn : 1 ≤ n) (hstop : stop.toInt = n - 1) (xs : List α) :
    slice 0 stop xs.length xs = xs.take n := by
  cases xs with
  | nil => exact List.take_nil.symm
  | cons x xs =>
    have hfirst : resolve 0 (xs.length + 1) = 0 := rfl
    have hlast : resolve stop (xs.length + 1) = n - 1 := by
      rw [resolve, hstop, if_neg (by omega)]
    have hrange : normalize 0 stop (xs.length + 1) = some (0, min (n - 1) xs.length) := by
      rw [normalize_eq_some_iff]
      simp only [Covers, hfirst, hlast]
      exact ⟨by omega, by omega, fun j hj => by omega⟩
    simp only [slice, List.length_cons, hrange, List.drop_zero, Nat.sub_zero]
    rw [List.take_eq_take_iff, List.length_cons]
    omega

def Outcome.items : Outcome → List Bytes
  | .ok (.bulk b) => [b]
  | .ok (.array replies) => replies.filterMap Reply.asBulk
  | _ => []

theorem Outcome.items_bulks (xs : List Bytes) : Outcome.items (.ok (.bulks xs)) = xs := by
  simp [Outcome.items, Reply.bulks, List.filterMap_map, Function.comp_def, Reply.asBulk]

/-- A push or a pop at an end. -/
inductive ListCall
  | push (side : Side) (values : List Bytes)
  | pop (side : Side) (count : Option Nat)
deriving DecidableEq, Repr

namespace ListCall

def pushed : ListCall → List Bytes
  | push _ values => values
  | pop .. => []

def pushedAt (side : Side) : ListCall → List Bytes
  | push side' values => if side' = side then values else []
  | pop .. => []

/-- Whether a call takes out at an end, or brings at the other. -/
def queues (out : Side) : ListCall → Bool
  | push side _ => side ≠ out
  | pop side _ => side = out

def command (key : Key) : ListCall → KeyCommand
  | push side values => .push key values side false
  | pop side count => .pop key side count

def step (items : List Bytes) : ListCall → Outcome × List Bytes
  | push side values =>
    (.ok (.count (items.length + values.length)), side.inwards (values.reverse ++ side.inwards items))
  | pop side none =>
    (.ok (.optional (side.inwards items).head?), side.inwards (side.inwards items).tail)
  | pop side (some n) =>
    (.ok (if items = [] then .nil else .bulks ((side.inwards items).take n)),
      side.inwards ((side.inwards items).drop n))

theorem step_pop (items : List Bytes) (side : Side) (count : Option Nat) :
    Outcome.items (step items (pop side count)).1 = (side.inwards items).take (count.getD 1) ∧
      (step items (pop side count)).2 = side.inwards ((side.inwards items).drop (count.getD 1)) := by
  cases count with
  | none =>
    refine ⟨?_, by rw [step, Option.getD_none, List.drop_one]⟩
    rw [step]
    cases side.inwards items <;> rfl
  | some n =>
    refine ⟨?_, rfl⟩
    rw [step]
    by_cases hitems : items = []
    · rw [if_pos hitems, hitems, Side.inwards_nil, List.take_nil]
      rfl
    · rw [if_neg hitems, Outcome.items_bulks, Option.getD_some]

theorem step_pop_nil (side : Side) (count : Option Nat) : step [] (pop side count) = (.ok .nil, []) := by
  cases count <;> simp [step, Reply.optional]

theorem step_perm (items : List Bytes) (c : ListCall) :
    (items ++ c.pushed).Perm (Outcome.items (step items c).1 ++ (step items c).2) := by
  cases c with
  | push side values =>
    have hall : (values.reverse ++ side.inwards items).Perm (values ++ items) :=
      values.reverse_perm.append (side.inwards_perm items)
    exact List.perm_append_comm.trans (hall.symm.trans (side.inwards_perm _).symm)
  | pop side count =>
    obtain ⟨hout, hrest⟩ := step_pop items side count
    rw [hout, hrest, pushed, List.append_nil]
    refine (side.inwards_perm items).symm.trans ?_
    refine (List.Perm.of_eq (List.take_append_drop (count.getD 1) (side.inwards items)).symm).trans ?_
    exact (List.Perm.refl _).append (side.inwards_perm _).symm

theorem step_sublist (items : List Bytes) (c : ListCall) :
    (step items c).2.Sublist ((c.pushedAt .left).reverse ++ items ++ c.pushedAt .right) := by
  cases c with
  | push side values => cases side <;> simp [step, pushedAt, Side.inwards]
  | pop side count =>
    rw [(step_pop items side count).2]
    simp only [pushedAt, List.reverse_nil, List.nil_append, List.append_nil]
    cases side with
    | left => exact List.drop_sublist ..
    | right => exact List.reverse_sublist.mp ((List.reverse_reverse _).symm ▸ List.drop_sublist ..)

theorem step_queues {out : Side} {c : ListCall} (hc : c.queues out = true) (items : List Bytes) :
    out.inwards items ++ c.pushed = Outcome.items (step items c).1 ++ out.inwards (step items c).2 := by
  cases c with
  | push side values =>
    have hne : side ≠ out := of_decide_eq_true hc
    cases side <;> cases out <;> simp_all [step, pushed, Side.inwards, Outcome.items, Reply.count]
  | pop side count =>
    obtain rfl : side = out := of_decide_eq_true hc
    obtain ⟨hout, hrest⟩ := step_pop items side count
    rw [hout, hrest, Side.inwards_inwards, List.take_append_drop, pushed, List.append_nil]

theorem replay_perm (calls : List ListCall) (items : List Bytes) :
    (items ++ calls.flatMap pushed).Perm
      ((replay step calls items).1.flatMap Outcome.items ++ (replay step calls items).2) := by
  induction calls generalizing items with
  | nil => exact .of_eq (List.append_nil items)
  | cons c calls ih =>
    rw [replay_cons, List.flatMap_cons, List.flatMap_cons, ← List.append_assoc]
    refine ((step_perm items c).append_right _).trans ?_
    rw [List.append_assoc, List.append_assoc]
    exact (ih (step items c).2).append_left _

theorem replay_sublist (calls : List ListCall) (items : List Bytes) :
    (replay step calls items).2.Sublist
      ((calls.flatMap (pushedAt .left)).reverse ++ items ++ calls.flatMap (pushedAt .right)) := by
  induction calls generalizing items with
  | nil => simp [replay]
  | cons c calls ih =>
    rw [replay_cons, List.flatMap_cons, List.flatMap_cons, List.reverse_append]
    refine (ih (step items c).2).trans ?_
    have hstep := (((step_sublist items c).append_left (calls.flatMap (pushedAt .left)).reverse).append_right
      (calls.flatMap (pushedAt .right)))
    simpa only [List.append_assoc] using hstep

theorem replay_queues {out : Side} (calls : List ListCall) (hcalls : ∀ c ∈ calls, c.queues out = true)
    (items : List Bytes) :
    out.inwards items ++ calls.flatMap pushed =
      (replay step calls items).1.flatMap Outcome.items ++ out.inwards (replay step calls items).2 := by
  induction calls generalizing items with
  | nil => exact List.append_nil _
  | cons c calls ih =>
    obtain ⟨hc, hrest⟩ := List.forall_mem_cons.mp hcalls
    rw [replay_cons, List.flatMap_cons, List.flatMap_cons, ← List.append_assoc, step_queues hc, List.append_assoc,
      ih hrest, List.append_assoc]

end ListCall

/-- A slot holds a list of some items, or nothing if there are none. -/
structure Slot.Lists (s : Slot) (items : List Bytes) : Prop where
  look : Shape.list.look [] Deque.items s = .ok items
  gone_iff : s = none ↔ items = []

namespace Slot

theorem lists_nonempty (d : Deque) (expiry : Option Instant) :
    Slot.Lists (Slot.nonempty (some ⟨.list d, expiry⟩)) d.items where
  look := Shape.list.look_nonempty (fun d hd => d.isEmpty_iff.mp hd) rfl
  gone_iff := by
    rw [← d.isEmpty_iff]
    cases hd : d.isEmpty <;> simp [nonempty, Option.filter, Value.isEmptyCollection, hd]

namespace Lists
variable {s : Slot} {items : List Bytes} (h : s.Lists items)
include h

theorem exists_deque : ∃ d : Deque, Shape.list.look Shape.list.fresh id s = .ok d ∧ d.items = items :=
  Shape.exists_of_look (by rfl) h.look

theorem push (side : Side) (values : List Bytes) :
    (KeyCommand.pushSlot values side false s).1 = (ListCall.step items (.push side values)).1 ∧
      (KeyCommand.pushSlot values side false s).2.nonempty.Lists (ListCall.step items (.push side values)).2 := by
  obtain ⟨d, hlook, rfl⟩ := h.exists_deque
  rw [KeyCommand.pushSlot, if_neg (by simp), Shape.grow_of_look hlook]
  refine ⟨?_, ?_⟩
  · dsimp only
    rw [d.size_pushAll side values, ← d.length_items]
    rfl
  · have hitems : (ListCall.step d.items (.push side values)).2 = (d.pushAll side values).items := by
      rw [ListCall.step, ← d.inwards_pushAll, Side.inwards_inwards]
    rw [hitems]
    exact lists_nonempty _ _

theorem pop (side : Side) (count : Option Nat) :
    let r := Shape.list.alter .nil (KeyCommand.popItems side count) s
    r.1 = (ListCall.step items (.pop side count)).1 ∧
      r.2.nonempty.Lists (ListCall.step items (.pop side count)).2 := by
  intro r
  cases s with
  | none =>
    obtain rfl : items = [] := h.gone_iff.mp rfl
    rw [ListCall.step_pop_nil]
    exact ⟨rfl, rfl, iff_of_true rfl rfl⟩
  | some e =>
    have hsome : items ≠ [] := mt h.gone_iff.mpr (by simp)
    obtain ⟨d, hlook, rfl⟩ := h.exists_deque
    have hr : r = _ := Shape.alter_of_look hlook .nil (KeyCommand.popItems side count)
    rw [hr]
    cases count with
    | none =>
      obtain ⟨hout, hrest⟩ := d.inwards_pop side
      have hitems : (ListCall.step d.items (.pop side none)).2 = (d.pop side).2.items := by
        rw [ListCall.step, ← hrest, Side.inwards_inwards]
      rw [hitems]
      exact ⟨congrArg (fun x => Except.ok (Reply.optional x)) hout, lists_nonempty _ _⟩
    | some n =>
      obtain ⟨hout, hrest⟩ := d.inwards_popMany side n
      have hitems : (ListCall.step d.items (.pop side (some n))).2 = (Deque.popMany side n d).2.items := by
        rw [ListCall.step, ← hrest, Side.inwards_inwards]
      rw [hitems, ListCall.step, if_neg hsome, ← hout]
      exact ⟨rfl, lists_nonempty _ _⟩

end Lists
end Slot

namespace Engine

def itemsAt (e : Engine Q) (k : Key) : Except Error (List Bytes) := Shape.list.look [] Deque.items (e.keyspace.live k)

theorem lists_of_itemsAt {e : Engine Q} (htidy : e.keyspace.Tidy) {key : Key} {items : List Bytes}
    (h : e.itemsAt key = .ok items) : (e.keyspace.live key).Lists items := by
  have hkept := htidy.live_nonempty key
  rw [itemsAt] at h
  cases hlive : e.keyspace.live key with
  | none =>
    rw [hlive] at h
    exact ⟨h, iff_of_true rfl (Except.ok.inj h).symm⟩
  | some old =>
    rw [hlive] at h hkept
    obtain ⟨value, expiry⟩ := old
    obtain ⟨d, rfl, rfl⟩ := Shape.exists_of_look_some h
    rw [← hkept]
    exact Slot.lists_nonempty d expiry

theorem execute_listCall {e : Engine Q} {key : Key} {items : List Bytes} (h : (e.keyspace.live key).Lists items)
    (c : ListCall) (nanos : Nat) :
    (e.execute (.onKeys (c.command key)) nanos).1 = (ListCall.step items c).1 ∧
      ((e.execute (.onKeys (c.command key)) nanos).2.keyspace.live key).Lists (ListCall.step items c).2 := by
  cases c with
  | push side values =>
    obtain ⟨hout, hlive⟩ := e.execute_of_edit (c := .push key values side false) rfl rfl nanos
    obtain ⟨htold, hlists⟩ := h.push side values
    exact ⟨hout.trans htold, hlive ▸ hlists⟩
  | pop side count =>
    obtain ⟨hout, hlive⟩ := e.execute_of_edit (c := .pop key side count) rfl rfl nanos
    obtain ⟨htold, hlists⟩ := h.pop side count
    exact ⟨hout.trans htold, hlive ▸ hlists⟩

theorem execute_lrange_take {e : Engine Q} {key : Key} {items : List Bytes} (h : (e.keyspace.live key).Lists items)
    {n : Nat} (hn : 1 ≤ n) {stop : Int64} (hstop : stop.toInt = n - 1) (nanos : Nat) :
    (e.execute (.onKeys (.lrange key 0 stop)) nanos).1 = .ok (.bulks (items.take n)) := by
  obtain ⟨d, hlook, rfl⟩ := h.exists_deque
  have hlist : e.listAt key = .ok d := hlook
  rw [execute_lrange, hlist, Except.map, Deque.range, ← d.length_items, IndexRange.slice_take hn hstop]

theorem live_pop_one (e : Engine Q) (key : Key) (side : Side) (nanos : Nat) :
    (e.execute (.onKeys (.pop key side none)) nanos).2.keyspace.live =
      (e.execute (.onKeys (.pop key side (some 1))) nanos).2.keyspace.live := by
  have hone (d : Deque) : (Deque.popMany side 1 d).2 = (d.pop side).2 := by
    rw [Deque.popMany]
    split <;> rename_i hpop <;> rw [hpop]
    rfl
  have hbody (s : Slot) : (Shape.list.alter .nil (KeyCommand.popItems side none) s).2 =
      (Shape.list.alter .nil (KeyCommand.popItems side (some 1)) s).2 := by
    cases s with
    | none => rfl
    | some old => cases ho : Shape.list.open? old.value <;> simp [Shape.alter, ho, KeyCommand.popItems, hone]
  rw [(e.execute_onKeys _ nanos).2, (e.execute_onKeys _ nanos).2]
  exact congrArg (View.write e.keyspace.live e.keyspace.now key) (hbody _)

/-- A command replies and leaves a list of some items under a key, or nothing if there are none. -/
def Leaves (key : Key) (r : Outcome × Engine Q) (reply : Reply) (items : List Bytes) : Prop :=
  r.1 = .ok reply ∧ (r.2.keyspace.live key).Lists items

theorem leaves_pop {e : Engine Q} {key : Key} {items : List Bytes} (h : (e.keyspace.live key).Lists items)
    (hsome : items ≠ []) (side : Side) (n nanos : Nat) :
    Leaves key (e.execute (.onKeys (.pop key side (some n))) nanos) (.bulks ((side.inwards items).take n))
      (side.inwards ((side.inwards items).drop n)) := by
  have hpop := execute_listCall h (.pop side (some n)) nanos
  rw [ListCall.step, if_neg hsome] at hpop
  exact hpop

/-- Lists are deques. In a reachable engine a key that holds a list, or nothing, is there just when there are items,
and so it is after each of the commands: a push puts its values at its end, the last one outermost; a pop hands over
the items from its end inwards, up to its count, as a range would tell them, and without a count the one that it
would with a count of one; a key that holds nothing gives nothing. After a run of pushes and pops the items that
were there or came were handed over, or are left, each once; those left are in order; and what comes in at one end
only goes out at the other in order. -/
theorem lists_are_deques (e : Engine Q) (he : e.Reachable) (key : Key) (items : List Bytes)
    (hitems : e.itemsAt key = .ok items) (nanos : Nat) :
    let push (side : Side) (values : List Bytes) := e.execute (.onKeys (.push key values side false)) nanos
    let pop (side : Side) (count : Option Nat) := e.execute (.onKeys (.pop key side count)) nanos
    (e.keyspace.live key = none ↔ items = []) ∧
    (∀ values,
      Leaves key (push .right values) (.count (items.length + values.length)) (items ++ values) ∧
      Leaves key (push .left values) (.count (items.length + values.length)) (values.reverse ++ items)) ∧
    (items ≠ [] → ∀ n,
      Leaves key (pop .left (some n)) (.bulks (items.take n)) (items.drop n) ∧
      Leaves key (pop .right (some n)) (.bulks (items.reverse.take n)) (items.take (items.length - n))) ∧
    (items ≠ [] → ∀ side, ∃ x, (pop side none).1 = .ok (.bulk x) ∧ (pop side (some 1)).1 = .ok (.bulks [x])) ∧
    (∀ side, (pop side none).2.keyspace.live = (pop side (some 1)).2.keyspace.live) ∧
    (items ≠ [] → ∀ (n : Nat) (stop : Int64), 1 ≤ n → stop.toInt = n - 1 →
      (pop .left (some n)).1 = (e.execute (.onKeys (.lrange key 0 stop)) nanos).1) ∧
    (items = [] → ∀ side count, Leaves key (pop side count) .nil []) ∧
    ∀ (calls : List ListCall) (nanos' : Nat → Nat),
      let r := e.executeEach nanos' (calls.map (·.command key))
      let left := (replay ListCall.step calls items).2
      r.1 = (replay ListCall.step calls items).1 ∧
      (r.2.keyspace.live key).Lists left ∧
      (items ++ calls.flatMap ListCall.pushed).Perm (r.1.flatMap Outcome.items ++ left) ∧
      left.Sublist ((calls.flatMap (ListCall.pushedAt .left)).reverse ++ items ++
        calls.flatMap (ListCall.pushedAt .right)) ∧
      ∀ out : Side, (∀ c ∈ calls, c.queues out = true) →
        out.inwards items ++ calls.flatMap ListCall.pushed = r.1.flatMap Outcome.items ++ out.inwards left := by
  intro push pop
  have hlists := lists_of_itemsAt he.tidy hitems
  have hcall (c : ListCall) := execute_listCall hlists c nanos
  refine ⟨hlists.gone_iff, fun values => ⟨?_, hcall (.push .left values)⟩, fun hsome n => ⟨?_, ?_⟩,
    fun hsome side => ?_, fun side => e.live_pop_one key side nanos, fun hsome n stop hn hstop => ?_,
    fun hnone side count => ?_, fun calls nanos' => ?_⟩
  · have hright : (ListCall.step items (.push .right values)).2 = items ++ values := by
      simp [ListCall.step, Side.inwards]
    obtain ⟨hout, hrest⟩ := hcall (.push .right values)
    exact ⟨hout, hright ▸ hrest⟩
  · exact leaves_pop hlists hsome .left n nanos
  · have hright : (items.reverse.drop n).reverse = items.take (items.length - n) := by
      rw [List.drop_reverse, List.reverse_reverse]
    rw [← hright]
    exact leaves_pop hlists hsome .right n nanos
  · have hsome' : side.inwards items ≠ [] := mt (side.inwards_eq_nil_iff items).mp hsome
    obtain ⟨x, xs, hxs⟩ := List.exists_cons_of_ne_nil hsome'
    have hout := (hcall (.pop side none)).1
    have hout' := (leaves_pop hlists hsome side 1 nanos).1
    rw [ListCall.step, hxs] at hout
    rw [hxs] at hout'
    exact ⟨x, hout, hout'⟩
  · exact (leaves_pop hlists hsome .left n nanos).1.trans (execute_lrange_take hlists hn hstop nanos).symm
  · subst hnone
    have hnil := hcall (.pop side count)
    rw [ListCall.step_pop_nil] at hnil
    exact hnil
  · intro r left
    obtain ⟨houts, hafter⟩ := executeEach_replays ListCall.step (ListCall.command key)
      (fun _ _ c nanos h => execute_listCall h c nanos) calls nanos' hlists
    have houts' : r.1 = _ := houts
    rw [houts']
    exact ⟨rfl, hafter, ListCall.replay_perm calls items, ListCall.replay_sublist calls items,
      fun out hcalls => ListCall.replay_queues calls hcalls items⟩

/-- A list whose items are taken from the left until none is left, and which is begun anew. -/
theorem lists_are_deques_of_queue :
    let e := (new .default .standard).run [.execute (.onKeys (.push [108] [[97], [98], [99]] .right false)) 0]
    let calls : List ListCall := [.push .right [[97]], .pop .left (some 3), .pop .left none, .pop .left (some 0),
      .push .right [[100], [101]], .pop .left (some 1)]
    let handed := (e.executeEach id (calls.map (·.command [108]))).1.flatMap Outcome.items
    Leaves [108] (e.execute (.onKeys (.pop [108] .right (some 2))) 0) (.bulks [[99], [98]]) [[97]] ∧
      (e.execute (.onKeys (.pop [108] .left (some 9))) 0).1 = (e.execute (.onKeys (.lrange [108] 0 8)) 0).1 ∧
      ((e.executeEach id (calls.map (·.command [108]))).2.keyspace.live [108]).Lists [[101]] ∧
      [[97], [98], [99], [97], [100], [101]] = handed ++ [[101]] := by
  intro e calls handed
  have hitems : e.itemsAt [108] = .ok [[97], [98], [99]] := by rfl
  obtain ⟨-, -, hpops, -, -, hrange, -, hruns⟩ := e.lists_are_deques ⟨_, _, _, rfl⟩ [108] _ hitems 0
  obtain ⟨-, hleft, -, -, hqueue⟩ := hruns calls id
  exact ⟨(hpops (by decide) 2).2, hrange (by decide) 9 8 (by decide) (by decide), hleft, hqueue .left (by decide)⟩

end Engine
end KeyStore
