import KeyStore.Proofs.Kinds
import KeyStore.Proofs.TimeLeft

/-! Strings. What a set does depends on the live entry that it finds: the condition is asked of it, its expiry may be
kept, and a string that it holds may be the reply. An entry that has expired counts for nothing. -/
namespace KeyStore

def SetCondition.Holds (s : Slot) : SetCondition → Prop
  | always => True
  | ifAbsent => s = none
  | ifPresent => s ≠ none

/-- When a string expires that is set over what a slot holds. -/
def SetExpiry.endsAt (now : Instant) (s : Slot) : SetExpiry → Option Instant
  | clear => none
  | after millis => some (now + millis)
  | keep => s.bind (·.expiresAt)

theorem SetExpiry.not_isDue {expiry : SetExpiry} (hpos : ∀ millis, expiry = .after millis → 0 < millis) (s : Slot)
    (now : Instant) (v : Value) : Entry.isDue ⟨v, expiry.endsAt now (s.live now)⟩ now = false := by
  cases expiry with
  | clear => rfl
  | after millis => simp [endsAt, Entry.isDue, Nat.not_le.mpr (Nat.lt_add_of_pos_right (hpos millis rfl))]
  | keep =>
    cases hs : s.live now with
    | none => rfl
    | some e =>
      have he : e.isDue now = false := by simpa using (Option.filter_eq_some_iff.mp hs).2
      simpa [endsAt, Entry.isDue] using he

namespace KeyCommand

theorem allows_iff (c : SetCondition) (s : Slot) : allows c s = true ↔ c.Holds s := by
  cases c with
  | always => exact iff_of_true rfl trivial
  | ifAbsent => exact Option.isNone_iff_eq_none
  | ifPresent => exact Option.isSome_iff_ne_none

instance (c : SetCondition) (s : Slot) : Decidable (c.Holds s) := decidable_of_iff _ (allows_iff c s)

theorem setTask_of_inReach {clock : Clock} {o : SetOptions} (hreach : o.expiry.inReach clock = true) (key : Key)
    (value : Bytes) :
    setTask clock key value o = .edit key (setSlot value o fun s => o.expiry.endsAt clock.now s) := by
  obtain ⟨condition, expiry, get⟩ := o
  cases expiry with
  | clear => rfl
  | keep => rfl
  | after millis =>
    obtain ⟨at', hat⟩ := Option.isSome_iff_exists.mp hreach
    simp only [setTask, hat, Clock.eq_of_after? hat, SetExpiry.endsAt]

theorem previous_cases (get : Bool) (s : Slot) :
    (get = true ∧ s.Foreign .string) ∧ previous get s = .error .wrongType ∨
      ¬ (get = true ∧ s.Foreign .string) ∧ ∃ old, previous get s = .ok old := by
  cases get with
  | false => exact .inr ⟨fun h => Bool.false_ne_true h.1, none, rfl⟩
  | true =>
    have hlook := Shape.string_opens.look_iff none some s
    rw [previous, if_pos rfl, ← hlook]
    cases hs : Shape.string.look none some s with
    | ok old => exact .inr ⟨by simp, old, rfl⟩
    | error err =>
      rw [Shape.string.eq_wrongType_of_look none some s err hs]
      exact .inl ⟨⟨rfl, rfl⟩, rfl⟩

theorem setSlot_of_previous {o : SetOptions} {s : Slot} {old : Option Bytes} (hold : previous o.get s = .ok old)
    (value : Bytes) (expiry : Slot → Option Instant) :
    setSlot value o expiry s =
      (.ok (if o.get then .optional old else if o.condition.Holds s then .ok else .nil),
        if o.condition.Holds s then some ⟨.string value, expiry s⟩ else s) := by
  rw [setSlot, hold]
  simp only [allows_iff]

end KeyCommand

namespace Engine

def stringAt (e : Engine Q) (k : Key) : Except Error (Option Bytes) := Shape.string.look none some (e.keyspace.live k)

theorem execute_get (e : Engine Q) (k : Key) (nanos : Nat) :
    (e.execute (.onKeys (.get k)) nanos).1 = (e.stringAt k).map Reply.optional := by
  rw [stringAt, Shape.map_look]
  exact (e.execute_onKeys (.get k) nanos).1

theorem execute_set (e : Engine Q) {o : SetOptions} (hreach : o.expiry.inReach e.keyspace.clock = true) (key : Key)
    (value : Bytes) (nanos : Nat) :
    let found := e.keyspace.live key
    let set := KeyCommand.setSlot value o (fun s => o.expiry.endsAt e.keyspace.now s) found
    (e.execute (.onKeys (.set key value o)) nanos).1 = set.1 ∧
      ∀ k, (e.execute (.onKeys (.set key value o)) nanos).2.keyspace.live k =
        if key = k then set.2.nonempty.live e.keyspace.now else e.keyspace.live k := by
  have htask : (KeyCommand.set key value o).task e.keyspace.clock = _ := KeyCommand.setTask_of_inReach hreach key value
  obtain ⟨hout, hlive⟩ := e.execute_onKeys (.set key value o) nanos
  rw [hout, hlive, htask]
  exact ⟨rfl, fun k => rfl⟩

theorem execute_set_of_previous (e : Engine Q) (htidy : e.keyspace.Tidy) {o : SetOptions}
    (hreach : o.expiry.inReach e.keyspace.clock = true) (hpos : ∀ millis, o.expiry = .after millis → 0 < millis)
    {key : Key} {old : Option Bytes} (hold : KeyCommand.previous o.get (e.keyspace.live key) = .ok old)
    (value : Bytes) (nanos : Nat) :
    let before := e.keyspace.live key
    let r := e.execute (.onKeys (.set key value o)) nanos
    r.1 = .ok (if o.get then .optional old else if o.condition.Holds before then .ok else .nil) ∧
      r.2.keyspace.live key = if o.condition.Holds before then
        some ⟨.string value, o.expiry.endsAt e.keyspace.now before⟩ else before := by
  intro before r
  obtain ⟨hout, hlive⟩ := e.execute_set hreach key value nanos
  rw [KeyCommand.setSlot_of_previous hold] at hout hlive
  refine ⟨hout, (hlive key).trans ((if_pos rfl).trans ?_)⟩
  change Slot.live (Slot.nonempty (if o.condition.Holds before then _ else before)) e.keyspace.now = _
  split
  · exact Slot.live_of_not_isDue (SetExpiry.not_isDue hpos (e.keyspace.slot key) e.keyspace.now (.string value))
  · rw [htidy.live_nonempty]
    exact Slot.live_live (e.keyspace.slot key) e.keyspace.now

/-- Strings are set. A set whose expiry is within reach is refused if it asks for what it replaces and a value of
another kind is there; then nothing changes. Otherwise it writes just when its condition holds of the live entry,
with the expiry that is asked for, and leaves the entry as it is when it does not; the reply is the string that was
there, or says whether it was written. An entry that has expired is no live entry. -/
theorem strings_set (e : Engine Q) (he : e.Reachable) (key : Key) (value : Bytes) (o : SetOptions)
    (hreach : o.expiry.inReach e.keyspace.clock = true) (hpos : ∀ millis, o.expiry = .after millis → 0 < millis)
    (nanos : Nat) :
    let r := e.execute (.onKeys (.set key value o)) nanos
    let before := e.keyspace.live key
    let after := r.2.keyspace.live key
    let refused := o.get = true ∧ before.Foreign .string
    (refused → r.1 = .error .wrongType ∧ r.2.keyspace.live = e.keyspace.live ∧ e.keyspace.Sheds r.2.keyspace ∧
      r.2.config = e.config ∧ r.2.broker = e.broker) ∧
    (¬ refused →
      (o.condition.Holds before → after = some ⟨.string value, o.expiry.endsAt e.keyspace.now before⟩ ∧
        ∀ nanos', (r.2.execute (.onKeys (.get key)) nanos').1 = .ok (.bulk value)) ∧
      (¬ o.condition.Holds before → after = before) ∧
      (∀ k, k ≠ key → r.2.keyspace.live k = e.keyspace.live k) ∧
      (o.get = true → ∃ old, e.stringAt key = .ok old ∧ r.1 = .ok (.optional old)) ∧
      (o.get = false → (o.condition.Holds before → r.1 = .ok .ok) ∧ (¬ o.condition.Holds before → r.1 = .ok .nil))) ∧
    ∀ old, e.keyspace.slot key = some old → old.isDue e.keyspace.now = true → before = none := by
  intro r before after refused
  obtain ⟨hout, hlive⟩ := e.execute_set hreach key value nanos
  refine ⟨fun hrefused => ?_, fun hallowed => ?_, fun old hold hdue => ?_⟩
  · have herr : r.1 = .error .wrongType := hout.trans ((KeyCommand.setSlot_iff value o _ before).mpr hrefused)
    have hsheds := e.sheds_of_error he.tidy (.set key value o) .wrongType herr
    exact ⟨herr, funext hsheds.live, hsheds, rfl, rfl⟩
  · obtain ⟨hrefused, -⟩ | ⟨-, old, hold⟩ := KeyCommand.previous_cases o.get (e.keyspace.live key)
    · exact absurd hrefused hallowed
    obtain ⟨hreply, hafter⟩ := e.execute_set_of_previous he.tidy hreach hpos hold value nanos
    refine ⟨fun h => ?_, fun h => hafter.trans (if_neg h), fun k hk => (hlive k).trans (if_neg hk.symm),
      fun hget => ?_, fun hget => ?_⟩
    · have hwritten : after = _ := hafter.trans (if_pos h)
      refine ⟨hwritten, fun nanos' => ?_⟩
      rw [execute_get, stringAt, show r.2.keyspace.live key = _ from hwritten]
      rfl
    · rw [hget] at hold hreply
      exact ⟨old, hold, hreply⟩
    · rw [hget] at hreply
      exact ⟨fun h => hreply.trans (congrArg Except.ok (if_pos h)),
        fun h => hreply.trans (congrArg Except.ok (if_neg h))⟩
  · exact (congrArg (Slot.live · e.keyspace.now) hold).trans (Slot.live_of_isDue hdue)

/-- A string that has expired, one that expires later and a list: each is set with its expiry kept, under a
condition, and asked for what is replaced. -/
theorem strings_set_over_expired :
    let e := (new .default .standard).run [
      .execute (.onKeys (.set [107] [118] { expiry := .after 5 })) 0,
      .execute (.onKeys (.set [109] [119] { expiry := .after 9 })) 0,
      .execute (.onKeys (.push [108] [[97]] .left false)) 0,
      .advance 5]
    let o (condition : SetCondition) : SetOptions := { condition, expiry := .keep, get := true }
    let set (key : Key) (condition : SetCondition) := e.execute (.onKeys (.set key [120] (o condition))) 0
    e.keyspace.live [107] = none ∧
      (set [107] .ifAbsent).2.keyspace.live [107] = some ⟨.string [120], none⟩ ∧
      (set [107] .ifPresent).2.keyspace.live [107] = none ∧
      (set [109] .ifPresent).2.keyspace.live [109] = some ⟨.string [120], some 9⟩ ∧
      (∃ old, e.stringAt [109] = .ok old ∧ (set [109] .ifAbsent).1 = .ok (.optional old)) ∧
      (set [108] .always).1 = .error .wrongType := by
  intro e o set
  have hset (key : Key) (condition : SetCondition) :=
    e.strings_set ⟨_, _, _, rfl⟩ key [120] (o condition) rfl (fun _ h => by cases h) 0
  have hdue : ∃ old, e.keyspace.slot [107] = some old ∧ old.isDue e.keyspace.now = true := ⟨_, rfl, rfl⟩
  obtain ⟨old, hold, hdue⟩ := hdue
  have hnone := (hset [107] .always).2.2 old hold hdue
  have hplain : ¬ (true = true ∧ Slot.Foreign .string (e.keyspace.live [107])) := by decide
  have hplain' : ¬ (true = true ∧ Slot.Foreign .string (e.keyspace.live [109])) := by decide
  refine ⟨hnone, ?_, ?_, ?_, ?_, ?_⟩
  · exact (((hset [107] .ifAbsent).2.1 hplain).1 hnone).1
  · exact (((hset [107] .ifPresent).2.1 hplain).2.1 (fun h => h hnone)).trans hnone
  · exact (((hset [109] .ifPresent).2.1 hplain').1 (by decide)).1
  · exact ((hset [109] .ifAbsent).2.1 hplain').2.2.2.1 rfl
  · exact ((hset [108] .always).1 ⟨rfl, by decide⟩).1

end Engine
end KeyStore
