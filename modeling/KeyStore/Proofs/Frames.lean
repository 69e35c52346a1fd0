import KeyStore.Proofs.Kinds
import KeyStore.Proofs.TimeLeft

/-! Frames: what commands leave alone. A command leaves the expiry of every entry that it is not there to
time, and gives none to an entry that it makes afresh. A command that does not write leaves all that is
seen, and what it drops had expired. -/
namespace KeyStore

theorem KeyCommand.keepsExpiry_task (clock : Clock) (c : KeyCommand) {k : Key}
    (hk : c.retimes ≠ some k) :
    (c.task clock).Writes (fun s entry => entry.expiresAt = s.bind (·.expiresAt)) k := by
  have hkeeps := @keepsExpiry_of_edit clock c
  cases c with
  | set | expire | persist =>
    refine Task.writes_of_notMem fun h => hk ?_
    exact congrArg some (List.mem_singleton.mp (keys_task clock _ k h)).symm
  | incrBy | push | pop | hset | hincrBy | hdel | sadd | srem | zadd | zrem | zincrBy =>
    exact fun _ => hkeeps rfl rfl
  | combine op keys =>
    intro _ h entry hentry
    rw [show h.entry k = some entry from hentry]
    rfl
  | rename source destination =>
    have hne : destination ≠ k := fun h => hk (congrArg some h)
    simp only [task]
    split
    · trivial
    · intro _ h entry hentry
      rw [entry_renameHeld_of_ne source destination h hne] at hentry
      split at hentry
      · cases hentry
      · rw [hentry]
        rfl
  | _ => trivial

def Command.retimes : Command → Option Key
  | onKeys c => c.retimes
  | onServer _ => none

namespace Engine

/-- Only commands that are there to set expiries touch them. A key that is seen before and after any other
command expires as it did before; a key that is seen only afterwards does not expire, even if what it held
before was an entry that had expired and was still there. -/
theorem expiries_kept (e : Engine Q) (c : Command) (nanos : Nat) (k : Key) (hk : c.retimes ≠ some k)
    (entry' : Entry) (h' : (e.execute c nanos).2.keyspace.live k = some entry') :
    (∀ entry, e.keyspace.live k = some entry → entry'.expiresAt = entry.expiresAt) ∧
      (e.keyspace.live k = none → entry'.expiresAt = none) := by
  have hwrites : ∀ c', c = .onKeys c' → (c'.task e.keyspace.clock).Writes
      (fun s entry => entry.expiresAt = s.bind (·.expiresAt)) k := by
    rintro c' rfl
    exact c'.keepsExpiry_task e.keyspace.clock hk
  have hexpiry : entry'.expiresAt = (e.keyspace.live k).bind (·.expiresAt) :=
    e.execute_of_writes nanos hwrites (fun _ => rfl) h'
  constructor
  · intro entry hentry
    rw [hexpiry, hentry]
    rfl
  · intro hnone
    rw [hexpiry, hnone]
    rfl

/-- A push onto a list that expires, and an addition to a set under a key where a string has expired. -/
theorem expiries_kept_of_due_string :
    let e := (new .default .standard).run [
      .execute (.onKeys (.push [108] [[97]] .left false)) 0,
      .execute (.onKeys (.expire [108] 50)) 0,
      .execute (.onKeys (.set [107] [118] { expiry := .after 5 })) 0,
      .advance 5]
    let push : Command := .onKeys (.push [108] [[98], [99]] .right false)
    let add : Command := .onKeys (.sadd [107] [[97], [97]])
    e.keyspace.residentSize = 2 ∧ e.keyspace.size = 1 ∧
      (∃ entry', (e.execute push 0).2.keyspace.live [108] = some entry' ∧
        entry'.expiresAt = some 50) ∧
      ∃ entry', (e.execute add 0).2.keyspace.live [107] = some entry' ∧ entry'.expiresAt = none := by
  intro e push add
  refine ⟨by decide, by decide, ⟨_, rfl, ?_⟩, _, rfl, ?_⟩
  · exact (e.expiries_kept push 0 [108] (by decide) _ rfl).1 _ rfl
  · exact (e.expiries_kept add 0 [107] (by decide) _ rfl).2 rfl

end Engine

theorem KeyCommand.leaves_task (clock : Clock) {c : KeyCommand} (hread : c.isWrite = false) {v : View}
    (hv : ∀ k, (v k).nonempty = v k) : (c.task clock).Leaves v := by
  cases c with
  | combine op keys =>
    intro k hk
    have hentry : ((combineHeld op keys (.ofKeys keys v)).2.entry k) = v k := by
      rw [combineHeld, Held.entry_ofKeys_of_mem hk]
    rw [hentry, hv]
  | set | incrBy | expire | persist | push | pop | hset | hincrBy | hdel | sadd | srem | zadd | zrem
  | zincrBy | del | rename => cases hread
  | _ => trivial

namespace Engine

theorem looked_of_read (e : Engine Q) (htidy : e.keyspace.Tidy) {c : Command} (hread : c.isWrite = false)
    (nanos : Nat) : e.keyspace.Looked (e.execute c nanos).2.keyspace := by
  cases c with
  | onKeys c => exact (c.leaves_task e.keyspace.clock hread htidy.live_nonempty).looked
  | onServer c =>
    rw [e.keyspace_execute_onServer c nanos]
    rcases e.keyspace_serve c with ⟨rfl, -⟩ | ⟨cursor, count, filter, hscan⟩ | hsame
    · cases hread
    · rw [hscan]
      exact Keyspace.scan_keeps (fun _ k f h => h.read k f) e.keyspace cursor count filter (.refl _)
    · rw [hsame]
      exact .refl _

/-- A command that does not count as a write changes nothing that is seen and makes no cell; the cells
that it gives up held entries that had expired. -/
theorem reads_change_nothing (e : Engine Q) (he : e.Reachable) (c : Command) (hread : c.isWrite = false)
    (nanos : Nat) :
    let e' := (e.execute c nanos).2
    (∀ k, e'.keyspace.live k = e.keyspace.live k) ∧
    (∀ k, k ∈ e'.keyspace.cells → k ∈ e.keyspace.cells) ∧
    ∀ k, e'.keyspace.cells[k]? = e.keyspace.cells[k]? ∨
      k ∉ e'.keyspace.cells ∧ (e.keyspace.slot k).any (·.isDue e.keyspace.now) = true := by
  have hlooked := e.looked_of_read he.tidy hread nanos
  have hsheds := hlooked.sheds he.tidy (Keyspace.lasting_tidy.execute e c nanos he.tidy)
  refine ⟨hsheds.live, hsheds.mem_cells, fun k => ?_⟩
  rcases hsheds.cells k with hsame | ⟨hdue, hgone⟩
  · exact .inl hsame
  · refine .inr ⟨fun hk => ?_, hdue⟩
    rw [Std.ExtTreeMap.mem_iff_isSome_getElem?, hgone] at hk
    cases hk

/-- A union of a set, a set that has expired and a key that holds nothing: the second is given up, and the
third does not stay. -/
theorem reads_change_nothing_of_union :
    let e := (new .default .standard).run [
      .execute (.onKeys (.sadd [115] [[97], [98]])) 0,
      .execute (.onKeys (.sadd [116] [[99]])) 0,
      .execute (.onKeys (.expire [116] 5)) 0,
      .advance 5]
    let union : Command := .onKeys (.combine .union [[115], [116], [117]])
    let e' := (e.execute union 0).2
    e.Reachable ∧ union.isWrite = false ∧
      ((∀ k, e'.keyspace.live k = e.keyspace.live k) ∧
        (∀ k, k ∈ e'.keyspace.cells → k ∈ e.keyspace.cells) ∧
        ∀ k, e'.keyspace.cells[k]? = e.keyspace.cells[k]? ∨
          k ∉ e'.keyspace.cells ∧ (e.keyspace.slot k).any (·.isDue e.keyspace.now) = true) ∧
      e.keyspace.residentSize = 2 ∧ e'.keyspace.residentSize = 1 := by
  intro e union e'
  exact ⟨⟨_, _, _, rfl⟩, rfl, reads_change_nothing e ⟨_, _, _, rfl⟩ union rfl 0, by decide, by decide⟩

end Engine
end KeyStore
