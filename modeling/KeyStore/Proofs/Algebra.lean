import Mathlib.Data.Set.Lattice
import KeyStore.Proofs.Maps
import KeyStore.Proofs.Frames

/-! The algebra of sets. Keys that hold sets, or nothing, are combined to the intersection, the union or the
difference of what they hold, which is told in order. A key counts in each place in which it stands, and but
for the first of a difference the places do not matter. Nothing is written, and nothing new stays. -/
namespace KeyStore
open Std

namespace Algebra

def gives (first : Set Bytes) (rest : List (Set Bytes)) : Algebra → Set Bytes
  | inter => first ∩ ⋂ s ∈ rest, s
  | union => first ∪ ⋃ s ∈ rest, s
  | diff => first \ ⋃ s ∈ rest, s

variable {m : Bytes} {first first' : Set Bytes} {rest rest' : List (Set Bytes)}

theorem mem_gives_inter : m ∈ inter.gives first rest ↔ ∀ s ∈ first :: rest, m ∈ s := by simp [gives]

theorem mem_gives_union : m ∈ union.gives first rest ↔ ∃ s ∈ first :: rest, m ∈ s := by simp [gives]

theorem mem_gives_diff : m ∈ diff.gives first rest ↔ m ∈ first ∧ ∀ s ∈ rest, m ∉ s := by simp [gives]

theorem gives_perm (op : Algebra) (h : rest.Perm rest') : op.gives first rest' = op.gives first rest := by
  ext m
  cases op with
  | inter => simp only [mem_gives_inter, (h.cons first).mem_iff]
  | union => simp only [mem_gives_union, (h.cons first).mem_iff]
  | diff => simp only [mem_gives_diff, h.mem_iff]

theorem gives_perm_cons {op : Algebra} (hop : op ≠ diff) (h : (first :: rest).Perm (first' :: rest')) :
    op.gives first' rest' = op.gives first rest := by
  ext m
  cases op with
  | inter => simp only [mem_gives_inter, h.mem_iff]
  | union => simp only [mem_gives_union, h.mem_iff]
  | diff => exact absurd rfl hop

end Algebra

namespace MemberSet

theorem mem_inter {m : Bytes} {s : Option MemberSet} {rest : List (Option MemberSet)} :
    m ∈ inter (s :: rest) ↔ ∀ t ∈ s :: rest, m ∈ ofOption t := by
  simp [inter, ExtTreeSet.mem_filter]

theorem mem_union {m : Bytes} {sets : List (Option MemberSet)} :
    m ∈ union sets ↔ ∃ t ∈ sets, m ∈ ofOption t := by
  have hfold (acc : MemberSet) : m ∈ sets.foldl (fun acc s => acc.insertMany (ofOption s).toList) acc ↔
      m ∈ acc ∨ ∃ t ∈ sets, m ∈ ofOption t := by
    induction sets generalizing acc with
    | nil => simp
    | cons s sets ih =>
      rw [List.foldl_cons, ih, ExtTreeSet.mem_insertMany_list]
      simp [or_assoc]
  rw [union, hfold]
  simp

theorem mem_diff {m : Bytes} {s : Option MemberSet} {rest : List (Option MemberSet)} :
    m ∈ diff (s :: rest) ↔ m ∈ ofOption s ∧ ∀ t ∈ rest, m ∉ ofOption t := by
  simp [diff, ExtTreeSet.mem_filter]

end MemberSet

namespace Slot

def members (s : Slot) : Set Bytes := {m | ∃ set expiresAt, s = some ⟨.set set, expiresAt⟩ ∧ m ∈ set}

def operand (s : Slot) : Option MemberSet := s.bind fun e => Shape.set.open? e.value

theorem mem_operand {m : Bytes} {s : Slot} : m ∈ MemberSet.ofOption s.operand ↔ m ∈ s.members := by
  cases s with
  | none => simp [operand, members, MemberSet.ofOption]
  | some e =>
    obtain ⟨value, expiresAt⟩ := e
    cases value <;> simp [operand, members, MemberSet.ofOption, Shape.set]

theorem look_operand {s : Slot} (hs : ¬ s.Foreign .set) : Shape.set.look none some s = .ok s.operand := by
  cases s with
  | none => rfl
  | some e =>
    rw [foreign_some, ← Shape.set_opens.open?_eq_none] at hs
    obtain ⟨set, hset⟩ := Option.ne_none_iff_exists'.mp hs
    simp [Shape.look, operand, hset]

end Slot

theorem mapM_eq_ok {f : α → Except ε β} {g : α → β} {as : List α} (h : ∀ a ∈ as, f a = .ok (g a)) :
    as.mapM f = .ok (as.map g) := by
  induction as with
  | nil => rfl
  | cons a as ih =>
    rw [List.mapM_cons, h a List.mem_cons_self, ih fun b hb => h b (List.mem_cons_of_mem a hb)]
    rfl

theorem Algebra.mem_combine (op : Algebra) {m : Bytes} (s : Slot) (rest : List Slot) :
    m ∈ op.combine ((s :: rest).map Slot.operand) ↔ m ∈ op.gives s.members (rest.map Slot.members) := by
  cases op with
  | inter => simp [combine, MemberSet.mem_inter, mem_gives_inter, Slot.mem_operand]
  | union => simp [combine, MemberSet.mem_union, mem_gives_union, Slot.mem_operand]
  | diff => simp [combine, MemberSet.mem_diff, mem_gives_diff, Slot.mem_operand]

namespace Engine

theorem execute_combine_fst (e : Engine Q) (op : Algebra) {keys : List Key}
    (hsets : ∀ k ∈ keys, ¬ (e.keyspace.live k).Foreign .set) (nanos : Nat) :
    (e.execute (.onKeys (.combine op keys)) nanos).1 =
      .ok (.bulks (op.combine ((keys.map e.keyspace.live).map Slot.operand)).toList) := by
  have hoperands : keys.mapM (fun k => Shape.set.look none some
      ((Held.ofKeys keys e.keyspace.live).entry k)) =
        .ok (keys.map fun k => (e.keyspace.live k).operand) := by
    apply mapM_eq_ok
    intro k hk
    rw [Held.entry_ofKeys_of_mem hk, Slot.look_operand (hsets k hk)]
  rw [(e.execute_onKeys _ nanos).1, KeyCommand.task, Task.meaning]
  dsimp only
  rw [KeyCommand.combineHeld, hoperands, List.map_map]
  rfl

/-- Where the keys to combine hold sets or nothing, the reply lists in order what the operation gives. The
order of the keys does not change it, save for the first key of a difference. Every key shows what it showed,
the keys that are there and seen are the same, and no cell is new. -/
theorem combine_exact (e : Engine Q) (he : e.Reachable) (op : Algebra) (first : Key) (rest : List Key)
    (hsets : ∀ k ∈ first :: rest, ¬ (e.keyspace.live k).Foreign .set) (nanos : Nat) :
    let ks := e.keyspace
    let members (k : Key) := (ks.live k).members
    let reply (keys : List Key) := (e.execute (.onKeys (.combine op keys)) nanos).1
    let ks' := (e.execute (.onKeys (.combine op (first :: rest))) nanos).2.keyspace
    (∃ names, reply (first :: rest) = .ok (.bulks names) ∧
      ListingOf (· ∈ op.gives (members first) (rest.map members)) names) ∧
    (∀ rest', rest.Perm rest' → reply (first :: rest') = reply (first :: rest)) ∧
    (op ≠ .diff → ∀ keys, (first :: rest).Perm keys → reply keys = reply (first :: rest)) ∧
    (∀ k, ks'.live k = ks.live k) ∧
    (∀ k, k ∈ ks'.cells ∧ (ks'.live k).isSome ↔ k ∈ ks.cells ∧ (ks.live k).isSome) ∧
    ∀ k ∈ ks'.cells, k ∈ ks.cells := by
  intro ks members reply ks'
  have hlists (first : Key) (rest : List Key) (hsets : ∀ k ∈ first :: rest, ¬ (ks.live k).Foreign .set) :
      ∃ names, reply (first :: rest) = .ok (.bulks names) ∧
        ListingOf (· ∈ op.gives (members first) (rest.map members)) names := by
    refine ⟨_, e.execute_combine_fst op hsets nanos, ?_⟩
    have hlisting := listingOf_toList (op.combine (((first :: rest).map ks.live).map Slot.operand))
    refine ⟨hlisting.ascending, fun name => (hlisting.mem name).trans ?_⟩
    rw [List.map_cons, op.mem_combine, List.map_map]
    rfl
  have hsame (first' : Key) (rest' : List Key) (hperm : (first :: rest).Perm (first' :: rest'))
      (hgives : op.gives (members first') (rest'.map members) =
        op.gives (members first) (rest.map members)) : reply (first' :: rest') = reply (first :: rest) := by
    obtain ⟨names, hreply, hnames⟩ := hlists first rest hsets
    obtain ⟨names', hreply', hnames'⟩ := hlists first' rest' fun k hk => hsets k (hperm.mem_iff.mpr hk)
    rw [hgives] at hnames'
    rw [hreply, hreply', hnames.unique hnames']
  have hlooked : ks.Looked ks' := e.looked_of_read he.tidy rfl nanos
  have hsheds : ks.Sheds ks' := hlooked.sheds he.tidy (Keyspace.lasting_tidy.execute e _ nanos he.tidy)
  refine ⟨hlists first rest hsets, fun rest' hperm => ?_, fun hop keys hperm => ?_, hsheds.live,
    fun k => ?_, hsheds.mem_cells⟩
  · exact hsame first rest' (hperm.cons first) (op.gives_perm (hperm.map members))
  · cases keys with
    | nil => exact absurd hperm.length_eq (by simp)
    | cons first' rest' => exact hsame first' rest' hperm (Algebra.gives_perm_cons hop (hperm.map members))
  · rw [hsheds.live k]
    refine ⟨fun ⟨hk, hlive⟩ => ⟨hsheds.mem_cells k hk, hlive⟩, fun ⟨_, hlive⟩ => ⟨?_, hlive⟩⟩
    rw [← hsheds.live k] at hlive
    exact ks'.mem_cells_of_live k hlive

/-- A difference of a set, another that stands twice, one that has expired and a key that holds nothing. The one
that has expired is given up. -/
theorem combine_exact_of_expired :
    let e := (new .default .standard).run [
      .execute (.onKeys (.sadd [115] [[98], [99], [97]])) 0,
      .execute (.onKeys (.sadd [116] [[99]])) 0,
      .execute (.onKeys (.sadd [117] [[97]])) 0,
      .execute (.onKeys (.expire [117] 5)) 0,
      .execute (.onKeys (.set [120] [118] {})) 0,
      .advance 5]
    let members (k : Key) := (e.keyspace.live k).members
    let reply (op : Algebra) (keys : List Key) := (e.execute (.onKeys (.combine op keys)) 0).1
    let ks' := (e.execute (.onKeys (.combine .diff [[115], [116], [117], [118], [116]])) 0).2.keyspace
    e.Reachable ∧
      (∃ names, reply .diff [[115], [116], [117], [118], [116]] = .ok (.bulks names) ∧
        ListingOf (· ∈ Algebra.diff.gives (members [115]) ([[116], [117], [118], [116]].map members)) names) ∧
      reply .diff [[115], [116], [117], [118], [116]] = .ok (.bulks [[97], [98]]) ∧
      reply .diff [[115], [118], [116], [116], [117]] = reply .diff [[115], [116], [117], [118], [116]] ∧
      reply .union [[117], [116], [115], [116]] = reply .union [[115], [116], [117], [116]] ∧
      (∀ k, ks'.live k = e.keyspace.live k) ∧ e.keyspace.residentSize = 4 ∧ ks'.residentSize = 3 := by
  intro e members reply ks'
  have he : e.Reachable := ⟨_, _, _, rfl⟩
  obtain ⟨hlists, hrest, -, hlive, -, -⟩ :=
    e.combine_exact he .diff [115] [[116], [117], [118], [116]] (by decide) 0
  obtain ⟨-, -, hall, -, -, -⟩ := e.combine_exact he .union [115] [[116], [117], [116]] (by decide) 0
  have hnames : reply .diff [[115], [116], [117], [118], [116]] = .ok (.bulks [[97], [98]]) :=
    (e.execute_combine_fst .diff (by decide) 0).trans
      (congrArg (fun names => Except.ok (Reply.bulks names)) (by decide +kernel))
  exact ⟨he, hlists, hnames, hrest _ (by decide), hall (by decide) _ (by decide), hlive, by decide, by decide⟩

end Engine
end KeyStore
