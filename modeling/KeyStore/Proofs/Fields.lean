import KeyStore.Proofs.Maps
import KeyStore.Value.FieldMap

/-! Fields. A hash lists its fields with their values as a list does in which a field is overwritten where it
stands, a new one is put at the end and one that is removed is left out. The numbers of the creations order the
fields as long as they do not run out: a number stands for each field, and the next one is above all of them. -/
namespace KeyStore
open Std

abbrev FieldList := List (Bytes × Bytes)

namespace FieldMap

inductive Call
  | set (field value : Bytes)
  | remove (field : Bytes)
  | increment (field : Bytes) (delta : Int64)

def after (h : FieldMap) : Call → FieldMap
  | .set field value => (h.set field value).2
  | .remove field => (h.remove field).2
  | .increment field delta => (h.increment field delta).2

def run (h : FieldMap) (cs : List Call) : FieldMap := cs.foldl after h

end FieldMap

namespace FieldList
open FieldMap (Call)

/-- A field that is listed is overwritten where it stands, another one is put at the end. -/
def set (l : FieldList) (field value : Bytes) : FieldList :=
  if (l.map Prod.fst).contains field then l.map fun p => if p.1 = field then (field, value) else p
  else l ++ [(field, value)]

def remove (l : FieldList) (field : Bytes) : FieldList := l.filter fun p => p.1 ≠ field

def increment (l : FieldList) (field : Bytes) (delta : Int64) : Except Error Int64 × FieldList :=
  match ((l.lookup field).elim (.ok 0) Counter.read).bind (Counter.add · delta) with
  | .ok n => (.ok n, l.set field (Counter.write n))
  | .error e => (.error e, l)

def after (l : FieldList) : Call → FieldList
  | .set field value => l.set field value
  | .remove field => l.remove field
  | .increment field delta => (l.increment field delta).2

def run (l : FieldList) (cs : List Call) : FieldList := cs.foldl after l

def created (l : FieldList) (c : Call) : Nat := (l.after c).length - l.length

def creations : FieldList → List Call → Nat
  | _, [] => 0
  | l, c :: cs => l.created c + creations (l.after c) cs

theorem length_set (l : FieldList) (field value : Bytes) :
    (l.set field value).length = if field ∈ l.map Prod.fst then l.length else l.length + 1 := by
  simp only [set, List.contains_iff_mem]
  split <;> simp

theorem length_remove_le (l : FieldList) (field : Bytes) : (l.remove field).length ≤ l.length :=
  List.length_filter_le ..

end FieldList

namespace FieldMap

theorem get?_set (h : FieldMap) (field value f : Bytes) :
    (h.set field value).2.get? f = if field = f then some value else h.get? f := by
  rw [set]
  split <;> simp only [get?, ExtTreeMap.getElem?_insert, Std.compare_eq_iff_eq] <;> split <;> rfl

theorem get?_remove (h : FieldMap) (field f : Bytes) :
    (h.remove field).2.get? f = if field = f then none else h.get? f := by
  rw [remove]
  split
  · simp only [get?, ExtTreeMap.getElem?_erase, Std.compare_eq_iff_eq]
    split <;> rfl
  · rename_i hf
    split
    · rename_i heq
      simp [get?, ← heq, hf]
    · rfl

theorem increment_eq (h : FieldMap) (field : Bytes) (delta : Int64) :
    h.increment field delta =
      match ((h.get? field).elim (.ok 0) Counter.read).bind (Counter.add · delta) with
      | .ok n => (.ok n, (h.set field (Counter.write n)).2)
      | .error e => (.error e, h) := by
  rw [increment]
  cases h.get? field <;> rfl

theorem lookup_filterMap (g : Bytes → Option Bytes) (ks : List Bytes) (f : Bytes) :
    (ks.filterMap fun k => (g k).map fun value => (k, value)).lookup f = if f ∈ ks then g f else none := by
  induction ks with
  | nil => rfl
  | cons k ks ih =>
    by_cases hf : f = k
    · subst hf
      cases hg : g f <;> simp [hg, ih]
    · have hne : (f == k) = false := beq_eq_false_iff_ne.mpr hf
      cases hg : g k <;> simp [hg, ih, hf, List.lookup_cons, hne]

/-- The indexes tell of the same fields, each with its number, and the next number is above all of them. -/
structure Indexed (h : FieldMap) : Prop where
  order_iff : ∀ (n : UInt64) (field : Bytes),
    h.order[n]? = some field ↔ ∃ value, h.fields[field]? = some (n, value)
  lt_next : ∀ (n : UInt64) (field : Bytes), h.order[n]? = some field → n < h.next

namespace Indexed

theorem empty : Indexed FieldMap.empty where
  order_iff n field := by simp [FieldMap.empty]
  lt_next n field h := by simp [FieldMap.empty] at h

variable {h : FieldMap} (hi : h.Indexed)
include hi

theorem mem_keys (field : Bytes) : field ∈ h.keys ↔ (h.get? field).isSome = true := by
  rw [keys, List.mem_map]
  constructor
  · rintro ⟨⟨n, f⟩, hmem, rfl⟩
    obtain ⟨value, hvalue⟩ := (hi.order_iff n f).mp (ExtTreeMap.mem_toList_iff_getElem?_eq_some.mp hmem)
    simp [get?, hvalue]
  · intro hsome
    rw [get?, Option.isSome_map] at hsome
    obtain ⟨⟨n, value⟩, hvalue⟩ := Option.isSome_iff_exists.mp hsome
    have hnumber := (hi.order_iff n field).mpr ⟨value, hvalue⟩
    exact ⟨(n, field), ExtTreeMap.mem_toList_iff_getElem?_eq_some.mpr hnumber, rfl⟩

theorem eq_of_field {n m : UInt64} {field : Bytes} (hn : h.order[n]? = some field)
    (hm : h.order[m]? = some field) : n = m := by
  obtain ⟨value, hvalue⟩ := (hi.order_iff n field).mp hn
  obtain ⟨value', hvalue'⟩ := (hi.order_iff m field).mp hm
  rw [hvalue] at hvalue'
  exact congrArg Prod.fst (Option.some.inj hvalue')

theorem nodup : h.keys.Nodup := by
  refine List.pairwise_map.mpr (ExtTreeMap.distinct_keys_toList.imp_of_mem fun {a b} ha hb hne heq => ?_)
  rw [ExtTreeMap.mem_toList_iff_getElem?_eq_some] at ha hb
  exact hne (Std.compare_eq_iff_eq.mpr (hi.eq_of_field ha (heq ▸ hb)))

theorem keys_set (field value : Bytes) :
    (h.set field value).2.keys = if field ∈ h.keys then h.keys else h.keys ++ [field] := by
  simp only [hi.mem_keys, get?, Option.isSome_map]
  cases hf : h.fields[field]? with
  | some row => simp [FieldMap.set, hf, keys]
  | none =>
    -- the number of the new field is above the others, so that it is listed last
    have hlast : ∀ n f, h.order[n]? = some f → compare n h.next = .lt := fun n f hn =>
      compare_eq_lt.mpr (hi.lt_next n f hn)
    simp [FieldMap.set, hf, keys, toList_insert_last field hlast]

theorem keys_remove (field : Bytes) : (h.remove field).2.keys = h.keys.filter fun f => f ≠ field := by
  cases hf : h.fields[field]? with
  | none =>
    have hnew : field ∉ h.keys := by simp [hi.mem_keys, get?, hf]
    have hkeep : ∀ f ∈ h.keys, decide (f ≠ field) = true := fun f hmem =>
      decide_eq_true fun heq => hnew (heq ▸ hmem)
    rw [List.filter_eq_self.mpr hkeep, FieldMap.remove, hf]
  | some row =>
    obtain ⟨n, value⟩ := row
    have hn : h.order[n]? = some field := (hi.order_iff n field).mpr ⟨value, hf⟩
    simp only [FieldMap.remove, hf, keys, toList_erase, List.filter_map]
    refine congrArg _ (List.filter_congr fun p hp => ?_)
    rw [ExtTreeMap.mem_toList_iff_getElem?_eq_some] at hp
    have hsame : p.1 = n ↔ p.2 = field := by
      constructor
      · intro heq
        rw [heq, hn] at hp
        exact (Option.some.inj hp).symm
      · intro heq
        exact hi.eq_of_field hp (heq ▸ hn)
    simp [hsame]

theorem map_fst_entries : h.entries.map Prod.fst = h.keys := by
  have hkeys : ∀ f ∈ h.keys, ((h.get? f).map fun value => (f, value)).map Prod.fst = some f := fun f hf => by
    obtain ⟨value, hvalue⟩ := Option.isSome_iff_exists.mp ((hi.mem_keys f).mp hf)
    simp [hvalue]
  rw [entries, List.map_filterMap, List.filterMap_congr hkeys, List.filterMap_some]

theorem lookup_entries (field : Bytes) : h.entries.lookup field = h.get? field := by
  rw [entries, lookup_filterMap]
  simp only [hi.mem_keys]
  cases h.get? field <;> rfl

theorem entries_set (field value : Bytes) :
    (h.set field value).2.entries = FieldList.set h.entries field value := by
  rw [FieldList.set, hi.map_fst_entries, entries, hi.keys_set]
  by_cases hold : field ∈ h.keys
  · rw [if_pos hold, if_pos (List.contains_iff_mem.mpr hold), entries, List.map_filterMap]
    refine List.filterMap_congr fun f hf => ?_
    rw [get?_set]
    by_cases heq : field = f
    · obtain ⟨old, hvalue⟩ := Option.isSome_iff_exists.mp ((hi.mem_keys f).mp hf)
      simp [heq, hvalue]
    · cases h.get? f <;> simp [heq, Ne.symm heq]
  · -- the fields that were there have the values that they had
    have hothers : ∀ f ∈ h.keys, ((h.set field value).2.get? f).map (fun v => (f, v)) =
        (h.get? f).map fun v => (f, v) := fun f hf => by
      have hne : field ≠ f := fun heq => hold (heq ▸ hf)
      rw [get?_set, if_neg hne]
    rw [if_neg hold, if_neg (mt List.contains_iff_mem.mp hold), List.filterMap_append,
      List.filterMap_congr hothers, entries]
    simp [get?_set]

theorem entries_remove (field : Bytes) : (h.remove field).2.entries = FieldList.remove h.entries field := by
  rw [FieldList.remove, entries, hi.keys_remove, entries, List.filterMap_filter, List.filter_filterMap]
  refine List.filterMap_congr fun f _ => ?_
  rw [get?_remove]
  by_cases heq : field = f
  · cases h.get? f <;> simp [heq, Option.filter_some]
  · cases h.get? f <;> simp [heq, Ne.symm heq, Option.filter_some]

theorem next_set (field value : Bytes) :
    (h.set field value).2.next = if field ∈ h.keys then h.next else h.next + 1 := by
  simp only [hi.mem_keys, get?, Option.isSome_map]
  cases hf : h.fields[field]? <;> simp [FieldMap.set, hf]

theorem set (field value : Bytes) (hroom : field ∉ h.keys → h.next.toNat + 1 < 0x10000000000000000) :
    (h.set field value).2.Indexed := by
  cases hf : h.fields[field]? with
  | some row =>
    -- a field that is overwritten keeps its number
    obtain ⟨n, old⟩ := row
    have hn (m : UInt64) : h.order[m]? = some field ↔ n = m := by simp [hi.order_iff, hf]
    simp only [FieldMap.set, hf]
    refine ⟨fun m f => ?_, hi.lt_next⟩
    rw [ExtTreeMap.getElem?_insert]
    by_cases heq : field = f
    · subst heq
      simp [hn]
    · simp [heq, hi.order_iff]
  | none =>
    have hnew : field ∉ h.keys := by simp [hi.mem_keys, get?, hf]
    have hfree (m : UInt64) : h.order[m]? ≠ some field := by simp [hi.order_iff, hf]
    have hnext (f : Bytes) : h.order[h.next]? ≠ some f := fun hn =>
      absurd (hi.lt_next h.next f hn) (UInt64.lt_irrefl h.next)
    have hbelow : h.next < h.next + 1 := by
      have hfits := hroom hnew
      rw [UInt64.lt_iff_toNat_lt, UInt64.toNat_add, UInt64.toNat_one]
      omega
    simp only [FieldMap.set, hf]
    refine ⟨fun m f => ?_, fun m f hm => ?_⟩
    · rw [ExtTreeMap.getElem?_insert, ExtTreeMap.getElem?_insert]
      by_cases heq : field = f
      · subst heq
        by_cases hm : h.next = m
        · simp [hm]
        · simp [hm, hfree]
      · by_cases hm : h.next = m
        · subst hm
          simp [heq, ← hi.order_iff, hnext]
        · simp [heq, hm, hi.order_iff]
    · rw [ExtTreeMap.getElem?_insert] at hm
      split at hm
      · rename_i heq
        rw [← Std.compare_eq_iff_eq.mp heq]
        exact hbelow
      · exact UInt64.lt_trans (hi.lt_next m f hm) hbelow

theorem remove (field : Bytes) : (h.remove field).2.Indexed := by
  cases hf : h.fields[field]? with
  | none =>
    rw [FieldMap.remove, hf]
    exact hi
  | some row =>
    obtain ⟨n, value⟩ := row
    have hn (m : UInt64) : h.order[m]? = some field ↔ n = m := by simp [hi.order_iff, hf]
    simp only [FieldMap.remove, hf]
    refine ⟨fun m f => ?_, fun m f hm => ?_⟩
    · rw [ExtTreeMap.getElem?_erase, ExtTreeMap.getElem?_erase]
      by_cases heq : field = f
      · subst heq
        by_cases hm : n = m
        · simp [hm]
        · simp [hm, hn]
      · by_cases hm : n = m
        · subst hm
          have hother : h.order[n]? ≠ some f := by simp [(hn n).mpr rfl, heq]
          simp [heq, ← hi.order_iff, hother]
        · simp [heq, hm, hi.order_iff]
    · rw [ExtTreeMap.getElem?_erase] at hm
      split at hm
      · cases hm
      · exact hi.lt_next m f hm

theorem size_eq : h.size = h.keys.length :=
  size_eq_length hi.nodup fun field => by
    rw [ExtTreeMap.mem_iff_isSome_getElem?, hi.mem_keys, get?, Option.isSome_map]

end Indexed

/-- The hash is listed as `l`, and `n` fields were created. -/
structure ListedAs (h : FieldMap) (l : FieldList) (n : Nat) : Prop where
  indexed : h.Indexed
  entries : h.entries = l
  next : h.next.toNat = n

namespace ListedAs

theorem empty : ListedAs FieldMap.empty [] 0 := ⟨Indexed.empty, rfl, rfl⟩

variable {h : FieldMap} {l : FieldList} {n : Nat} (hl : h.ListedAs l n)
include hl

theorem set (field value : Bytes) (hroom : n + ((l.set field value).length - l.length) < 0x10000000000000000) :
    (h.set field value).2.ListedAs (l.set field value) (n + ((l.set field value).length - l.length)) := by
  obtain ⟨hi, rfl, rfl⟩ := hl
  rw [FieldList.length_set, hi.map_fst_entries] at hroom ⊢
  have hnext := hi.next_set field value
  by_cases hold : field ∈ h.keys
  · rw [if_pos hold] at hroom hnext ⊢
    exact ⟨hi.set field value fun hnew => absurd hold hnew, hi.entries_set field value, by rw [hnext]; omega⟩
  · rw [if_neg hold] at hroom hnext ⊢
    refine ⟨hi.set field value fun _ => by omega, hi.entries_set field value, ?_⟩
    rw [hnext, UInt64.toNat_add, UInt64.toNat_one]
    omega

theorem remove (field : Bytes) : (h.remove field).2.ListedAs (l.remove field) n := by
  obtain ⟨hi, rfl, rfl⟩ := hl
  refine ⟨hi.remove field, hi.entries_remove field, ?_⟩
  rw [FieldMap.remove]
  split <;> rfl

/-- An increment fails and changes nothing, in the hash and in the list, or sets the field to the same sum. -/
theorem increment_cases (field : Bytes) (delta : Int64) :
    (∃ err, h.increment field delta = (.error err, h) ∧ l.increment field delta = (.error err, l)) ∨
    ∃ sum, h.increment field delta = (.ok sum, (h.set field (Counter.write sum)).2) ∧
      l.increment field delta = (.ok sum, l.set field (Counter.write sum)) := by
  rw [increment_eq, FieldList.increment, ← hl.indexed.lookup_entries, hl.entries]
  cases ((l.lookup field).elim (.ok 0) Counter.read).bind (Counter.add · delta) with
  | error err => exact .inl ⟨err, rfl, rfl⟩
  | ok sum => exact .inr ⟨sum, rfl, rfl⟩

/-- A call keeps the hash and the list in step, as long as there is a number for what it creates. -/
theorem after (c : Call) (hroom : n + l.created c < 0x10000000000000000) :
    (h.after c).ListedAs (l.after c) (n + l.created c) := by
  cases c with
  | set field value => exact hl.set field value hroom
  | remove field =>
    have hnone : l.created (.remove field) = 0 := Nat.sub_eq_zero_of_le (l.length_remove_le field)
    rw [hnone]
    exact hl.remove field
  | increment field delta =>
    rcases hl.increment_cases field delta with ⟨err, hfails, hfails'⟩ | ⟨sum, hsets, hsets'⟩
    · have hsame : l.after (.increment field delta) = l := congrArg Prod.snd hfails'
      rw [FieldList.created, hsame, Nat.sub_self, FieldMap.after, hfails]
      exact hl
    · have hset : l.after (.increment field delta) = l.set field (Counter.write sum) :=
        congrArg Prod.snd hsets'
      rw [FieldList.created, hset] at hroom ⊢
      rw [FieldMap.after, hsets]
      exact hl.set field (Counter.write sum) hroom

theorem run (cs : List Call) (hroom : n + l.creations cs < 0x10000000000000000) :
    (h.run cs).ListedAs (l.run cs) (n + l.creations cs) := by
  induction cs generalizing h l n with
  | nil => exact hl
  | cons c cs ih =>
    rw [FieldList.creations, ← Nat.add_assoc] at hroom ⊢
    exact ih (hl.after c (by omega)) hroom

end ListedAs

/-- What a hash tells of its fields, and of calls that are about to come, is what a list tells. -/
structure Matches (h : FieldMap) (l : FieldList) : Prop where
  entries : h.entries = l
  /-- No field is listed twice. -/
  nodup : (l.map Prod.fst).Nodup
  keys : h.keys = l.map Prod.fst
  size : h.size = l.length
  get : ∀ field, h.get? field = l.lookup field
  contains : ∀ field, h.contains field = true ↔ field ∈ l.map Prod.fst
  set : ∀ field value, (h.set field value).1 = true ↔ field ∉ l.map Prod.fst
  remove : ∀ field, (h.remove field).1 = true ↔ field ∈ l.map Prod.fst
  increment : ∀ field delta, (h.increment field delta).1 = (l.increment field delta).1
  /-- An increment that fails changes nothing. -/
  increment_fails : ∀ field delta err, (h.increment field delta).1 = .error err →
    (h.increment field delta).2 = h

theorem ListedAs.matches {h : FieldMap} {l : FieldList} {n : Nat} (hl : h.ListedAs l n) : h.Matches l := by
  have hkeys : h.keys = l.map Prod.fst := by rw [← hl.entries, hl.indexed.map_fst_entries]
  have hmem (field : Bytes) : field ∈ l.map Prod.fst ↔ h.fields[field]?.isSome = true := by
    rw [← hkeys, hl.indexed.mem_keys, get?, Option.isSome_map]
  refine ⟨hl.entries, hkeys ▸ hl.indexed.nodup, hkeys, ?_, fun field => ?_, fun field => ?_, fun field value => ?_,
    fun field => ?_, fun field delta => ?_, fun field delta err herr => ?_⟩
  · rw [hl.indexed.size_eq, hkeys, List.length_map]
  · rw [← hl.entries, hl.indexed.lookup_entries]
  · rw [hmem, contains, ExtTreeMap.contains_eq_isSome_getElem?]
  · rw [hmem, FieldMap.set]
    split <;> simp_all
  · rw [hmem, FieldMap.remove]
    split <;> simp_all
  · rcases hl.increment_cases field delta with ⟨err, hfails, hfails'⟩ | ⟨sum, hsets, hsets'⟩
    · rw [hfails, hfails']
    · rw [hsets, hsets']
  · rcases hl.increment_cases field delta with ⟨err', hfails, -⟩ | ⟨sum, hsets, -⟩
    · rw [hfails]
    · rw [hsets] at herr
      cases herr

/-- Fields are kept in order. Whatever calls made a hash, as long as they created fewer fields than there are
numbers, it tells of its fields and of calls that are about to come what the list tells in which the calls
overwrite a field where it stands, put a new one at the end and leave out one that is removed. -/
theorem fields_in_order (cs : List Call) (hcs : FieldList.creations [] cs < 0x10000000000000000) :
    (empty.run cs).Matches (FieldList.run [] cs) := by
  have hroom : 0 + FieldList.creations [] cs < 0x10000000000000000 := by omega
  exact (ListedAs.empty.run cs hroom).matches

/-- A field that is overwritten, one that is removed and set again, and increments of which one fails. -/
theorem fields_in_order_of_return :
    let cs : List Call := [.set [97] [120], .set [98] [121], .increment [99] 7, .set [97] [122], .remove [98],
      .increment [97] 1, .set [98] [49], .increment [98] 1]
    FieldList.creations [] cs < 0x10000000000000000 ∧
      (empty.run cs).entries = [([97], [122]), ([99], [55]), ([98], [50])] ∧
      (empty.run cs).size = 3 ∧ ((empty.run cs).set [98] []).1 = false := by
  intro cs
  have hcs : FieldList.creations [] cs < 0x10000000000000000 := by decide
  have hmatches := fields_in_order cs hcs
  exact ⟨hcs, hmatches.entries, hmatches.size, by decide +kernel⟩

end FieldMap
end KeyStore
