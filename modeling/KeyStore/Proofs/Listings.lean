import KeyStore.Proofs.Numbers
import KeyStore.Proofs.Ranges

/-! Listings: what commands tell of the scores in a sorted set. A member is listed with the score with which it
came to its place, and is told to have the one that it was given last. These are in one place; so they are the
same, unless they are the two zeros. -/
namespace KeyStore
open Std

/-- The scores that some changes give to a member, in order. -/
def scoresGiven (member : Bytes) (cs : List Change) : List Double :=
  cs.filterMap fun c => if c.1 = member then c.2 else none

theorem mem_scoresGiven {member : Bytes} {x : Double} {cs : List Change} :
    x ∈ scoresGiven member cs ↔ (member, some x) ∈ cs := by
  rw [scoresGiven, List.mem_filterMap]
  constructor
  · rintro ⟨⟨m, s⟩, hmem, hgives⟩
    split at hgives
    · rename_i hm
      rw [← hm, ← hgives]
      exact hmem
    · cases hgives
  · intro hmem
    exact ⟨_, hmem, if_pos rfl⟩

theorem scoresGiven_append (member : Bytes) (cs cs' : List Change) :
    scoresGiven member (cs ++ cs') = scoresGiven member cs ++ scoresGiven member cs' :=
  List.filterMap_append

theorem scoresGiven_singleton (member m : Bytes) (s : Option Double) :
    scoresGiven member [(m, s)] = if m = member then s.toList else [] := by
  rw [scoresGiven, List.filterMap_cons]
  by_cases h : m = member
  · cases s <;> simp [h]
  · simp [h]

namespace SortedSet

theorem Ranked.change {z : SortedSet} (h : z.Ranked) (c : Change) : (z.change c).Ranked := by
  obtain ⟨member, score⟩ := c
  cases score with
  | none => exact h.remove member
  | some score => exact h.insert member score

theorem ranked_ofChanges (cs : List Change) : (ofChanges cs).Ranked := by
  induction cs using List.reverseRecOn with
  | nil => exact Ranked.empty
  | append_singleton cs c ih =>
    rw [ofChanges_append]
    exact ih.change c

theorem scoresGiven_of_score? {cs : List Change} {m : Bytes} {s : Double}
    (hs : (ofChanges cs).score? m = some s) : ∃ before, scoresGiven m cs = before ++ [s] := by
  induction cs using List.reverseRecOn with
  | nil => simp [ofChanges, SortedSet.empty, score?] at hs
  | append_singleton cs c ih =>
    obtain ⟨member, score⟩ := c
    rw [ofChanges_append] at hs
    rw [scoresGiven_append, scoresGiven_singleton]
    cases score with
    | none =>
      rw [change, score?_remove] at hs
      split at hs
      · cases hs
      · rename_i hm
        rw [if_neg hm, List.append_nil]
        exact ih hs
    | some score =>
      rw [change, score?_insert] at hs
      split at hs
      · rename_i hm
        rw [if_pos hm, Option.some.inj hs]
        exact ⟨_, rfl⟩
      · rename_i hm
        rw [if_neg hm, List.append_nil]
        exact ih hs

/-- A member is listed with a score that it was given, and was given none in another place since. -/
theorem scoresGiven_of_place {cs : List Change} {p : Place} {x : Double}
    (hx : (ofChanges cs).ranking[p]? = some x) :
    ∃ before rest, scoresGiven p.member cs = before ++ x :: rest ∧ ∀ y ∈ rest, y.order = x.order := by
  -- from the last change back: it gives the member a score, takes it away, or is about another member
  induction cs using List.reverseRecOn with
  | nil => simp [ofChanges, SortedSet.empty] at hx
  | append_singleton cs c ih =>
    obtain ⟨member, score⟩ := c
    have hranked := ranked_ofChanges cs
    rw [ofChanges_append] at hx
    rw [scoresGiven_append, scoresGiven_singleton]
    cases score with
    | none =>
      rw [change, hranked.getElem?_ranking_remove] at hx
      split at hx
      · cases hx
      · rename_i hm
        rw [if_neg hm, List.append_nil]
        exact ih hx
    | some score =>
      rw [change, hranked.getElem?_ranking_insert] at hx
      split at hx
      · rename_i hm
        rw [if_pos hm]
        split at hx
        · -- the place stays, and the new score is one more in it
          rename_i hsame
          obtain ⟨before, rest, hgiven, hrest⟩ := ih hx
          have hplace : p ∈ (ofChanges cs).ranking := ExtTreeMap.mem_iff_isSome_getElem?.mpr (by simp [hx])
          have hscore := (hranked.mem_ranking p).mp hplace
          rw [← hm, hsame, ← hranked.order_eq p x hx] at hscore
          refine ⟨before, rest ++ [score], by simp [hgiven], fun y hy => ?_⟩
          rcases List.mem_append.mp hy with hold | hnew
          · exact hrest y hold
          · rw [List.mem_singleton.mp hnew]
            exact Option.some.inj hscore
        · split at hx
          · cases hx
            exact ⟨_, [], rfl, fun _ hy => by cases hy⟩
          · cases hx
      · rename_i hm
        rw [if_neg hm, List.append_nil]
        exact ih hx

namespace Made
variable {h : List Change} {z : SortedSet} (hz : z.Made h)
include hz

theorem ranked : z.Ranked := by
  obtain ⟨cs, -, rfl⟩ := hz
  exact ranked_ofChanges cs

theorem scoresGiven_of_score? {m : Bytes} {s : Double} (hs : z.score? m = some s) :
    ∃ before, scoresGiven m h = before ++ [s] := by
  obtain ⟨cs, ⟨earlier, rfl⟩, rfl⟩ := hz
  obtain ⟨before, hgiven⟩ := SortedSet.scoresGiven_of_score? hs
  exact ⟨_, by rw [scoresGiven_append, hgiven, ← List.append_assoc]⟩

theorem scoresGiven_of_mem {m : Bytes} {x : Double} (hx : (m, x) ∈ z.toList) :
    ∃ before rest, scoresGiven m h = before ++ x :: rest ∧ ∀ y ∈ rest, y.order = x.order := by
  have hplace := (hz.ranked.mem_toList m x).mp hx
  obtain ⟨cs, ⟨earlier, rfl⟩, rfl⟩ := hz
  obtain ⟨before, rest, hgiven, hrest⟩ := scoresGiven_of_place hplace
  have hgiven : scoresGiven m cs = before ++ x :: rest := hgiven
  exact ⟨_, rest, by rw [scoresGiven_append, hgiven, ← List.append_assoc], hrest⟩

end Made

structure Numeric (z : SortedSet) : Prop where
  scores : ∀ m s, z.score? m = some s → s.isNaN = false
  listed : ∀ m x, (m, x) ∈ z.toList → x.isNaN = false

theorem Made.numeric {h : List Change} {z : SortedSet} (hz : z.Made h) (hnumbers : Numbers h) :
    z.Numeric := by
  have hscores : ∀ m s, z.score? m = some s → s.isNaN = false := fun m s hs => by
    obtain ⟨before, hgiven⟩ := hz.scoresGiven_of_score? hs
    exact hnumbers m s (mem_scoresGiven.mp (by simp [hgiven]))
  refine ⟨hscores, fun m x hx => ?_⟩
  obtain ⟨s, hs, horder⟩ := hz.ranked.score?_of_mem hx
  rw [← Double.isNaN_eq_of_order_eq horder]
  exact hscores m s hs

end SortedSet

namespace Double

def negInfinity : Double := ofMagnitude true infinite

def infinity : Double := ofMagnitude false infinite

theorem atMost_infinities {x : Double} (hx : x.isNaN = false) :
    negInfinity.AtMost x ∧ x.AtMost infinity := by
  have hbound : x.magnitude ≤ 0x7ff0000000000000 := Nat.le_of_not_lt (of_decide_eq_false hx)
  have hlow : negInfinity.isNaN = false ∧ negInfinity.order = -0x7ff0000000000000 := by decide
  have hhigh : infinity.isNaN = false ∧ infinity.order = 0x7ff0000000000000 := by decide
  have horder : -0x7ff0000000000000 ≤ x.order ∧ x.order ≤ 0x7ff0000000000000 := by
    rw [order, hx]
    cases x.negative <;> simp <;> omega
  rw [← le_iff, ← le_iff, le, le, hx, hlow.1, hlow.2, hhigh.1, hhigh.2]
  simp [horder]

end Double

namespace SortedSet

theorem rangeByScore_whole {z : SortedSet} (hz : z.Ranked) (hnumeric : z.Numeric) :
    z.rangeByScore .negInfinity .infinity = z.toList := by
  rw [hz.rangeByScore_eq_filter, List.filter_eq_self]
  intro p hp
  exact decide_eq_true (Double.atMost_infinities (hnumeric.listed p.1 p.2 hp))

end SortedSet

theorem Slot.zset_of_look {s : Slot} {z : SortedSet} (h : Shape.zset.look .empty id s = .ok z) :
    s.zset = z := by
  cases s with
  | none => exact Except.ok.inj h
  | some e =>
    cases ho : Shape.zset.open? e.value with
    | none => simp [Shape.look, ho] at h
    | some z' => simpa [Shape.look, ho, zset] using h

namespace SortedSet

theorem mem_of_mem_range {z : SortedSet} {start stop : Int64} {descending : Bool} {p : Bytes × Double}
    (h : p ∈ z.range start stop descending) : p ∈ z.toList := by
  have hmem := IndexRange.mem_of_mem_slice h
  cases descending with
  | false => exact hmem
  | true => exact List.mem_reverse.mp hmem

theorem mem_of_mem_rangeByScore {z : SortedSet} {low high : Double} {p : Bytes × Double}
    (h : p ∈ z.rangeByScore low high) : p ∈ z.toList := by
  obtain ⟨q, hq, rfl⟩ := List.mem_map.mp h
  have hmem := (List.dropWhile_sublist _).mem ((List.takeWhile_sublist _).mem hq)
  exact List.mem_map.mpr ⟨q, hmem, rfl⟩

end SortedSet

/-- The commands that list members under a key with their scores. -/
inductive KeyCommand.ListsScores (k : Key) : KeyCommand → Prop
  | zrange (start stop : Int64) (descending : Bool) : ListsScores k (.zrange k start stop true descending)
  | zrangeByScore (low high : Double) : ListsScores k (.zrangeByScore k low high true)

namespace Engine
open Executed

theorem made_of_zsetAt {e : Engine Q} {h : Key → List Change} (he : e.keyspace.MadeBy h) {k : Key}
    {z : SortedSet} (hz : e.zsetAt k = .ok z) : z.Made (h k) :=
  Slot.zset_of_look hz ▸ he.live k

theorem execute_zscore_iff (e : Engine Q) (k : Key) (m : Bytes) (nanos : Nat) (s : Double) :
    (e.execute (.onKeys (.zscore k m)) nanos).1 = .ok (.double s) ↔
      ∃ z, e.zsetAt k = .ok z ∧ z.score? m = some s := by
  have hlook := (e.execute_onKeys (.zscore k m) nanos).1.trans (Shape.zset.look_eq_map (by rfl) _)
  rw [hlook]
  change Except.map _ (e.zsetAt k) = _ ↔ _
  cases e.zsetAt k with
  | error err => simp [Except.map]
  | ok z => cases hs : z.score? m <;> simp [Except.map, hs]

theorem execute_zrangeByScore (e : Engine Q) (k : Key) (low high : Double) (nanos : Nat) :
    (e.execute (.onKeys (.zrangeByScore k low high true)) nanos).1 =
      (e.zsetAt k).map fun z => .scored (z.rangeByScore low high) true := by
  refine (e.execute_onKeys _ nanos).1.trans (Shape.zset.look_eq_map ?_ _)
  exact congrArg (Reply.scored · true) (SortedSet.rangeByScore_empty low high)

theorem mem_of_listsScores (e : Engine Q) {k : Key} {c : KeyCommand} (hc : c.ListsScores k) {nanos : Nat}
    {r : Reply} (hr : (e.execute (.onKeys c) nanos).1 = .ok r) :
    ∃ z rows, e.zsetAt k = .ok z ∧ r = .scored rows true ∧ ∀ p ∈ rows, p ∈ z.toList := by
  cases hz : e.zsetAt k with
  | error err =>
    cases hc with
    | zrange => simp [execute_zrange, hz, Except.map] at hr
    | zrangeByScore => simp [execute_zrangeByScore, hz, Except.map] at hr
  | ok z =>
    cases hc with
    | zrange start stop descending =>
      rw [execute_zrange, hz] at hr
      cases hr
      exact ⟨z, _, rfl, rfl, fun _ => SortedSet.mem_of_mem_range⟩
    | zrangeByScore low high =>
      rw [execute_zrangeByScore, hz] at hr
      cases hr
      exact ⟨z, _, rfl, rfl, fun _ => SortedSet.mem_of_mem_rangeByScore⟩

theorem made_run (config : Config) (base : Base Q) {evs : List Event}
    (hevs : ∀ ev ∈ evs, ev.bringsNaN = false) :
    ((new config base).run evs).keyspace.MadeBy
      (history (ofAnswers ((new config base).transcript evs))) := by
  refine madeBy_run config base evs fun step hstep => ?_
  have hnone := bringsNaN_stepwise hevs step hstep
  cases step with
  | direct c => exact hnone
  | _ => rfl

def wordsOn (verb : String) (k : Key) (rest : List String) : List Bytes :=
  Bytes.ofString verb :: k :: rest.map Bytes.ofString

/-- No NaN enters. Whatever a run does whose commands are made by words, or give no NaN themselves, all scores
that are held are numbers. So the members with scores from minus infinity to infinity are all members, listed
once each by their scores, and by their bytes where these are equal. -/
theorem only_numbers_held (config : Config) (base : Base Q) (evs : List Event)
    (hevs : ∀ ev ∈ evs, ev.bringsNaN = false) :
    let e := (new config base).run evs
    let byScore (k : Key) := wordsOn "ZRANGEBYSCORE" k ["-inf", "+inf", "WITHSCORES"]
    let byRank (k : Key) := wordsOn "ZRANGE" k ["0", "-1", "WITHSCORES"]
    (∀ k entry z, e.keyspace.slot k = some entry → entry.value = .zset z → z.Numeric) ∧
    ∀ k nanos nanos', (e.call (byScore k) nanos).1 = (e.call (byRank k) nanos').1 ∧
      ∀ r, (e.call (byRank k) nanos').1 = .ok r → ∃ rows, r = .scored rows true ∧
        (∀ p ∈ rows, p.2.isNaN = false) ∧
        rows.Pairwise fun a b => a.2.value < b.2.value ∨ a.2.value = b.2.value ∧ a.1 < b.1 := by
  intro e byScore byRank
  have hmade := made_run config base hevs
  have hnumbers := numbers_history config base evs hevs
  refine ⟨fun k entry z hslot hvalue => ?_, fun k nanos nanos' => ?_⟩
  · have hz : Slot.zset (some entry) = z := by simp [Slot.zset, hvalue, Shape.zset]
    rw [← hz, ← hslot]
    exact (hmade k).numeric (hnumbers k)
  · have hscore : (e.call (byScore k) nanos).1 =
        (e.zsetAt k).map fun z => .scored (z.rangeByScore .negInfinity .infinity) true :=
      e.execute_zrangeByScore k .negInfinity .infinity nanos
    have hrank : (e.call (byRank k) nanos').1 = (e.zsetAt k).map fun z => .scored (z.range 0 (-1) false) true :=
      e.execute_zrange k 0 (-1) true false nanos'
    rw [hscore, hrank]
    cases hz : e.zsetAt k with
    | error err => exact ⟨rfl, fun r hr => by cases hr⟩
    | ok z =>
      have hzmade := made_of_zsetAt hmade hz
      have hnumeric := hzmade.numeric (hnumbers k)
      have hwhole : z.range 0 (-1) false = z.toList := hzmade.ranked.range_whole false
      refine ⟨?_, fun r hr => ⟨z.toList, ?_, fun p hp => hnumeric.listed p.1 p.2 hp, ?_⟩⟩
      · simp only [Except.map, SortedSet.rangeByScore_whole hzmade.ranked hnumeric, hwhole]
      · rw [← hwhole]
        exact (Except.ok.inj hr).symm
      · refine hzmade.ranked.ascending.imp_of_mem ?_
        intro a b ha hb hlt
        have hanumber := hnumeric.listed a.1 a.2 ha
        have hbnumber := hnumeric.listed b.1 b.2 hb
        rwa [Double.order_lt_iff hanumber hbnumber, Double.order_eq_iff hanumber hbnumber] at hlt

/-- The infinities as scores, an increment that comes to no number, and a rename. -/
theorem only_numbers_held_of_infinities :
    let evs : List Event := [
      .call (wordsOn "ZADD" [97] ["inf", "p", "-inf", "q", "1", "s", "1", "r"]) 0,
      .call (wordsOn "ZINCRBY" [97] ["-inf", "p"]) 0,
      .call (wordsOn "ZADD" [97] ["nan", "t"]) 0,
      .call (wordsOn "RENAME" [97] ["b"]) 0]
    let e := (new .default .standard).run evs
    (∀ ev ∈ evs, ev.bringsNaN = false) ∧
      (e.call (wordsOn "ZRANGEBYSCORE" [98] ["-inf", "+inf", "WITHSCORES"]) 0).1 =
        (e.call (wordsOn "ZRANGE" [98] ["0", "-1", "WITHSCORES"]) 0).1 ∧
      (Slot.zset (e.keyspace.slot [98])).toList = [([113], .negInfinity), ([114], ⟨0x3ff0000000000000⟩),
        ([115], ⟨0x3ff0000000000000⟩), ([112], .infinity)] := by
  intro evs e
  have hevs : ∀ ev ∈ evs, ev.bringsNaN = false := by decide
  exact ⟨hevs, ((only_numbers_held .default .standard evs hevs).2 [98] 0 0).1, by decide +kernel⟩

/-- Scores are told. After a run whose commands are made by words, or give no NaN themselves, a member has the
score that it was given last, under whichever key it was kept then, and is listed. It is listed with a score
that it was given, and since then it was given scores in the same place only: that is the score it has, or both
are zeros and differ in the sign. -/
theorem scores_told (config : Config) (base : Base Q) (evs : List Event)
    (hevs : ∀ ev ∈ evs, ev.bringsNaN = false) (k : Key) (m : Bytes) (nanos nanos' : Nat) :
    let e := (new config base).run evs
    let given := scoresGiven m (history (ofAnswers ((new config base).transcript evs)) k)
    (∀ s, (e.execute (.onKeys (.zscore k m)) nanos).1 = .ok (.double s) →
      given.getLast? = some s ∧ ∃ rows x, (m, x) ∈ rows ∧
        (e.execute (.onKeys (.zrange k 0 (-1) true false)) nanos').1 = .ok (.scored rows true)) ∧
    ∀ (c : KeyCommand) (r : Reply), c.ListsScores k → (e.execute (.onKeys c) nanos').1 = .ok r →
      ∃ rows, r = .scored rows true ∧ ∀ x, (m, x) ∈ rows →
        (∃ before since, given = before ++ x :: since ∧ ∀ y ∈ since, y.order = x.order) ∧
        ∃ s, (e.execute (.onKeys (.zscore k m)) nanos).1 = .ok (.double s) ∧
          (x = s ∨ x.magnitude = 0 ∧ s.magnitude = 0 ∧ x.negative = !s.negative) := by
  intro e given
  have hmade := made_run config base hevs
  have hnumbers := numbers_history config base evs hevs k
  refine ⟨fun s hs => ?_, fun c r hc hr => ?_⟩
  · obtain ⟨z, hz, hscore⟩ := (e.execute_zscore_iff k m nanos s).mp hs
    have hzmade := made_of_zsetAt hmade hz
    obtain ⟨before, hgiven⟩ : ∃ before, given = before ++ [s] := hzmade.scoresGiven_of_score? hscore
    obtain ⟨x, hx, -⟩ := hzmade.ranked.mem_of_score? hscore
    have hwhole : z.range 0 (-1) false = z.toList := hzmade.ranked.range_whole false
    refine ⟨by rw [hgiven, List.getLast?_concat], z.toList, x, hx, ?_⟩
    rw [execute_zrange, hz, ← hwhole]
    rfl
  · obtain ⟨z, rows, hz, rfl, hrows⟩ := e.mem_of_listsScores hc hr
    have hzmade := made_of_zsetAt hmade hz
    refine ⟨rows, rfl, fun x hx => ⟨hzmade.scoresGiven_of_mem (hrows _ hx), ?_⟩⟩
    obtain ⟨s, hs, horder⟩ := hzmade.ranked.score?_of_mem (hrows _ hx)
    have hnumber := (hzmade.numeric hnumbers).listed m x (hrows _ hx)
    exact ⟨s, (e.execute_zscore_iff k m nanos s).mpr ⟨z, hz, hs⟩,
      Double.eq_or_zeros_of_order_eq horder.symm hnumber⟩

/-- A score that is replaced twice, the second time after a rename, by an increment. -/
theorem scores_told_of_rename :
    let evs : List Event := [
      .call (wordsOn "ZADD" [97] ["-inf", "m", "0", "m"]) 0,
      .call (wordsOn "RENAME" [97] ["b"]) 0,
      .call (wordsOn "ZINCRBY" [98] ["inf", "m"]) 0]
    let e := (new .default .standard).run evs
    let given := scoresGiven [109] (history (ofAnswers ((new .default .standard).transcript evs)) [98])
    let list : KeyCommand := .zrangeByScore [98] .zero .infinity true
    (∀ ev ∈ evs, ev.bringsNaN = false) ∧
      (e.execute (.onKeys (.zscore [98] [109])) 0).1 = .ok (.double .infinity) ∧
      given.getLast? = some .infinity ∧
      list.ListsScores [98] ∧ (e.execute (.onKeys list) 0).1 = .ok (.scored [([109], .infinity)] true) ∧
      ∃ rows, Reply.scored [([109], .infinity)] true = .scored rows true ∧ ∀ x, ([109], x) ∈ rows →
        ∃ before since, given = before ++ x :: since ∧ ∀ y ∈ since, y.order = x.order := by
  intro evs e given list
  have hevs : ∀ ev ∈ evs, ev.bringsNaN = false := by decide
  have hscore : (e.execute (.onKeys (.zscore [98] [109])) 0).1 = .ok (.double .infinity) := rfl
  have hlist : (e.execute (.onKeys list) 0).1 = .ok (.scored [([109], .infinity)] true) := rfl
  obtain ⟨htold, hlisted⟩ := scores_told .default .standard evs hevs [98] [109] 0 0
  obtain ⟨rows, hrows, hall⟩ := hlisted list _ (.zrangeByScore _ _) hlist
  exact ⟨hevs, hscore, (htold _ hscore).1, .zrangeByScore _ _, hlist, rows, hrows, fun x hx => (hall x hx).1⟩

/-- A zero that takes the place of the other zero: the member has the one and is listed with the other. -/
theorem zeros_told_apart :
    let evs : List Event := [
      .call (wordsOn "ZADD" [122] ["0", "m"]) 0,
      .call (wordsOn "ZADD" [122] ["-0", "m"]) 0]
    let e := (new .default .standard).run evs
    let negZero : Double := .ofMagnitude true 0
    (e.call (wordsOn "ZSCORE" [122] ["m"]) 0).1 = .ok (.double negZero) ∧
      (e.call (wordsOn "ZRANGE" [122] ["0", "-1", "WITHSCORES"]) 0).1 =
        .ok (.scored [([109], .zero)] true) ∧
      negZero ≠ .zero ∧ negZero.order = Double.zero.order := by
  intro evs e negZero
  exact ⟨rfl, rfl, by decide, by decide⟩

end Engine
end KeyStore
