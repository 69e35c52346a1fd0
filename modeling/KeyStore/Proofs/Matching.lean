import Mathlib.Data.List.Forall2
import Mathlib.Logic.Relation
import KeyStore.Glob

/-! Matching. A pattern covers a subject that can be cut into pieces, one for each token, so that each
token takes its piece. A search keeps the last star only: whatever an earlier star could still win by
covering more, the last one wins as well. So a search ends, and its verdict is whether the pattern
covers the subject. -/
namespace KeyStore

def ClassItem.Has (b : UInt8) : ClassItem → Prop
  | byte c => b = c
  | range low high => low ≤ b ∧ b ≤ high

theorem ClassItem.holds_iff (b : UInt8) (i : ClassItem) : i.holds b = true ↔ i.Has b := by
  cases i with
  | byte c => exact beq_iff_eq.trans eq_comm
  | range low high => simp [holds, Has]

/-- The pieces of a subject that a token takes. -/
inductive Token.Takes : Token → Bytes → Prop
  | literal (b : UInt8) : Takes (.literal b) [b]
  | anyByte (b : UInt8) : Takes .anyByte [b]
  | star (piece : Bytes) : Takes .star piece
  | oneOf {items : List ClassItem} {b : UInt8} : (∃ i ∈ items, i.Has b) → Takes (.oneOf false items) [b]
  | noneOf {items : List ClassItem} {b : UInt8} : (∀ i ∈ items, ¬ i.Has b) → Takes (.oneOf true items) [b]

theorem Token.takes_iff {t : Token} (ht : t ≠ .star) (piece : Bytes) :
    t.Takes piece ↔ ∃ b, piece = [b] ∧ t.accepts b = true := by
  have hany (items : List ClassItem) (b : UInt8) :
      items.any (·.holds b) = true ↔ ∃ i ∈ items, i.Has b := by
    simp only [List.any_eq_true, ClassItem.holds_iff]
  constructor
  · rintro (b | b | _ | hi | hi)
    · exact ⟨b, rfl, by simp [accepts]⟩
    · exact ⟨b, rfl, rfl⟩
    · exact absurd rfl ht
    · exact ⟨_, rfl, by simpa [accepts] using (hany _ _).mpr hi⟩
    · refine ⟨_, rfl, ?_⟩
      have hnone := mt (hany _ _).mp fun ⟨i, hmem, hhas⟩ => hi i hmem hhas
      simpa [accepts] using hnone
  · rintro ⟨b, rfl, haccepts⟩
    cases t with
    | literal c =>
      rw [eq_of_beq haccepts]
      exact .literal b
    | anyByte => exact .anyByte b
    | star => exact absurd rfl ht
    | oneOf negated items =>
      cases negated with
      | false => exact .oneOf ((hany items b).mp (by simpa [accepts] using haccepts))
      | true =>
        refine .noneOf fun i hmem hhas => ?_
        have hhit := (hany items b).mpr ⟨i, hmem, hhas⟩
        simp [accepts, hhit] at haccepts

/-- The subject can be cut into pieces that the tokens take one after the other. -/
def Covers (tokens : List Token) (subject : Bytes) : Prop :=
  ∃ pieces, List.Forall₂ Token.Takes tokens pieces ∧ subject = pieces.flatten

namespace Covers

theorem nil_iff (s : Bytes) : Covers [] s ↔ s = [] := by
  constructor
  · rintro ⟨_, _ | _, rfl⟩
    rfl
  · rintro rfl
    exact ⟨[], .nil, rfl⟩

theorem cons_iff (t : Token) (ts : List Token) (s : Bytes) :
    Covers (t :: ts) s ↔ ∃ piece rest, s = piece ++ rest ∧ t.Takes piece ∧ Covers ts rest := by
  constructor
  · rintro ⟨_, _ | ⟨htakes, hrest⟩, rfl⟩
    exact ⟨_, _, rfl, htakes, _, hrest, rfl⟩
  · rintro ⟨piece, _, rfl, htakes, pieces, hrest, rfl⟩
    exact ⟨piece :: pieces, .cons htakes hrest, rfl⟩

theorem cons_cons_iff {t : Token} (ht : t ≠ .star) (ts : List Token) (b : UInt8) (s : Bytes) :
    Covers (t :: ts) (b :: s) ↔ t.accepts b = true ∧ Covers ts s := by
  rw [cons_iff]
  constructor
  · rintro ⟨piece, rest, heq, htakes, hrest⟩
    obtain ⟨c, rfl, haccepts⟩ := (Token.takes_iff ht piece).mp htakes
    obtain ⟨rfl, rfl⟩ := List.cons.inj heq
    exact ⟨haccepts, hrest⟩
  · rintro ⟨haccepts, hrest⟩
    exact ⟨[b], s, rfl, (Token.takes_iff ht _).mpr ⟨b, rfl, haccepts⟩, hrest⟩

/-- A star takes as much as leaves the rest to the other tokens. -/
theorem star_iff (ts : List Token) (s : Bytes) :
    Covers (.star :: ts) s ↔ ∃ n, n ≤ s.length ∧ Covers ts (s.drop n) := by
  rw [cons_iff]
  constructor
  · rintro ⟨piece, rest, rfl, -, hrest⟩
    exact ⟨piece.length, by simp, by simpa using hrest⟩
  · rintro ⟨n, -, hrest⟩
    exact ⟨s.take n, s.drop n, (List.take_append_drop n s).symm, .star _, hrest⟩

theorem of_append {ts us : List Token} {s : Bytes} (hts : .star ∉ ts) (h : Covers (ts ++ us) s) :
    ts.length ≤ s.length ∧ Covers us (s.drop ts.length) := by
  induction ts generalizing s with
  | nil => exact ⟨Nat.zero_le _, h⟩
  | cons t ts ih =>
    obtain ⟨ht, hts⟩ := not_or.mp (mt List.mem_cons.mpr hts)
    obtain ⟨piece, rest, rfl, htakes, hrest⟩ := (cons_iff ..).mp h
    obtain ⟨b, rfl, -⟩ := (Token.takes_iff (Ne.symm ht) piece).mp htakes
    obtain ⟨hlength, hcovers⟩ := ih hts hrest
    exact ⟨Nat.succ_le_succ hlength, hcovers⟩

theorem nil_right_iff (ts : List Token) : Covers ts [] ↔ ts.all (· == .star) = true := by
  induction ts with
  | nil => simp [nil_iff]
  | cons t ts ih =>
    by_cases ht : t = .star
    · subst ht
      simp [star_iff, ih]
    · rw [cons_iff]
      refine iff_of_false ?_ (by simp [ht])
      rintro ⟨piece, rest, heq, htakes, -⟩
      obtain ⟨b, rfl, -⟩ := (Token.takes_iff ht piece).mp htakes
      cases heq

end Covers

namespace Glob
namespace Search
variable {tokens : Array Token} {subject : Array UInt8} {s s' : Search}

/-- Since it met its last star, the search has taken one byte for each token, and the star covers the
rest. -/
def Trails (tokens : Array Token) (s : Search) : Prop :=
  ∀ place covered, s.star = some (place, covered) → ∃ passed : List Token,
    tokens.toList.drop (place + 1) = passed ++ tokens.toList.drop s.token ∧
      .star ∉ passed ∧ s.byte = covered + passed.length

/-- The subject can be covered from here on, or by the last star covering more than it does. -/
def Hopeful (tokens : Array Token) (subject : Array UInt8) (s : Search) : Prop :=
  Covers (tokens.toList.drop s.token) (subject.toList.drop s.byte) ∨
    ∃ place covered, s.star = some (place, covered) ∧ ∃ n, covered < n ∧ n ≤ subject.size ∧
      Covers (tokens.toList.drop (place + 1)) (subject.toList.drop n)

theorem drop_eq_cons {α : Type} {xs : Array α} {i : Nat} {x : α} (h : xs[i]? = some x) :
    xs.toList.drop i = x :: xs.toList.drop (i + 1) := by
  obtain ⟨hi, rfl⟩ := Array.getElem?_eq_some_iff.mp h
  exact List.drop_eq_getElem_cons hi

theorem Trails.turn (hs : s.Trails tokens) (h : s.turn tokens subject = .inl s') : s'.Trails tokens := by
  obtain ⟨b, -, ⟨-, rfl⟩ | ⟨t, ht, hne, -, rfl⟩ | ⟨-, place, covered, -, rfl⟩⟩ := turn_eq_inl h
  · rintro _ _ ⟨⟩
    exact ⟨[], rfl, by simp, rfl⟩
  · intro place covered hstar
    obtain ⟨passed, hdrop, hpassed, hbyte⟩ := hs place covered hstar
    refine ⟨passed ++ [t], ?_, by simp [hpassed, hne.symm], ?_⟩
    · rw [hdrop, drop_eq_cons ht, List.append_assoc]
      rfl
    · simp [hbyte, Nat.add_assoc]
  · rintro _ _ ⟨⟩
    exact ⟨[], rfl, by simp, rfl⟩

/-- What is stuck has only the last star to hope for. -/
theorem Stuck.not_covers {b : UInt8} (hs : s.Stuck tokens b) (hb : subject[s.byte]? = some b) :
    ¬ Covers (tokens.toList.drop s.token) (subject.toList.drop s.byte) := by
  intro h
  rw [drop_eq_cons hb] at h
  cases ht : tokens[s.token]? with
  | none =>
    have hsize : tokens.toList.length ≤ s.token := by simpa using ht
    rw [List.drop_eq_nil_of_le hsize, Covers.nil_iff] at h
    cases h
  | some t =>
    obtain ⟨hne, hrefuses⟩ := hs t ht
    rw [drop_eq_cons ht, Covers.cons_cons_iff hne, hrefuses] at h
    cases h.1

/-- What an earlier star can win at a new star, the new star wins: the tokens between the two take no
fewer bytes than before, and the new star covers those in between. -/
theorem Trails.covers (hs : s.Trails tokens) (ht : tokens[s.token]? = some .star) {place covered n : Nat}
    (hstar : s.star = some (place, covered)) (hn : covered < n) (hsize : n ≤ subject.size)
    (h : Covers (tokens.toList.drop (place + 1)) (subject.toList.drop n)) :
    Covers (tokens.toList.drop s.token) (subject.toList.drop s.byte) := by
  obtain ⟨passed, hdrop, hpassed, hbyte⟩ := hs place covered hstar
  rw [hdrop, drop_eq_cons ht] at h
  obtain ⟨hlength, hcovers⟩ := Covers.of_append hpassed h
  obtain ⟨m, hm, hrest⟩ := (Covers.star_iff ..).mp hcovers
  rw [drop_eq_cons ht, Covers.star_iff]
  refine ⟨n - covered + m, ?_, ?_⟩
  · simp only [List.length_drop, Array.length_toList] at hlength hm ⊢
    omega
  · have hplace : n + (passed.length + m) = s.byte + (n - covered + m) := by omega
    rw [List.drop_drop, List.drop_drop, hplace] at hrest
    rw [List.drop_drop]
    exact hrest

/-- A turn neither gives hope nor takes it. -/
theorem hopeful_turn (hs : s.Trails tokens) (h : s.turn tokens subject = .inl s') :
    s'.Hopeful tokens subject ↔ s.Hopeful tokens subject := by
  obtain ⟨b, hb, ⟨ht, rfl⟩ | ⟨t, ht, hne, haccepts, rfl⟩ | ⟨hstuck, place, covered, hstar, rfl⟩⟩ :=
    turn_eq_inl h
  · have hbyte : s.byte < subject.size := (Array.getElem?_eq_some_iff.mp hb).1
    -- before the turn there is hope just if the new star can win
    have hbefore : s.Hopeful tokens subject ↔
        Covers (tokens.toList.drop s.token) (subject.toList.drop s.byte) := by
      refine or_iff_left_of_imp ?_
      rintro ⟨place, covered, hstar, n, hn, hsize, hcovers⟩
      exact hs.covers ht hstar hn hsize hcovers
    rw [hbefore, drop_eq_cons ht, Covers.star_iff]
    constructor
    · rintro (hcovers | ⟨_, _, ⟨⟩, n, hn, hsize, hcovers⟩)
      · exact ⟨0, Nat.zero_le _, hcovers⟩
      · refine ⟨n - s.byte, ?_, ?_⟩
        · simp only [List.length_drop, Array.length_toList]
          omega
        · rw [List.drop_drop, Nat.add_sub_cancel' (Nat.le_of_lt hn)]
          exact hcovers
    · rintro ⟨n, hn, hcovers⟩
      rw [List.drop_drop] at hcovers
      rw [List.length_drop, Array.length_toList] at hn
      rcases Nat.eq_zero_or_pos n with rfl | hpos
      · exact .inl hcovers
      · exact .inr ⟨_, _, rfl, s.byte + n, by omega, by omega, hcovers⟩
  · refine or_congr ?_ Iff.rfl
    rw [drop_eq_cons ht, drop_eq_cons hb, Covers.cons_cons_iff hne, haccepts]
    simp
  · have hbyte : s.byte < subject.size := (Array.getElem?_eq_some_iff.mp hb).1
    have hcovered : covered ≤ s.byte := by
      obtain ⟨passed, -, -, hpassed⟩ := hs place covered hstar
      omega
    rw [Hopeful, Hopeful, or_iff_right (hstuck.not_covers hb)]
    constructor
    · rintro (hcovers | ⟨_, _, ⟨⟩, n, hn, hsize, hcovers⟩)
      · exact ⟨place, covered, hstar, covered + 1, Nat.lt_succ_self _, by omega, hcovers⟩
      · exact ⟨place, covered, hstar, n, by omega, hsize, hcovers⟩
    · rintro ⟨_, _, hstar', n, hn, hsize, hcovers⟩
      cases hstar.symm.trans hstar'
      rcases Nat.eq_or_lt_of_le hn with rfl | hmore
      · exact .inl hcovers
      · exact .inr ⟨_, _, rfl, n, hmore, hsize, hcovers⟩

/-- At the end of the subject the last star cannot cover more: the tokens after it would go short. -/
theorem Trails.exhausted (hs : s.Trails tokens) (hend : subject.size ≤ s.byte) {place covered n : Nat}
    (hstar : s.star = some (place, covered)) (hn : covered < n) (hsize : n ≤ subject.size) :
    ¬ Covers (tokens.toList.drop (place + 1)) (subject.toList.drop n) := by
  intro h
  obtain ⟨passed, hdrop, hpassed, hbyte⟩ := hs place covered hstar
  rw [hdrop] at h
  have hlength := (Covers.of_append hpassed h).1
  simp only [List.length_drop, Array.length_toList] at hlength
  omega

theorem hopeful_of_verdict (hs : s.Trails tokens) {verdict : Bool}
    (h : s.turn tokens subject = .inr verdict) : verdict = true ↔ s.Hopeful tokens subject := by
  rcases turn_eq_inr h with ⟨hend, rfl⟩ | ⟨b, hb, hstuck, hstar, rfl⟩
  · have hnothing : subject.toList.drop s.byte = [] := List.drop_eq_nil_of_le hend
    rw [← Covers.nil_right_iff, Hopeful, hnothing]
    refine (or_iff_left ?_).symm
    rintro ⟨place, covered, hstar, n, hn, hsize, hcovers⟩
    exact hs.exhausted hend hstar hn hsize hcovers
  · refine iff_of_false Bool.false_ne_true ?_
    rintro (hcovers | ⟨_, _, hsome, -⟩)
    · exact hstuck.not_covers hb hcovers
    · cases hstar.symm.trans hsome

theorem run_iff (hanchored : s.Anchored) (hs : s.Trails tokens) :
    s.run tokens subject hanchored = true ↔ s.Hopeful tokens subject := by
  fun_induction run with
  | case1 s hanchored s' h ih => rw [ih (hs.turn h), hopeful_turn hs h]
  | case2 s hanchored verdict h => exact hopeful_of_verdict hs h

theorem run_ends (hanchored : s.Anchored) : ∃ last,
    Relation.ReflTransGen (fun s s' => s.turn tokens subject = .inl s') s last ∧
      last.turn tokens subject = .inr (s.run tokens subject hanchored) := by
  fun_induction run with
  | case1 s hanchored s' h ih =>
    obtain ⟨last, hleads, hverdict⟩ := ih
    exact ⟨last, hleads.head h, hverdict⟩
  | case2 s hanchored verdict h => exact ⟨s, .refl, h⟩

theorem Anchored.token_le_turn (hs : s.Anchored) (htoken : s.token ≤ tokens.size)
    (h : s.turn tokens subject = .inl s') : s'.token ≤ tokens.size := by
  obtain ⟨b, -, ⟨ht, rfl⟩ | ⟨t, ht, -, -, rfl⟩ | ⟨-, place, covered, hstar, rfl⟩⟩ := turn_eq_inl h
  · exact (Array.getElem?_eq_some_iff.mp ht).1
  · exact (Array.getElem?_eq_some_iff.mp ht).1
  · exact Nat.le_trans (hs.star_lt _ hstar) htoken

end Search

/-- The places that the search of a pattern in a subject comes to. -/
def Reaches (g : Glob) (subject : Bytes) : Search → Prop :=
  Relation.ReflTransGen (fun s s' => s.turn g.tokens.toArray subject.toArray = .inl s') .start

theorem Reaches.token_le {g : Glob} {subject : Bytes} {s : Search} (h : g.Reaches subject s) :
    s.Anchored ∧ s.token ≤ g.tokens.length := by
  induction h with
  | refl => exact ⟨Search.anchored_start, Nat.zero_le _⟩
  | tail _ hturn ih => exact ⟨ih.1.turn hturn, ih.1.token_le_turn ih.2 hturn⟩

theorem isMatch_iff (g : Glob) (subject : Bytes) :
    g.isMatch subject = true ↔ Covers g.tokens subject := by
  refine (Search.run_iff Search.anchored_start fun _ _ h => by cases h).trans (or_iff_left ?_)
  rintro ⟨_, _, h, -⟩
  cases h

/-- Covering is decided. The search for it ends with a verdict, which is whether the pattern covers the
subject, and on its way never goes past the last token. -/
theorem covering_decided (g : Glob) (subject : Bytes) :
    (∃ last, g.Reaches subject last ∧
      last.turn g.tokens.toArray subject.toArray = .inr (g.isMatch subject)) ∧
    (g.isMatch subject = true ↔ Covers g.tokens subject) ∧
    ∀ s, g.Reaches subject s → s.token ≤ g.tokens.length :=
  ⟨Search.run_ends _, g.isMatch_iff subject, fun _ h => h.token_le.2⟩

/-- The star has to cover one byte more before the two letters after it are found, and the search ends
past the last token. -/
theorem covering_decided_of_return :
    let g : Glob := ⟨[.star, .literal 97, .literal 98]⟩
    let subject : Bytes := [97, 97, 98]
    Covers g.tokens subject ∧ g.Reaches subject ⟨3, 3, some (0, 1)⟩ ∧ 3 ≤ g.tokens.length := by
  intro g subject
  have hstar : g.Reaches subject ⟨1, 0, some (0, 0)⟩ := .tail .refl rfl
  have hstuck : g.Reaches subject ⟨2, 1, some (0, 0)⟩ := .tail hstar rfl
  have hback : g.Reaches subject ⟨1, 1, some (0, 1)⟩ := .tail hstuck rfl
  have hnext : g.Reaches subject ⟨2, 2, some (0, 1)⟩ := .tail hback rfl
  have hend : g.Reaches subject ⟨3, 3, some (0, 1)⟩ := .tail hnext rfl
  obtain ⟨-, hiff, htoken⟩ := g.covering_decided subject
  exact ⟨hiff.mp (by decide), hend, htoken _ hend⟩

end Glob
end KeyStore
