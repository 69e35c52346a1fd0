import Mathlib.Data.List.Chain
import KeyStore.Proofs.Matching

/-! Written patterns. Every pattern has a text in which a backslash stands before each byte that is to be
taken literally. Compiling this text gives the pattern back. So a pattern can be made that covers one
given subject, or all that begin and end in a given way, whatever bytes these are made of. -/
namespace KeyStore

/-- The text of a member of a class. A closing bracket cannot stand at the end of a range, so a range up
to it is written downwards. -/
def ClassItem.write : ClassItem → Bytes
  | byte c => [92, c]
  | range low high => if high = 93 then [92, 93, 45, low] else [92, low, 45, high]

def Token.write : Token → Bytes
  | literal b => [92, b]
  | anyByte => [63]
  | star => [42]
  | oneOf negated items =>
    91 :: ((if negated then [94] else []) ++ items.flatMap ClassItem.write ++ [93])

/-- A range goes upwards, and is not that of the closing bracket alone. -/
def ClassItem.Writable : ClassItem → Prop
  | byte _ => True
  | range low high => low ≤ high ∧ ¬ (low = 93 ∧ high = 93)

def Token.Writable : Token → Prop
  | oneOf _ items => ∀ i ∈ items, i.Writable
  | _ => True

instance : DecidablePred ClassItem.Writable
  | .byte _ => inferInstanceAs (Decidable True)
  | .range low high => inferInstanceAs (Decidable (low ≤ high ∧ ¬ (low = 93 ∧ high = 93)))

instance : DecidablePred Token.Writable
  | .oneOf _ items => inferInstanceAs (Decidable (∀ i ∈ items, i.Writable))
  | .literal _ | .anyByte | .star => inferInstanceAs (Decidable True)

namespace Glob

def write (g : Glob) : Bytes := g.tokens.flatMap Token.write

/-- The pattern has no two stars side by side, and its classes can be written. -/
structure Writable (g : Glob) : Prop where
  tokens : ∀ t ∈ g.tokens, t.Writable
  stars : g.tokens.IsChain fun t u => ¬ (t = .star ∧ u = .star)

instance (g : Glob) : Decidable g.Writable :=
  decidable_of_iff _ ⟨fun h => ⟨h.1, h.2⟩, fun h => And.intro h.tokens h.stars⟩

theorem classItems_write {i : ClassItem} (hi : i.Writable) {rest : Bytes} (hrest : rest.head? ≠ some 45) :
    classItems (i.write ++ rest) =
      (classItems rest).map fun r => (i :: r.1, r.2 + i.write.length) := by
  cases i with
  | byte c =>
    have hdash : ∀ d more, rest = 45 :: d :: more → False := by
      rintro d more rfl
      exact hrest rfl
    change classItems (92 :: c :: rest) = _
    rw [classItems]
    · rfl
    · exact hdash
  | range low high =>
    obtain ⟨hle, hbrackets⟩ := hi
    by_cases hhigh : high = 93
    · subst hhigh
      have hlow : low ≠ 93 := fun h => hbrackets ⟨h, rfl⟩
      have hnot : ¬ 93 ≤ low := UInt8.not_le.mpr (UInt8.lt_of_le_of_ne hle hlow)
      have hmin : min 93 low = low := if_neg hnot
      have hmax : max 93 low = 93 := if_neg hnot
      simp [ClassItem.write, classItems, hlow, hmin, hmax]
    · have hmin : min low high = low := if_pos hle
      have hmax : max low high = high := if_pos hle
      simp [ClassItem.write, hhigh, classItems, hmin, hmax]

theorem head?_write (i : ClassItem) (rest : Bytes) : (i.write ++ rest).head? = some 92 := by
  cases i with
  | byte c => rfl
  | range low high =>
    rw [ClassItem.write]
    split <;> rfl

theorem head?_writeAll (items : List ClassItem) (rest : Bytes) :
    (items.flatMap ClassItem.write ++ 93 :: rest).head? = some (if items = [] then 93 else 92) := by
  cases items with
  | nil => rfl
  | cons i items =>
    rw [List.flatMap_cons, List.append_assoc, head?_write, if_neg (List.cons_ne_nil i items)]

theorem classItems_writeAll {items : List ClassItem} (h : ∀ i ∈ items, i.Writable) (rest : Bytes) :
    classItems (items.flatMap ClassItem.write ++ 93 :: rest) =
      some (items, (items.flatMap ClassItem.write).length + 1) := by
  induction items with
  | nil => rfl
  | cons i items ih =>
    obtain ⟨hi, hitems⟩ := List.forall_mem_cons.mp h
    have hrest : (items.flatMap ClassItem.write ++ 93 :: rest).head? ≠ some 45 := by
      rw [head?_writeAll]
      split <;> decide
    rw [List.flatMap_cons, List.append_assoc, classItems_write hi hrest, ih hitems, List.length_append]
    simp only [Option.map_some, Option.some.injEq, Prod.mk.injEq, true_and]
    omega

/-- A class is read back from its text, which takes as many bytes as it has after the opening bracket. -/
theorem class?_write (negated : Bool) {items : List ClassItem} (h : ∀ i ∈ items, i.Writable)
    {body : Bytes} (hbody : (Token.oneOf negated items).write = 91 :: body) (rest : Bytes) :
    class? (body ++ rest) = some (.oneOf negated items, body.length) := by
  have hitems := classItems_writeAll h rest
  obtain rfl := (List.cons.inj hbody).2
  cases negated with
  | true => simp [class?, hitems]
  | false =>
    have hcaret : ∀ more, items.flatMap ClassItem.write ++ 93 :: rest = 94 :: more → False := by
      intro more heq
      have hhead := head?_writeAll items rest
      rw [heq] at hhead
      split at hhead <;> simp at hhead
    simp only [Bool.false_eq_true, if_false, List.nil_append, List.append_assoc, List.singleton_append]
    rw [class?, hitems]
    · simp
    · exact hcaret

theorem tokensFrom_length (skipped rest : Bytes) :
    tokensFrom skipped.length (skipped ++ rest) = tokensFrom 0 rest := by
  induction skipped with
  | nil => rfl
  | cons b skipped ih => exact ih

/-- The text of a token compiles to the token, whatever follows; a star takes up the one after it. -/
theorem tokensFrom_write {t : Token} (ht : t.Writable) (rest : Bytes) :
    tokensFrom 0 (t.write ++ rest) =
      if t = .star then consStar (tokensFrom 0 rest) else t :: tokensFrom 0 rest := by
  cases t with
  | literal b => rfl
  | anyByte => rfl
  | star => rfl
  | oneOf negated items =>
    obtain ⟨body, hbody⟩ : ∃ body, (Token.oneOf negated items).write = 91 :: body := ⟨_, rfl⟩
    rw [hbody, List.cons_append, tokensFrom, class?_write negated ht hbody]
    simp only [tokensFrom_length]
    rfl

theorem consStar_of_head? {ts : List Token} (h : ts.head? ≠ some .star) :
    consStar ts = .star :: ts := by
  rw [consStar]
  rintro more rfl
  exact h rfl

theorem ofBytes_write {g : Glob} (h : g.Writable) : ofBytes g.write = g := by
  obtain ⟨ts⟩ := g
  obtain ⟨htokens, hstars⟩ := h
  refine congrArg Glob.mk ?_
  rw [write]
  dsimp only at htokens hstars ⊢
  induction ts with
  | nil => rfl
  | cons t ts ih =>
    obtain ⟨ht, hts⟩ := List.forall_mem_cons.mp htokens
    obtain ⟨hnext, hrest⟩ := List.isChain_cons.mp hstars
    rw [List.flatMap_cons, tokensFrom_write ht, ih hts hrest]
    split
    · rename_i hstar
      rw [hstar]
      exact consStar_of_head? fun hhead => hnext _ hhead ⟨hstar, rfl⟩
    · rfl

/-- The text that stands for some bytes literally. -/
def escape (a : Bytes) : Bytes := a.flatMap fun b => [92, b]

end Glob

theorem Covers.literal_append_iff (a : Bytes) (ts : List Token) (s : Bytes) :
    Covers (a.map .literal ++ ts) s ↔ ∃ rest, s = a ++ rest ∧ Covers ts rest := by
  induction a generalizing s with
  | nil => simp
  | cons b a ih =>
    rw [List.map_cons, List.cons_append, Covers.cons_iff]
    constructor
    · rintro ⟨_, rest, rfl, ⟨⟩, hcovers⟩
      obtain ⟨rest, rfl, hrest⟩ := (ih rest).mp hcovers
      exact ⟨rest, rfl, hrest⟩
    · rintro ⟨rest, rfl, hrest⟩
      exact ⟨[b], a ++ rest, rfl, .literal b, (ih _).mpr ⟨rest, rfl, hrest⟩⟩

theorem Covers.literal_iff (a s : Bytes) : Covers (a.map .literal) s ↔ s = a := by
  have h := Covers.literal_append_iff a [] s
  simpa [Covers.nil_iff] using h

/-- With a star between two texts, what begins with one and ends with the other is covered, unless the two
overlap in it. -/
theorem Covers.literal_star_literal_iff (a b s : Bytes) :
    Covers (a.map .literal ++ .star :: b.map .literal) s ↔
      a <+: s ∧ b <:+ s ∧ a.length + b.length ≤ s.length := by
  rw [Covers.literal_append_iff]
  constructor
  · rintro ⟨_, rfl, hstar⟩
    obtain ⟨piece, rest, rfl, -, hrest⟩ := (Covers.cons_iff ..).mp hstar
    obtain rfl := (Covers.literal_iff ..).mp hrest
    refine ⟨⟨_, rfl⟩, ⟨a ++ piece, by simp⟩, ?_⟩
    simp only [List.length_append]
    omega
  · rintro ⟨⟨rest, rfl⟩, hsuffix, hlength⟩
    refine ⟨rest, rfl, ?_⟩
    have hrest : b <:+ rest := by
      refine List.suffix_of_suffix_length_le hsuffix (List.suffix_append a rest) ?_
      rw [List.length_append] at hlength
      omega
    obtain ⟨piece, rfl⟩ := hrest
    exact (Covers.cons_iff ..).mpr ⟨piece, b, rfl, .star piece, (Covers.literal_iff ..).mpr rfl⟩

namespace Glob

theorem tokensFrom_escape (a rest : Bytes) :
    tokensFrom 0 (escape a ++ rest) = a.map .literal ++ tokensFrom 0 rest := by
  induction a with
  | nil => rfl
  | cons b a ih => exact congrArg (Token.literal b :: ·) ih

theorem ofBytes_escape (a : Bytes) : ofBytes (escape a) = ⟨a.map .literal⟩ := by
  have h := tokensFrom_escape a []
  rw [List.append_nil] at h
  rw [ofBytes, h, tokensFrom, List.append_nil]

theorem ofBytes_escape_star_escape (a b : Bytes) :
    ofBytes (escape a ++ 42 :: escape b) = ⟨a.map .literal ++ .star :: b.map .literal⟩ := by
  have hliteral : (b.map Token.literal).head? ≠ some .star := by cases b <;> simp
  have hstar : tokensFrom 0 (42 :: escape b) = consStar (ofBytes (escape b)).tokens := rfl
  rw [ofBytes, tokensFrom_escape, hstar, ofBytes_escape, consStar_of_head? hliteral]

/-- Compiling undoes writing. In particular the escaped text of some bytes matches these bytes alone, and
with a star between two escaped texts it matches whatever begins with the first, ends with the second and
has room for both. -/
theorem writing_undone :
    (∀ g : Glob, g.Writable → ofBytes g.write = g) ∧
    (∀ a s : Bytes, (ofBytes (escape a)).isMatch s = true ↔ s = a) ∧
    ∀ a b s : Bytes, (ofBytes (escape a ++ 42 :: escape b)).isMatch s = true ↔
      a <+: s ∧ b <:+ s ∧ a.length + b.length ≤ s.length := by
  refine ⟨fun g => ofBytes_write, fun a s => ?_, fun a b s => ?_⟩
  · rw [isMatch_iff, ofBytes_escape]
    exact Covers.literal_iff a s
  · rw [isMatch_iff, ofBytes_escape_star_escape]
    exact Covers.literal_star_literal_iff a b s

/-- A pattern in which each byte that means something in patterns is a literal or a member of a class. -/
theorem writing_undone_of_specials :
    let g : Glob := ⟨[.literal 42, .star, .oneOf true [.range 33 93, .byte 94, .range 45 92, .byte 45], .anyByte,
      .oneOf false [], .star, .literal 92]⟩
    g.Writable ∧ ofBytes g.write = g := by
  intro g
  have hg : g.Writable := by decide
  exact ⟨hg, writing_undone.1 g hg⟩

end Glob
end KeyStore
