import KeyStore.Bytes

/-! Glob patterns: `*` stands for any bytes, `?` for one byte, `[...]` for one byte of a class, and
a backslash takes the next byte literally. -/
namespace KeyStore

inductive ClassItem
  | byte (b : UInt8)
  | range (low high : UInt8)
deriving DecidableEq, Repr

def ClassItem.holds (b : UInt8) : ClassItem → Bool
  | byte c => c == b
  | range low high => low ≤ b && b ≤ high

inductive Token
  | literal (b : UInt8)
  | anyByte
  | star
  | oneOf (negated : Bool) (items : List ClassItem)
deriving DecidableEq, Repr

def Token.accepts (b : UInt8) : Token → Bool
  | literal c => c == b
  | anyByte => true
  | star => true
  | oneOf negated items => items.any (·.holds b) != negated

structure Glob where
  tokens : List Token
deriving DecidableEq, Repr

namespace Glob

/-- The members of a class up to its closing bracket, and how many bytes they take with it. A class
that is not closed has none. -/
def classItems : Bytes → Option (List ClassItem × Nat)
  | [] => none
  | 93 :: _ => some ([], 1)
  | 92 :: c :: 45 :: d :: rest =>
    if d = 93 then (classItems (45 :: d :: rest)).map fun r => (.byte c :: r.1, r.2 + 2)
    else (classItems rest).map fun r => (.range (min c d) (max c d) :: r.1, r.2 + 4)
  | 92 :: c :: rest => (classItems rest).map fun r => (.byte c :: r.1, r.2 + 2)
  | c :: 45 :: d :: rest =>
    if d = 93 then (classItems (45 :: d :: rest)).map fun r => (.byte c :: r.1, r.2 + 1)
    else (classItems rest).map fun r => (.range (min c d) (max c d) :: r.1, r.2 + 3)
  | c :: rest => (classItems rest).map fun r => (.byte c :: r.1, r.2 + 1)

def class? : Bytes → Option (Token × Nat)
  | 94 :: rest => (classItems rest).map fun r => (.oneOf true r.1, r.2 + 1)
  | rest => (classItems rest).map fun r => (.oneOf false r.1, r.2)

/-- Puts a star in front; adjacent stars stand for one. -/
def consStar : List Token → List Token
  | .star :: ts => .star :: ts
  | ts => .star :: ts

/-- Compiles what follows `skip` bytes that belong to the token before. An open bracket without
its closing one, and a backslash at the end, are literal. -/
def tokensFrom : Nat → Bytes → List Token
  | _, [] => []
  | skip + 1, _ :: rest => tokensFrom skip rest
  | 0, 42 :: rest => consStar (tokensFrom 0 rest)
  | 0, 63 :: rest => .anyByte :: tokensFrom 0 rest
  | 0, 92 :: c :: rest => .literal c :: tokensFrom 1 (c :: rest)
  | 0, 91 :: rest =>
    match class? rest with
    | some (t, n) => t :: tokensFrom n rest
    | none => .literal 91 :: tokensFrom 0 rest
  | 0, b :: rest => .literal b :: tokensFrom 0 rest

def ofBytes (pattern : Bytes) : Glob := ⟨tokensFrom 0 pattern⟩

def isMatchAll (g : Glob) : Bool := g.tokens == [.star]

/-- Where a search stands: the token and the byte of the subject that come next, and the star that was
met last with the byte up to which it covers the subject. No other star is remembered. -/
structure Search where
  token : Nat
  byte : Nat
  star : Option (Nat × Nat)
deriving DecidableEq, Repr

namespace Search

def start : Search := ⟨0, 0, none⟩

/-- Goes back to the last star, which covers one byte more from then on. Without a star the search
fails. -/
def rewind (s : Search) : Search ⊕ Bool :=
  match s.star with
  | some (place, covered) => .inl ⟨place + 1, covered + 1, some (place, covered + 1)⟩
  | none => .inr false

/-- Where a search stands after its next turn, or its verdict. A star covers nothing at first; any
other token takes the next byte. At the end of the subject only stars may be left. -/
def turn (tokens : Array Token) (subject : Array UInt8) (s : Search) : Search ⊕ Bool :=
  match subject[s.byte]? with
  | none => .inr ((tokens.toList.drop s.token).all (· == .star))
  | some b =>
    match tokens[s.token]? with
    | some .star => .inl ⟨s.token + 1, s.byte, some (s.token, s.byte)⟩
    | some t => if t.accepts b then .inl ⟨s.token + 1, s.byte + 1, s.star⟩ else s.rewind
    | none => s.rewind

def Stuck (tokens : Array Token) (s : Search) (b : UInt8) : Prop :=
  ∀ t, tokens[s.token]? = some t → t ≠ .star ∧ t.accepts b = false

/-- A turn gives a verdict at the end of the subject. Else it meets a star, takes a byte, or is stuck. -/
theorem turn_cases (tokens : Array Token) (subject : Array UInt8) (s : Search) :
    subject.size ≤ s.byte ∧
        s.turn tokens subject = .inr ((tokens.toList.drop s.token).all (· == .star)) ∨
      ∃ b, subject[s.byte]? = some b ∧
        (tokens[s.token]? = some .star ∧
            s.turn tokens subject = .inl ⟨s.token + 1, s.byte, some (s.token, s.byte)⟩ ∨
          (∃ t, tokens[s.token]? = some t ∧ t ≠ .star ∧ t.accepts b = true ∧
            s.turn tokens subject = .inl ⟨s.token + 1, s.byte + 1, s.star⟩) ∨
          s.Stuck tokens b ∧ s.turn tokens subject = s.rewind) := by
  rw [turn]
  cases hb : subject[s.byte]? with
  | none => exact .inl ⟨by simpa using hb, rfl⟩
  | some b =>
    refine .inr ⟨b, rfl, ?_⟩
    dsimp only
    split
    · rename_i ht
      exact .inl ⟨ht, rfl⟩
    · rename_i t hne ht
      cases haccepts : t.accepts b with
      | true => exact .inr (.inl ⟨t, ht, hne, haccepts, rfl⟩)
      | false =>
        refine .inr (.inr ⟨fun u hu => ?_, rfl⟩)
        cases hu.symm.trans ht
        exact ⟨hne, haccepts⟩
    · rename_i ht
      exact .inr (.inr ⟨fun u hu => by simp [ht] at hu, rfl⟩)

theorem turn_eq_inl {tokens : Array Token} {subject : Array UInt8} {s s' : Search}
    (h : s.turn tokens subject = .inl s') :
    ∃ b, subject[s.byte]? = some b ∧
      (tokens[s.token]? = some .star ∧ s' = ⟨s.token + 1, s.byte, some (s.token, s.byte)⟩ ∨
        (∃ t, tokens[s.token]? = some t ∧ t ≠ .star ∧ t.accepts b = true ∧
          s' = ⟨s.token + 1, s.byte + 1, s.star⟩) ∨
        s.Stuck tokens b ∧ ∃ place covered, s.star = some (place, covered) ∧
          s' = ⟨place + 1, covered + 1, some (place, covered + 1)⟩) := by
  rcases s.turn_cases tokens subject with ⟨-, hturn⟩ | ⟨b, hb, hturn⟩
  · cases hturn.symm.trans h
  · refine ⟨b, hb, ?_⟩
    rcases hturn with ⟨ht, hturn⟩ | ⟨t, ht, hne, haccepts, hturn⟩ | ⟨hstuck, hturn⟩
    · exact .inl ⟨ht, (Sum.inl.inj (hturn.symm.trans h)).symm⟩
    · exact .inr (.inl ⟨t, ht, hne, haccepts, (Sum.inl.inj (hturn.symm.trans h)).symm⟩)
    · rw [hturn, rewind] at h
      cases hstar : s.star with
      | none => simp [hstar] at h
      | some p => exact .inr (.inr ⟨hstuck, p.1, p.2, rfl, by simpa [hstar] using h.symm⟩)

/-- A verdict is given at the end of the subject, or when the search is stuck and has met no star. -/
theorem turn_eq_inr {tokens : Array Token} {subject : Array UInt8} {s : Search} {verdict : Bool}
    (h : s.turn tokens subject = .inr verdict) :
    subject.size ≤ s.byte ∧ verdict = (tokens.toList.drop s.token).all (· == .star) ∨
      ∃ b, subject[s.byte]? = some b ∧ s.Stuck tokens b ∧ s.star = none ∧ verdict = false := by
  rcases s.turn_cases tokens subject with
    ⟨hend, hturn⟩ | ⟨b, hb, ⟨-, hturn⟩ | ⟨_, -, -, -, hturn⟩ | ⟨hstuck, hturn⟩⟩
  · exact .inl ⟨hend, (Sum.inr.inj (hturn.symm.trans h)).symm⟩
  · cases hturn.symm.trans h
  · cases hturn.symm.trans h
  · rw [hturn, rewind] at h
    cases hstar : s.star with
    | none => exact .inr ⟨b, hb, hstuck, rfl, by simpa [hstar] using h.symm⟩
    | some p => simp [hstar] at h

/-- The last star lies before the next token, and what it covers before the next byte. -/
structure Anchored (s : Search) : Prop where
  star_lt : ∀ p ∈ s.star, p.1 < s.token
  covered_le : ∀ p ∈ s.star, p.2 ≤ s.byte

theorem anchored_start : start.Anchored := ⟨by simp [start], by simp [start]⟩

theorem Anchored.turn {tokens : Array Token} {subject : Array UInt8} {s s' : Search} (hs : s.Anchored)
    (h : s.turn tokens subject = .inl s') : s'.Anchored := by
  obtain ⟨b, -, ⟨-, rfl⟩ | ⟨t, -, -, -, rfl⟩ | ⟨-, place, covered, -, rfl⟩⟩ := turn_eq_inl h
  · exact ⟨by simp, by simp⟩
  · exact ⟨fun p hp => Nat.lt_succ_of_lt (hs.star_lt p hp), fun p hp => Nat.le_succ_of_le (hs.covered_le p hp)⟩
  · exact ⟨by simp, by simp⟩

/-- How much is left of a search among `n` tokens and `m` bytes: the stars that may still be met, then
the bytes that the last one may still cover, then the tokens that come next. A turn takes one from one
of these, and may give back all of those after it. -/
def left (n m : Nat) (s : Search) : Nat :=
  ((n - s.star.elim 0 (·.1 + 1)) * (m + 1) + (m - s.star.elim 0 (·.2))) * (n + 1) + (n - s.token)

theorem mul_add_lt {a a' b' m : Nat} (ha : a' < a) (hb : b' ≤ m) (b : Nat) :
    a' * (m + 1) + b' < a * (m + 1) + b :=
  calc a' * (m + 1) + b' < (a' + 1) * (m + 1) := by rw [Nat.succ_mul]; omega
    _ ≤ a * (m + 1) := Nat.mul_le_mul_right _ ha
    _ ≤ a * (m + 1) + b := Nat.le_add_right ..

theorem Anchored.left_turn {tokens : Array Token} {subject : Array UInt8} {s s' : Search}
    (hs : s.Anchored) (h : s.turn tokens subject = .inl s') :
    s'.left tokens.size subject.size < s.left tokens.size subject.size := by
  obtain ⟨b, hb, ⟨ht, rfl⟩ | ⟨t, ht, -, -, rfl⟩ | ⟨-, place, covered, hstar, rfl⟩⟩ := turn_eq_inl h
  · have htoken : s.token < tokens.size := (Array.getElem?_eq_some_iff.mp ht).1
    refine mul_add_lt (mul_add_lt ?_ (Nat.sub_le ..) _) (Nat.sub_le ..) _
    cases hstar : s.star with
    | none => simp; omega
    | some p => have := hs.star_lt p hstar; simp; omega
  · have htoken : s.token < tokens.size := (Array.getElem?_eq_some_iff.mp ht).1
    simp only [left]
    omega
  · have hbyte : s.byte < subject.size := (Array.getElem?_eq_some_iff.mp hb).1
    have hcovered := hs.covered_le _ hstar
    refine mul_add_lt ?_ (Nat.sub_le ..) _
    simp only [hstar, Option.elim_some] at hcovered ⊢
    omega

@[semireducible] def run (tokens : Array Token) (subject : Array UInt8) (s : Search) (hs : s.Anchored) :
    Bool :=
  match h : s.turn tokens subject with
  | .inl s' => s'.run tokens subject (hs.turn h)
  | .inr verdict => verdict
termination_by s.left tokens.size subject.size
decreasing_by exact hs.left_turn h

end Search

def isMatch (g : Glob) (subject : Bytes) : Bool :=
  Search.start.run g.tokens.toArray subject.toArray Search.anchored_start

end Glob
end KeyStore
