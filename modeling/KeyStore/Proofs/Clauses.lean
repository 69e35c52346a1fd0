import Mathlib.Data.List.Forall2
import KeyStore.Command.Grammar
import KeyStore.Proofs.Numerals

/-! The clauses of SET. What follows the key and the value is read as clauses, each of one word or of a keyword
and a number. They are taken up one after the other and refused when two of them contradict each other, so that
what is accepted, and what it comes to, depends on which clauses there are and not on their order. -/
namespace KeyStore

def TimeUnit.keyword : TimeUnit → String
  | seconds => "EX"
  | millis => "PX"

inductive SetClause
  | lifetime (unit : TimeUnit) (n : Nat)
  | ifAbsent
  | ifPresent
  | keep
  | get
deriving DecidableEq

namespace SetClause

/-- The words of a clause: a keyword in any case, and after that of a lifetime a positive signed word. -/
inductive Spells : SetClause → List Bytes → Prop
  | lifetime {unit : TimeUnit} {n : Nat} {word arg : Bytes} : word.isWord unit.keyword = true →
    Numeral.Spells arg n → 0 < n → Numeral.FitsInt64 n → Spells (.lifetime unit n) [word, arg]
  | ifAbsent {word : Bytes} : word.isWord "NX" = true → Spells .ifAbsent [word]
  | ifPresent {word : Bytes} : word.isWord "XX" = true → Spells .ifPresent [word]
  | keep {word : Bytes} : word.isWord "KEEPTTL" = true → Spells .keep [word]
  | get {word : Bytes} : word.isWord "GET" = true → Spells .get [word]

def Spelled (xs : List SetClause) (words : List Bytes) : Prop :=
  ∃ pieces, List.Forall₂ Spells xs pieces ∧ words = pieces.flatten

def isLifetime : SetClause → Bool
  | lifetime .. => true
  | _ => false

def isCondition : SetClause → Bool
  | ifAbsent | ifPresent => true
  | _ => false

/-- One lifetime at most, one condition at most, and no lifetime where the expiry is to be kept. -/
structure Compatible (xs : List SetClause) : Prop where
  lifetimes : xs.countP isLifetime ≤ 1
  conditions : xs.countP isCondition ≤ 1
  keeps : .keep ∈ xs → xs.countP isLifetime = 0

/-- The options that some clauses ask for, whatever their order. -/
structure Asks (xs : List SetClause) (o : SetOptions) : Prop where
  after : ∀ millis, o.expiry = .after millis ↔ ∃ unit n, .lifetime unit n ∈ xs ∧ millis = n * unit.inMillis
  keep : o.expiry = .keep ↔ .keep ∈ xs
  ifAbsent : o.condition = .ifAbsent ↔ .ifAbsent ∈ xs
  ifPresent : o.condition = .ifPresent ↔ .ifPresent ∈ xs
  get : o.get = true ↔ .get ∈ xs

/-- What comes of some clauses: the options that they ask for, or nothing if they are not compatible. -/
def Settles (xs : List SetClause) : Option SetOptions → Prop
  | some o => Asks xs o ∧ Compatible xs
  | none => ¬ Compatible xs

theorem Spelled.cons {x : SetClause} {piece : List Bytes} (hx : x.Spells piece) {xs : List SetClause}
    {words : List Bytes} (h : Spelled xs words) : Spelled (x :: xs) (piece ++ words) := by
  obtain ⟨pieces, hpieces, rfl⟩ := h
  exact ⟨piece :: pieces, .cons hx hpieces, rfl⟩

end SetClause

def SetOptions.add (o : SetOptions) : SetClause → Option SetOptions
  | .lifetime unit n =>
    if o.expiry = .clear then some { o with expiry := .after (n * unit.inMillis) } else none
  | .ifAbsent => if o.condition = .always then some { o with condition := .ifAbsent } else none
  | .ifPresent => if o.condition = .always then some { o with condition := .ifPresent } else none
  | .keep =>
    match o.expiry with
    | .after _ => none
    | _ => some { o with expiry := .keep }
  | .get => some { o with get := true }

def SetOptions.addEach (o : SetOptions) : List SetClause → Option SetOptions
  | [] => some o
  | x :: xs => (o.add x).bind (addEach · xs)

namespace Arguments

theorem lifetime_eq_ok_iff (command : String) (unit : TimeUnit) (arg : Bytes) (millis : Nat) :
    lifetime command unit arg = .ok millis ↔ ∃ n : Nat,
      Numeral.Spells arg n ∧ 0 < n ∧ Numeral.FitsInt64 n ∧ millis = n * unit.inMillis := by
  have hread : lifetime command unit arg = .ok millis ↔
      ∃ m, Numeral.int64? arg = some m ∧ 0 < m.toInt ∧ m.toInt.toNat * unit.inMillis = millis := by
    cases hword : Numeral.int64? arg with
    | none => simp [lifetime, int64, hword, bind, Except.bind]
    | some m =>
      by_cases hpos : m.toInt ≤ 0
      · simp [lifetime, int64, hword, bind, Except.bind, hpos, throw, throwThe, MonadExceptOf.throw,
          Int.not_lt.mpr hpos]
      · simp [lifetime, int64, hword, bind, Except.bind, hpos, pure, Except.pure, Int.not_le.mp hpos]
  rw [hread]
  constructor
  · rintro ⟨m, hm, hpos, rfl⟩
    have hnat : (m.toInt.toNat : Int) = m.toInt := Int.toNat_of_nonneg (Int.le_of_lt hpos)
    obtain ⟨hspells, hfits⟩ := (Numeral.exists_int64?_iff arg _).mp ⟨m, hm, hnat.symm⟩
    exact ⟨m.toInt.toNat, hspells, by omega, hfits, rfl⟩
  · rintro ⟨n, hn, hpos, hfits, rfl⟩
    obtain ⟨m, hm, hvalue⟩ := (Numeral.exists_int64?_iff arg n).mpr ⟨hn, hfits⟩
    exact ⟨m, hm, by omega, by rw [hvalue, Int.toNat_natCast]⟩

theorem setOptions_append {x : SetClause} {piece : List Bytes} (hx : x.Spells piece) (o : SetOptions)
    (rest : List Bytes) :
    setOptions o (piece ++ rest) = (o.add x).elim (.error .badSyntax) (setOptions · rest) := by
  -- keywords are tried one after the other, so a word that spells one must spell none of those before it
  cases hx with
  | @lifetime unit n word arg hword hn hpos hfits =>
    have hread : lifetime "set" unit arg = .ok (n * unit.inMillis) :=
      (lifetime_eq_ok_iff ..).mpr ⟨n, hn, hpos, hfits, rfl⟩
    have hunit : (word.isWord "EX" || word.isWord "PX") = true ∧
        (if word.isWord "EX" then TimeUnit.seconds else .millis) = unit := by
      cases unit with
      | seconds => simp [show word.isWord "EX" = true from hword]
      | millis =>
        have hother : word.isWord "EX" = false := Bytes.isWord_of_isWord hword (by decide)
        simp [show word.isWord "PX" = true from hword, hother]
    rw [List.cons_append, List.singleton_append, setOptions, if_pos hunit.1]
    simp only [hunit.2, hread, SetOptions.add]
    by_cases hclear : o.expiry = .clear <;> simp [hclear]
  | @ifAbsent word hword =>
    have hother (w : String) (hw) : word.isWord w = false := Bytes.isWord_of_isWord hword hw
    rw [List.singleton_append, setOptions.eq_def, SetOptions.add]
    simp only [hword, hother "EX" (by decide), hother "PX" (by decide)]
    by_cases halways : o.condition = .always <;> simp [halways]
  | @ifPresent word hword =>
    have hother (w : String) (hw) : word.isWord w = false := Bytes.isWord_of_isWord hword hw
    rw [List.singleton_append, setOptions.eq_def, SetOptions.add]
    simp only [hword, hother "EX" (by decide), hother "PX" (by decide), hother "NX" (by decide)]
    by_cases halways : o.condition = .always <;> simp [halways]
  | @keep word hword =>
    have hother (w : String) (hw) : word.isWord w = false := Bytes.isWord_of_isWord hword hw
    rw [List.singleton_append, setOptions.eq_def, SetOptions.add.eq_def]
    simp only [hword, hother "EX" (by decide), hother "PX" (by decide), hother "NX" (by decide),
      hother "XX" (by decide)]
    cases o.expiry <;> simp
  | @get word hword =>
    have hother (w : String) (hw) : word.isWord w = false := Bytes.isWord_of_isWord hword hw
    rw [List.singleton_append, setOptions.eq_def, SetOptions.add]
    simp [hword, hother "EX" (by decide), hother "PX" (by decide), hother "NX" (by decide),
      hother "XX" (by decide), hother "KEEPTTL" (by decide)]

theorem spelled_of_setOptions {o o' : SetOptions} {words : List Bytes} (h : setOptions o words = .ok o') :
    ∃ xs, SetClause.Spelled xs words := by
  fun_induction setOptions o words with
  | case1 o => exact ⟨[], [], .nil, rfl⟩
  | case2 | case3 | case4 | case6 | case8 | case11 => cases h
  | case5 o word hword _ arg rest unit millis hlifetime ih =>
    obtain ⟨xs, hxs⟩ := ih h
    obtain ⟨n, hn, hpos, hfits, -⟩ := (lifetime_eq_ok_iff ..).mp hlifetime
    have hkeyword : word.isWord unit.keyword = true := by
      cases hex : word.isWord "EX" with
      | true => simp [unit, hex, TimeUnit.keyword]
      | false => simpa [unit, hex, TimeUnit.keyword] using hword
    exact ⟨_, hxs.cons (.lifetime hkeyword hn hpos hfits)⟩
  | case7 o word rest _ hword _ ih =>
    obtain ⟨xs, hxs⟩ := ih h
    rcases (Bool.or_eq_true ..).mp hword with hnx | hxx
    · exact ⟨_, hxs.cons (.ifAbsent hnx)⟩
    · exact ⟨_, hxs.cons (.ifPresent hxx)⟩
  | case9 o word rest _ _ hword _ ih =>
    obtain ⟨xs, hxs⟩ := ih h
    exact ⟨_, hxs.cons (.keep hword)⟩
  | case10 o word rest _ _ _ hword ih =>
    obtain ⟨xs, hxs⟩ := ih h
    exact ⟨_, hxs.cons (.get hword)⟩

theorem setOptions_of_spelled {xs : List SetClause} {words : List Bytes} (h : SetClause.Spelled xs words)
    (o : SetOptions) : setOptions o words = (o.addEach xs).elim (.error .badSyntax) .ok := by
  obtain ⟨pieces, hpieces, rfl⟩ := h
  induction hpieces generalizing o with
  | nil => rfl
  | cons hx _ ih =>
    rw [List.flatten_cons, setOptions_append hx, SetOptions.addEach]
    cases o.add _ with
    | none => rfl
    | some o' => exact ih o'

end Arguments

namespace SetClause

theorem Asks.unique {xs : List SetClause} {o o' : SetOptions} (h : Asks xs o) (h' : Asks xs o') : o = o' := by
  obtain ⟨condition, expiry, get⟩ := o
  obtain ⟨condition', expiry', get'⟩ := o'
  have hcondition : condition = condition' := by
    have hnx := h.ifAbsent.trans h'.ifAbsent.symm
    have hxx := h.ifPresent.trans h'.ifPresent.symm
    cases condition <;> cases condition' <;> simp_all
  have hexpiry : expiry = expiry' := by
    have hkeep := h.keep.trans h'.keep.symm
    have hafter := fun millis => (h.after millis).trans (h'.after millis).symm
    cases expiry with
    | keep => exact (hkeep.mp rfl).symm
    | after millis => exact ((hafter millis).mp rfl).symm
    | clear =>
      cases expiry' with
      | clear => rfl
      | keep => exact hkeep.mpr rfl
      | after millis => exact (hafter millis).mpr rfl
  have hget : get = get' := Bool.eq_iff_iff.mpr (h.get.trans h'.get.symm)
  rw [hcondition, hexpiry, hget]

theorem Asks.perm {xs ys : List SetClause} {o : SetOptions} (h : Asks xs o) (hperm : xs.Perm ys) : Asks ys o := by
  constructor <;> simp only [← hperm.mem_iff]
  exacts [h.after, h.keep, h.ifAbsent, h.ifPresent, h.get]

theorem Compatible.perm {xs ys : List SetClause} (h : Compatible xs) (hperm : xs.Perm ys) : Compatible ys := by
  constructor <;> simp only [← hperm.mem_iff, ← hperm.countP_eq]
  exacts [h.lifetimes, h.conditions, h.keeps]

theorem Compatible.of_append {xs ys : List SetClause} (h : Compatible (ys ++ xs)) : Compatible xs := by
  obtain ⟨hlifetimes, hconditions, hkeeps⟩ := h
  rw [List.countP_append] at hlifetimes hconditions
  refine ⟨by omega, by omega, fun hkeep => ?_⟩
  have hnone := hkeeps (List.mem_append_right ys hkeep)
  rw [List.countP_append] at hnone
  omega

theorem Settles.perm {xs ys : List SetClause} {r : Option SetOptions} (h : Settles xs r) (hperm : xs.Perm ys) :
    Settles ys r := by
  cases r with
  | none => exact fun hc => h (hc.perm hperm.symm)
  | some o => exact ⟨h.1.perm hperm, h.2.perm hperm⟩

theorem Settles.unique {xs : List SetClause} {r r' : Option SetOptions} (h : Settles xs r) (h' : Settles xs r') :
    r = r' := by
  cases r with
  | none =>
    cases r' with
    | none => rfl
    | some o' => exact absurd h'.2 h
  | some o =>
    cases r' with
    | none => exact absurd h.2 h'
    | some o' => exact congrArg some (h.1.unique h'.1)

theorem settles_nil : Settles [] (some {}) := by
  constructor <;> constructor <;> simp

section Add
variable {xs : List SetClause} {o : SetOptions}

theorem Asks.lifetimes_iff (h : Asks xs o) : xs.countP isLifetime = 0 ↔ ∀ millis, o.expiry ≠ .after millis := by
  rw [List.countP_eq_zero]
  constructor
  · intro hnone millis hafter
    obtain ⟨unit, n, hmem, -⟩ := (h.after millis).mp hafter
    exact hnone _ hmem rfl
  · intro hnone x hx hlifetime
    cases x with
    | lifetime unit n => exact hnone _ ((h.after _).mpr ⟨unit, n, hx, rfl⟩)
    | _ => cases hlifetime

theorem Asks.conditions_iff (h : Asks xs o) : xs.countP isCondition = 0 ↔ o.condition = .always := by
  rw [List.countP_eq_zero]
  constructor
  · intro hnone
    cases hc : o.condition with
    | always => rfl
    | ifAbsent => exact absurd rfl (hnone _ (h.ifAbsent.mp hc))
    | ifPresent => exact absurd rfl (hnone _ (h.ifPresent.mp hc))
  · intro halways x hx hcondition
    cases x with
    | ifAbsent => cases halways.symm.trans (h.ifAbsent.mpr hx)
    | ifPresent => cases halways.symm.trans (h.ifPresent.mpr hx)
    | _ => cases hcondition

theorem notMem_of_isLifetime (hnone : xs.countP isLifetime = 0) {x : SetClause} (hx : x.isLifetime = true) :
    x ∉ xs := fun hmem => List.countP_eq_zero.mp hnone x hmem hx

theorem notMem_of_isCondition (hnone : xs.countP isCondition = 0) {x : SetClause} (hx : x.isCondition = true) :
    x ∉ xs := fun hmem => List.countP_eq_zero.mp hnone x hmem hx

theorem Asks.add_lifetime (h : Asks xs o) (hc : Compatible xs) (unit : TimeUnit) (n : Nat) :
    Settles (.lifetime unit n :: xs) (o.add (.lifetime unit n)) := by
  have hcount : (SetClause.lifetime unit n :: xs).countP isLifetime = xs.countP isLifetime + 1 :=
    List.countP_cons_of_pos rfl
  rw [SetOptions.add]
  by_cases hclear : o.expiry = .clear
  · have hnone : xs.countP isLifetime = 0 := h.lifetimes_iff.mpr (by simp [hclear])
    have hkeep : .keep ∉ xs := fun hmem => by cases hclear.symm.trans (h.keep.mpr hmem)
    have hfirst (unit' : TimeUnit) (n' : Nat) : .lifetime unit' n' ∉ xs := notMem_of_isLifetime hnone rfl
    rw [if_pos hclear]
    refine ⟨⟨fun millis => ?_, ?_, ?_, ?_, ?_⟩, ?_, ?_, ?_⟩
    · simp [hfirst, eq_comm]
    · simp [hkeep]
    · simpa using h.ifAbsent
    · simpa using h.ifPresent
    · simpa using h.get
    · omega
    · simpa [isCondition] using hc.conditions
    · simp [hkeep]
  · rw [if_neg hclear]
    intro hcompatible
    have hlifetimes := hcompatible.lifetimes
    cases hexpiry : o.expiry with
    | clear => exact hclear hexpiry
    | keep =>
      have hnone := hcompatible.keeps (List.mem_cons_of_mem _ (h.keep.mp hexpiry))
      omega
    | after millis => exact h.lifetimes_iff.mp (by omega) millis hexpiry

theorem Asks.add_condition (h : Asks xs o) (hc : Compatible xs) {x : SetClause} (hx : x.isCondition = true) :
    Settles (x :: xs) (o.add x) := by
  have hcount : (x :: xs).countP isCondition = xs.countP isCondition + 1 := List.countP_cons_of_pos hx
  by_cases halways : o.condition = .always
  · have hnone : xs.countP isCondition = 0 := h.conditions_iff.mpr halways
    have hfirst {y : SetClause} (hy : y.isCondition = true) : y ∉ xs := notMem_of_isCondition hnone hy
    cases x with
    | ifAbsent | ifPresent =>
      rw [SetOptions.add, if_pos halways]
      refine ⟨⟨?_, ?_, ?_, ?_, ?_⟩, ?_, ?_, ?_⟩
      · simpa using h.after
      · simpa using h.keep
      · simp [hfirst (y := .ifAbsent) rfl]
      · simp [hfirst (y := .ifPresent) rfl]
      · simpa using h.get
      · simpa [isLifetime] using hc.lifetimes
      · omega
      · simpa [isLifetime] using hc.keeps
    | _ => cases hx
  · have hrefused : o.add x = none := by
      cases x with
      | ifAbsent | ifPresent => exact if_neg halways
      | _ => cases hx
    rw [hrefused]
    intro hcompatible
    have hconditions := hcompatible.conditions
    exact halways (h.conditions_iff.mp (by omega))

theorem Asks.add_keep (h : Asks xs o) (hc : Compatible xs) : Settles (.keep :: xs) (o.add .keep) := by
  have hcount : (SetClause.keep :: xs).countP isLifetime = xs.countP isLifetime :=
    List.countP_cons_of_neg Bool.false_ne_true
  by_cases hnone : xs.countP isLifetime = 0
  · have hfirst (unit : TimeUnit) (n : Nat) : .lifetime unit n ∉ xs := notMem_of_isLifetime hnone rfl
    have hadd : o.add .keep = some { o with expiry := .keep } := by
      cases hexpiry : o.expiry with
      | after millis => exact absurd hexpiry (h.lifetimes_iff.mp hnone millis)
      | _ => simp [SetOptions.add, hexpiry]
    rw [hadd]
    refine ⟨⟨?_, ?_, ?_, ?_, ?_⟩, ?_, ?_, fun _ => hcount.trans hnone⟩
    · simp [hfirst]
    · simp
    · simpa using h.ifAbsent
    · simpa using h.ifPresent
    · simpa using h.get
    · simpa [isLifetime] using hc.lifetimes
    · simpa [isCondition] using hc.conditions
  · have hrefused : o.add .keep = none := by
      obtain ⟨millis, hafter⟩ : ∃ millis, o.expiry = .after millis := by
        by_contra hnever
        exact hnone (h.lifetimes_iff.mpr (not_exists.mp hnever))
      simp [SetOptions.add, hafter]
    rw [hrefused]
    exact fun hcompatible => hnone (hcount.symm.trans (hcompatible.keeps List.mem_cons_self))

theorem Asks.add_get (h : Asks xs o) (hc : Compatible xs) : Settles (.get :: xs) (o.add .get) := by
  refine ⟨⟨?_, ?_, ?_, ?_, ?_⟩, ?_, ?_, ?_⟩
  · simpa using h.after
  · simpa using h.keep
  · simpa using h.ifAbsent
  · simpa using h.ifPresent
  · simp
  · simpa [isLifetime] using hc.lifetimes
  · simpa [isCondition] using hc.conditions
  · simpa [isLifetime] using hc.keeps

theorem Asks.add (h : Asks xs o) (hc : Compatible xs) (x : SetClause) : Settles (x :: xs) (o.add x) := by
  cases x with
  | lifetime unit n => exact h.add_lifetime hc unit n
  | ifAbsent | ifPresent => exact h.add_condition hc rfl
  | keep => exact h.add_keep hc
  | get => exact h.add_get hc

/-- Some clauses are taken up if they are compatible, with each other and with those before them. -/
theorem Asks.addEach (h : Asks xs o) (hc : Compatible xs) (ys : List SetClause) :
    Settles (ys ++ xs) (o.addEach ys) := by
  induction ys generalizing xs o with
  | nil => exact ⟨h, hc⟩
  | cons y ys ih =>
    have hperm : (ys ++ y :: xs).Perm (y :: ys ++ xs) := List.perm_middle
    have hfirst := h.add hc y
    rw [SetOptions.addEach]
    cases hadd : o.add y with
    | none =>
      rw [hadd] at hfirst
      exact fun hall => hfirst (hall.perm hperm.symm).of_append
    | some o' =>
      rw [hadd] at hfirst
      exact (ih hfirst.1 hfirst.2).perm hperm

end Add

theorem settles_addEach (xs : List SetClause) : Settles xs (SetOptions.addEach {} xs) := by
  have hall := settles_nil.1.addEach settles_nil.2 xs
  rwa [List.append_nil] at hall

theorem addEach_perm {xs ys : List SetClause} (hperm : xs.Perm ys) :
    SetOptions.addEach {} xs = SetOptions.addEach {} ys :=
  ((settles_addEach xs).perm hperm).unique (settles_addEach ys)

end SetClause

namespace Grammar

theorem set_of_spelled {xs : List SetClause} {words : List Bytes} (h : SetClause.Spelled xs words)
    (key value : Bytes) : set (key :: value :: words) =
      (SetOptions.addEach {} xs).elim (.error .badSyntax) fun o => .ok (.onKeys (.set key value o)) := by
  rw [set, Arguments.setOptions_of_spelled h]
  cases SetOptions.addEach {} xs <;> rfl

theorem spelled_of_set {key value : Bytes} {words : List Bytes} {c : Command}
    (h : set (key :: value :: words) = .ok c) : ∃ xs, SetClause.Spelled xs words := by
  rw [set] at h
  cases ho : Arguments.setOptions {} words with
  | ok o => exact Arguments.spelled_of_setOptions ho
  | error err =>
    rw [ho] at h
    cases h

/-- What may follow the key and the value of SET are compatible clauses, and nothing else. The command has the
options that these ask for; and words that spell the same clauses in another order make the same command. -/
theorem set_clauses_exact (key value : Bytes) (words : List Bytes) :
    ((∃ c, set (key :: value :: words) = .ok c) ↔
      ∃ xs, SetClause.Spelled xs words ∧ SetClause.Compatible xs) ∧
    (∀ xs, SetClause.Spelled xs words → SetClause.Compatible xs → ∃ o, SetClause.Asks xs o ∧
      set (key :: value :: words) = .ok (.onKeys (.set key value o))) ∧
    ∀ xs ys words', SetClause.Spelled xs words → SetClause.Spelled ys words' → xs.Perm ys →
      set (key :: value :: words') = set (key :: value :: words) := by
  have haccepted (xs : List SetClause) (hxs : SetClause.Spelled xs words) (hc : SetClause.Compatible xs) :
      ∃ o, SetClause.Asks xs o ∧ set (key :: value :: words) = .ok (.onKeys (.set key value o)) := by
    have hsettles := SetClause.settles_addEach xs
    rw [set_of_spelled hxs]
    cases hadd : SetOptions.addEach {} xs with
    | none =>
      rw [hadd] at hsettles
      exact absurd hc hsettles
    | some o =>
      rw [hadd] at hsettles
      exact ⟨o, hsettles.1, rfl⟩
  refine ⟨⟨?_, ?_⟩, haccepted, ?_⟩
  · rintro ⟨c, hset⟩
    obtain ⟨xs, hxs⟩ := spelled_of_set hset
    have hsettles := SetClause.settles_addEach xs
    rw [set_of_spelled hxs] at hset
    cases hadd : SetOptions.addEach {} xs with
    | none =>
      rw [hadd] at hset
      cases hset
    | some o =>
      rw [hadd] at hsettles
      exact ⟨xs, hxs, hsettles.2⟩
  · rintro ⟨xs, hxs, hc⟩
    obtain ⟨o, -, hset⟩ := haccepted xs hxs hc
    exact ⟨_, hset⟩
  · intro xs ys words' hxs hys hperm
    rw [set_of_spelled hxs, set_of_spelled hys, SetClause.addEach_perm hperm]

/-- A lifetime, a condition and a wish for the old string, in two orders, keywords and number written in two ways.
A keyword where the number should be is no clause. -/
theorem set_clauses_exact_of_orders :
    let lifetime : SetClause := .lifetime .seconds 10
    let words := ["eX", "010", "Get", "xX"].map Bytes.ofString
    let words' := ["XX", "EX", "10", "GET"].map Bytes.ofString
    (∃ o, SetClause.Asks [lifetime, .get, .ifPresent] o ∧
      set ([107] :: [118] :: words) = .ok (.onKeys (.set [107] [118] o))) ∧
    set ([107] :: [118] :: words') = set ([107] :: [118] :: words) ∧
    ¬ ∃ xs, SetClause.Spelled xs (["EX", "NX"].map Bytes.ofString) ∧ SetClause.Compatible xs := by
  intro lifetime words words'
  have hten : Numeral.Spells [49, 48] (10 : Nat) := .digits (by decide) (List.all_eq_true.mp rfl)
  have hten' : Numeral.Spells [48, 49, 48] (10 : Nat) := .digits (by decide) (List.all_eq_true.mp rfl)
  have hwords : SetClause.Spelled [lifetime, .get, .ifPresent] words :=
    ⟨[[Bytes.ofString "eX", Bytes.ofString "010"], [Bytes.ofString "Get"], [Bytes.ofString "xX"]],
      .cons (.lifetime (by decide) hten' (by decide) (by decide)) (.cons (.get (by decide))
        (.cons (.ifPresent (by decide)) .nil)), rfl⟩
  have hwords' : SetClause.Spelled [.ifPresent, lifetime, .get] words' :=
    ⟨[[Bytes.ofString "XX"], [Bytes.ofString "EX", Bytes.ofString "10"], [Bytes.ofString "GET"]],
      .cons (.ifPresent (by decide)) (.cons (.lifetime (by decide) hten (by decide) (by decide))
        (.cons (.get (by decide)) .nil)), rfl⟩
  obtain ⟨-, haccepted, horder⟩ := set_clauses_exact [107] [118] words
  obtain ⟨hiff, -, -⟩ := set_clauses_exact [107] [118] (["EX", "NX"].map Bytes.ofString)
  refine ⟨haccepted _ hwords ⟨by decide, by decide, by decide⟩, horder _ _ words' hwords hwords' (by decide), ?_⟩
  rw [← hiff]
  rintro ⟨c, hc⟩
  cases hc

end Grammar
end KeyStore
