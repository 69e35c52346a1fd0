import KeyStore.Proofs.Pages

/-! Patterns that cover every subject. A scan does not test keys against a pattern that was compiled to a
single star. Stars are merged when a pattern is compiled and nothing else covers the empty subject, so these
are all the patterns that cover everything, and a page is the same as if each key had been tested. -/
namespace KeyStore
namespace Glob

theorem ne_star_of_class? {bs : Bytes} {t : Token} {n : Nat} (h : class? bs = some (t, n)) : t ≠ .star := by
  unfold class? at h
  split at h
  all_goals
    obtain ⟨r, -, heq⟩ := Option.map_eq_some_iff.mp h
    rw [← (Prod.mk.inj heq).1]
    exact Token.noConfusion

theorem consStar_of_stars {ts : List Token} (h : ts = [] ∨ ts = [.star]) : consStar ts = [.star] := by
  rcases h with rfl | rfl <;> rfl

theorem all_of_all_consStar {ts : List Token} (h : (consStar ts).all (· == .star) = true) :
    ts.all (· == .star) = true := by
  unfold consStar at h
  split at h
  · exact h
  · rw [List.all_cons] at h
    exact ((Bool.and_eq_true ..).mp h).2

theorem tokensFrom_of_stars (skip : Nat) (bs : Bytes) (h : (tokensFrom skip bs).all (· == .star) = true) :
    tokensFrom skip bs = [] ∨ tokensFrom skip bs = [.star] := by
  fun_induction tokensFrom skip bs with
  | case1 => exact .inl rfl
  | case2 skip b rest ih => exact ih h
  | case3 rest ih => exact .inr (consStar_of_stars (ih (all_of_all_consStar h)))
  | case4 rest ih => cases h
  | case5 c rest ih => cases h
  | case6 rest t n hclass ih =>
    obtain ⟨hstar, -⟩ := (Bool.and_eq_true ..).mp h
    exact absurd (eq_of_beq hstar) (ne_star_of_class? hclass)
  | case7 rest hclass ih => cases h
  | case8 b rest hstar hany hescape hclass ih => cases h

/-- A pattern is compiled to a single star just when it covers every subject. -/
theorem isMatchAll_iff (pattern : Bytes) :
    (ofBytes pattern).isMatchAll = true ↔ ∀ subject, (ofBytes pattern).isMatch subject = true := by
  constructor
  · exact fun h subject => isMatch_of_isMatchAll h subject
  · intro h
    have hempty := (isMatch_iff _ _).mp (h [])
    rw [Covers.nil_right_iff] at hempty
    rcases tokensFrom_of_stars 0 pattern hempty with hnone | hone
    · -- without a token only the empty subject is covered
      have hbyte := (isMatch_iff _ _).mp (h [0])
      rw [ofBytes, hnone, Covers.nil_iff] at hbyte
      cases hbyte
    · exact beq_iff_eq.mpr hone

end Glob

namespace Query

/-- Whether a key would be let through that is tested against the pattern in any case. -/
def tests (q : Query) (key : Key) (entry : Entry) : Bool :=
  q.pattern.all (fun p => (Glob.ofBytes p).isMatch key) &&
    q.kind.all (Bytes.isWord (Bytes.ofString entry.value.kind.name))

theorem tests_iff (q : Query) (key : Key) (entry : Entry) : q.tests key entry = true ↔ q.Selects key entry := by
  simp only [tests, Selects, Bool.and_eq_true, Option.all_eq_true, Option.mem_def]

/-- What a scan lets through does not depend on whether the test was left out. -/
theorem scanFilter_eq_tests (q : Query) : Engine.scanFilter q.pattern q.kind = q.tests :=
  funext fun key => funext fun entry =>
    Bool.eq_iff_iff.mpr ((q.scanFilter_iff key entry).trans (q.tests_iff key entry).symm)

end Query

namespace Engine

theorem scanFilter_of_isMatchAll {pattern : Bytes} (h : (Glob.ofBytes pattern).isMatchAll = true)
    (kind : Option String) : scanFilter (some pattern) kind = scanFilter none kind := by
  have hdropped : ((some pattern).map Glob.ofBytes).filter (fun g => !g.isMatchAll) = none := by
    simp [Option.filter, h]
  funext key entry
  rw [scanFilter, hdropped]
  rfl

/-- The patterns that are not tested are just those that cover every subject. Whatever the pattern, a page
lists the keys that it lists when each key is tested; and a scan for a pattern that covers everything replies
and leaves what a scan without a pattern does. -/
theorem match_all_exact (pattern : Bytes) :
    ((Glob.ofBytes pattern).isMatchAll = true ↔ ∀ subject, (Glob.ofBytes pattern).isMatch subject = true) ∧
    (∀ (ks : Keyspace) (cursor : UInt64) (count : Nat) (kind : Option String),
      ks.scan cursor count (scanFilter (some pattern) kind) =
        ks.scan cursor count (Query.tests ⟨some pattern, kind⟩)) ∧
    ((∀ subject, (Glob.ofBytes pattern).isMatch subject = true) →
      ∀ (e : Engine Q) (cursor : UInt64) (count : Option Nat) (kind : Option String) (nanos : Nat),
        e.execute (.onServer (.scan cursor (some pattern) count kind)) nanos =
          e.execute (.onServer (.scan cursor none count kind)) nanos) := by
  refine ⟨Glob.isMatchAll_iff pattern, fun ks cursor count kind => ?_, fun hall e cursor count kind nanos => ?_⟩
  · exact congrArg (ks.scan cursor count) (Query.scanFilter_eq_tests ⟨some pattern, kind⟩)
  · have hfilter := scanFilter_of_isMatchAll ((Glob.isMatchAll_iff pattern).mpr hall) kind
    simp only [execute, perform, serve, hfilter]
    rfl

/-- Two stars cover every key. A star and a class that is negated and empty cover every key but the empty one,
which keeps the pattern from being left out. -/
theorem match_all_exact_of_stars :
    (∀ subject, (Glob.ofBytes [42, 42]).isMatch subject = true) ∧
      (∀ e : Engine Queue, e.execute (.onServer (.scan 0 (some [42, 42]) none none)) 0 =
        e.execute (.onServer (.scan 0 none none none)) 0) ∧
      (Glob.ofBytes [42, 91, 94, 93]).isMatch [107] = true ∧
      ¬ ∀ subject, (Glob.ofBytes [42, 91, 94, 93]).isMatch subject = true := by
  obtain ⟨hiff, -, hscan⟩ := match_all_exact (Q := Queue) [42, 42]
  obtain ⟨hiff', -, -⟩ := match_all_exact (Q := Queue) [42, 91, 94, 93]
  have hall := hiff.mp (by decide)
  refine ⟨hall, fun e => hscan hall e 0 none none 0, ?_, ?_⟩
  · rw [Glob.isMatch_iff]
    exact ⟨[[], [107]], .cons (.star []) (.cons (.noneOf (by simp)) .nil), rfl⟩
  · rw [← hiff']
    decide

end Engine
end KeyStore
