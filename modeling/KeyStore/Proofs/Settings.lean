import KeyStore.Config
import KeyStore.Proofs.Encoding
import KeyStore.Proofs.Numerals
import KeyStore.Proofs.SmallLetters

/-! Settings. Rates and counts keep to their bounds whatever is asked for, a change touches the parameter that
it names alone, and the text of a parameter is read as the value that it shows. -/
namespace KeyStore

namespace Numeral

theorem ofString_toString (n : Nat) : Bytes.ofString (toString n) = ofNat n := by
  have hdigits : (toString n).toList = Nat.toDigits 10 n := String.toList_ofList
  have hascii : ∀ c ∈ Nat.toDigits 10 n, c.toNat < 128 := by
    intro c hc
    have hdigit : c.isDigit = true := Nat.isDigit_of_mem_toDigits (by decide) (by decide) hc
    have hrange : 48 ≤ c.toNat ∧ c.toNat ≤ 57 := by
      simpa [Char.isDigit, UInt32.le_iff_toNat_le] using hdigit
    omega
  rw [Bytes.ofString, hdigits, ofNat]
  exact Text.Utf8.encode_of_ascii hascii

theorem toString_injective {m n : Nat} (h : toString m = toString n) : m = n := by
  have hvalue := congrArg (fun s => value (Bytes.ofString s)) h
  simpa only [ofString_toString, value_ofNat] using hvalue

abbrev maxWord64 : Nat := 0xffffffffffffffff

theorem word64?_ofNat {n : Nat} (hn : n ≤ maxWord64) : word64? (ofNat n) = some n := by
  have hread := (upTo?_eq_some_iff maxWord64 (ofNat n) n).mpr
    ⟨ofNat_ne_nil n, fun _ => isDigit_of_mem_ofNat, value_ofNat n, hn⟩
  rw [word64?]
  · exact hread
  · intro bs hplus
    have hdigit : isDigit 43 = true := isDigit_of_mem_ofNat (n := n) (hplus ▸ List.mem_cons_self)
    revert hdigit
    decide

theorem le_of_word64? {bs : Bytes} {n : Nat} (h : word64? bs = some n) : n ≤ maxWord64 := by
  unfold word64? at h
  split at h
  · exact ((upTo?_eq_some_iff ..).mp h).2.2.2
  · exact ((upTo?_eq_some_iff ..).mp h).2.2.2

end Numeral

theorem exists_of_map_ok {f : α → β} {r : Except ε α} {b : β} (h : r.map f = .ok b) :
    ∃ a, r = .ok a ∧ f a = b := by
  cases r with
  | error err => cases h
  | ok a => exact ⟨a, rfl, Except.ok.inj h⟩

namespace Config
open Numeral

theorem number_toString {n : Nat} (hn : n ≤ maxWord64) (e : SettingError) : number (toString n) e = .ok n := by
  rw [number, ofString_toString, word64?_ofNat hn]

theorem le_of_number {value : String} {e : SettingError} {n : Nat} (h : number value e = .ok n) :
    n ≤ maxWord64 := by
  rw [number] at h
  split at h
  · rename_i m hm
    cases h
    exact le_of_word64? hm
  · cases h

theorem positive_toString {n : Nat} (hpos : 1 ≤ n) (hn : n ≤ maxWord64) : positive (toString n) = .ok n := by
  rw [positive, number_toString hn]
  exact congrArg Except.ok (Nat.max_eq_right hpos)

theorem bounds_of_positive {value : String} {n : Nat} (h : positive value = .ok n) :
    1 ≤ n ∧ n ≤ maxWord64 := by
  rw [positive] at h
  obtain ⟨m, hm, rfl⟩ := exists_of_map_ok h
  exact ⟨Nat.le_max_left 1 m, Nat.max_le.mpr ⟨by decide, le_of_number hm⟩⟩

theorem ofYesNo_yesNo (b : Bool) : ofYesNo (yesNo b) = .ok b := by
  have hyes : Text.lower "yes" = "yes" := by decide
  have hno : Text.lower "no" = "no" := by decide
  cases b with
  | true => simp [ofYesNo, yesNo, hyes]
  | false => simp [ofYesNo, yesNo, hno]

end Config

theorem OverflowPolicy.ofName_name (o : OverflowPolicy) : ofName o.name = .ok o := by
  have hlower : Text.lower o.name = o.name := by cases o <;> decide
  rw [ofName, hlower]
  cases o <;> rfl

theorem Parameter.ofName?_name (p : Parameter) : ofName? (Text.lower p.name) = some p := by
  cases p <;> decide

namespace Config
open Numeral

theorem eq_of_get {c d : Config} (h : ∀ p, c.get p = d.get p) : c = d := by
  have hflag : yesNo c.activeExpire = yesNo d.activeExpire := h .activeExpire
  have hpolicy : c.overflow.name = d.overflow.name := h .overflow
  have hactive := Except.ok.inj ((ofYesNo_yesNo _).symm.trans ((congrArg ofYesNo hflag).trans (ofYesNo_yesNo _)))
  have hoverflow := Except.ok.inj ((OverflowPolicy.ofName_name _).symm.trans
    ((congrArg OverflowPolicy.ofName hpolicy).trans (OverflowPolicy.ofName_name _)))
  cases c
  cases d
  exact Config.mk.injEq .. ▸ ⟨toString_injective (h .hz), h .loglevel, hactive,
    toString_injective (h .activeExpireSample), toString_injective (h .queueCapacity),
    toString_injective (h .publishTimeout), hoverflow, toString_injective (h .scanCount)⟩

/-- The bounds of the settings. Numbers fit a word, and the level is in small letters. -/
structure Sound (c : Config) : Prop where
  hz : 1 ≤ c.hz ∧ c.hz ≤ 500
  loglevel : Text.lower c.loglevel = c.loglevel
  activeExpireSample : 1 ≤ c.activeExpireSample ∧ c.activeExpireSample ≤ maxWord64
  queueCapacity : 1 ≤ c.queueCapacity ∧ c.queueCapacity ≤ maxWord64
  publishTimeout : c.publishTimeout ≤ maxWord64
  scanCount : 1 ≤ c.scanCount ∧ c.scanCount ≤ maxWord64

theorem sound_default : default.Sound where
  hz := by decide
  loglevel := by decide
  activeExpireSample := by decide
  queueCapacity := by decide
  publishTimeout := by decide
  scanCount := by decide

theorem Sound.set_get {c : Config} (h : c.Sound) (p : Parameter) : c.set p (c.get p) = .ok c := by
  cases p with
  | hz =>
    have hlimit : c.hz ≤ maxWord64 := Nat.le_trans h.hz.2 (by decide)
    have hclamp : min (max 1 c.hz) 500 = c.hz := by have := h.hz; omega
    rw [get, set, number_toString hlimit, Except.map, hclamp]
  | loglevel => rw [get, set, h.loglevel]
  | activeExpire => rw [get, set, ofYesNo_yesNo]; rfl
  | activeExpireSample => rw [get, set, positive_toString h.activeExpireSample.1 h.activeExpireSample.2]; rfl
  | queueCapacity => rw [get, set, positive_toString h.queueCapacity.1 h.queueCapacity.2]; rfl
  | publishTimeout => rw [get, set, number_toString h.publishTimeout]; rfl
  | overflow => rw [get, set, OverflowPolicy.ofName_name]; rfl
  | scanCount => rw [get, set, positive_toString h.scanCount.1 h.scanCount.2]; rfl

theorem Sound.set {c c' : Config} (h : c.Sound) {p : Parameter} {value : String} (hset : c.set p value = .ok c') :
    c'.Sound := by
  cases p with
  | hz =>
    obtain ⟨n, -, rfl⟩ := exists_of_map_ok hset
    exact { h with hz := by dsimp only; omega }
  | loglevel =>
    obtain rfl := Except.ok.inj hset
    exact { h with loglevel := Text.lower_lower value }
  | activeExpire =>
    obtain ⟨b, -, rfl⟩ := exists_of_map_ok hset
    exact { h with }
  | activeExpireSample =>
    obtain ⟨n, hn, rfl⟩ := exists_of_map_ok hset
    exact { h with activeExpireSample := bounds_of_positive hn }
  | queueCapacity =>
    obtain ⟨n, hn, rfl⟩ := exists_of_map_ok hset
    exact { h with queueCapacity := bounds_of_positive hn }
  | publishTimeout =>
    obtain ⟨n, hn, rfl⟩ := exists_of_map_ok hset
    exact { h with publishTimeout := le_of_number hn }
  | overflow =>
    obtain ⟨o, -, rfl⟩ := exists_of_map_ok hset
    exact { h with }
  | scanCount =>
    obtain ⟨n, hn, rfl⟩ := exists_of_map_ok hset
    exact { h with scanCount := bounds_of_positive hn }

theorem get_set_of_ne {c c' : Config} {p q : Parameter} {value : String} (hset : c.set p value = .ok c')
    (hq : q ≠ p) : c'.get q = c.get q := by
  cases p with
  | loglevel =>
    obtain rfl := Except.ok.inj hset
    cases q <;> first | rfl | exact absurd rfl hq
  | _ =>
    obtain ⟨_, -, rfl⟩ := exists_of_map_ok hset
    cases q <;> first | rfl | exact absurd rfl hq

theorem set_set {c c' : Config} {p : Parameter} {value : String} (hset : c.set p value = .ok c')
    (other : String) : c'.set p other = c.set p other := by
  cases p with
  | loglevel =>
    obtain rfl := Except.ok.inj hset
    rfl
  | _ =>
    obtain ⟨_, -, rfl⟩ := exists_of_map_ok hset
    rfl

theorem setNamed_cases {c c' : Config} {name value : String} (h : c.setNamed name value = .ok c') :
    ∃ p, Parameter.ofName? (Text.lower name) = some p ∧ c.set p value = .ok c' := by
  rw [setNamed] at h
  split at h
  · rename_i p hp
    exact ⟨p, hp, h⟩
  · cases h

/-- The settings after a change was asked for; one that is refused leaves them as they are. -/
def attempt (c : Config) (name value : String) : Config := (c.setNamed name value).toOption.getD c

def attemptEach (c : Config) (changes : List (String × String)) : Config :=
  changes.foldl (fun c change => c.attempt change.1 change.2) c

theorem Sound.getD {c : Config} (h : c.Sound) {r : Except SettingError Config} (hr : ∀ c', r = .ok c' → c'.Sound) :
    (r.toOption.getD c).Sound := by
  cases r with
  | error err => exact h
  | ok c' => exact hr c' rfl

theorem Sound.attempt {c : Config} (h : c.Sound) (name value : String) : (c.attempt name value).Sound :=
  h.getD fun _ hset =>
    have ⟨_, _, hset⟩ := setNamed_cases hset
    h.set hset

theorem Sound.attemptEach {c : Config} (h : c.Sound) (changes : List (String × String)) :
    (c.attemptEach changes).Sound := by
  induction changes generalizing c with
  | nil => exact h
  | cons change changes ih => exact ih (h.attempt change.1 change.2)

theorem Sound.applyArgs {c : Config} (h : c.Sound) (args : List String) : (c.applyArgs args).Sound := by
  fun_induction Config.applyArgs c args with
  | case1 => exact h
  | case2 => exact h
  | case3 c arg value rest p hflag ih => exact ih (h.getD fun _ hset => h.set hset)
  | case4 c arg value rest hflag ih => exact ih h

/-- From any arguments and by any changes, rates and counts keep to their bounds. A change is refused and
leaves everything as it was, or is visible under its parameter alone. Every parameter shows a text, all texts
together determine the settings, and setting a parameter to its text changes nothing. After a change its parameter
shows a text that makes the same change. -/
theorem settings_kept (args : List String) (changes : List (String × String)) :
    let c := (ofArgs args).attemptEach changes
    ((1 ≤ c.hz ∧ c.hz ≤ 500) ∧ 1 ≤ c.activeExpireSample ∧ 1 ≤ c.queueCapacity ∧ 1 ≤ c.scanCount) ∧
    (∀ name value : String,
      (∃ err, c.setNamed name value = .error err) ∧ c.attempt name value = c ∨
      ∃ p c', Parameter.ofName? (Text.lower name) = some p ∧ c.setNamed name value = .ok c' ∧
        c.attempt name value = c' ∧ ∀ q, q ≠ p → c'.get q = c.get q) ∧
    (∀ p : Parameter, c.get? p.name = some (c.get p)) ∧
    (∀ d : Config, (∀ p, d.get p = c.get p) → d = c) ∧
    (∀ name text : String, c.get? name = some text → c.setNamed name text = .ok c) ∧
    ∀ (name value : String) (c' : Config), c.setNamed name value = .ok c' →
      ∃ text, c'.get? name = some text ∧ c.setNamed name text = .ok c' ∧ c'.setNamed name text = .ok c' := by
  intro c
  have hc : c.Sound := (sound_default.applyArgs args).attemptEach changes
  refine ⟨⟨hc.hz, hc.activeExpireSample.1, hc.queueCapacity.1, hc.scanCount.1⟩, ?_, ?_, fun _ => eq_of_get, ?_, ?_⟩
  · intro name value
    cases hset : c.setNamed name value with
    | error err => exact .inl ⟨⟨err, rfl⟩, by rw [attempt, hset]; rfl⟩
    | ok c' =>
      obtain ⟨p, hp, hvalue⟩ := setNamed_cases hset
      exact .inr ⟨p, c', hp, rfl, by rw [attempt, hset]; rfl, fun _ => get_set_of_ne hvalue⟩
  · intro p
    rw [get?, Parameter.ofName?_name, Option.map_some]
  · intro name text htext
    obtain ⟨p, hp, rfl⟩ := Option.map_eq_some_iff.mp htext
    rw [setNamed, hp]
    exact hc.set_get p
  · intro name value c' hset
    obtain ⟨p, hp, hvalue⟩ := setNamed_cases hset
    have hback : c'.set p (c'.get p) = .ok c' := (hc.set hvalue).set_get p
    have hname (d : Config) (text : String) : d.setNamed name text = d.set p text := by rw [setNamed, hp]
    refine ⟨c'.get p, by rw [get?, hp, Option.map_some], ?_, (hname ..).trans hback⟩
    rw [hname, ← set_set hvalue, hback]

/-- A rate beyond its bounds, a count with a sign and zeros in front, a refused count, and a level whose letters
have small forms that depend on their neighbours. -/
theorem settings_kept_of_bounds :
    let args := ["--hz", "0", "--loglevel", "ΣΑΣ", "--scan-count", "+007"]
    let c := (ofArgs args).attemptEach [("HZ", "99999"), ("scan-count", "-1")]
    c.get? "Loglevel" = some "σας" ∧ c.setNamed "Loglevel" "σας" = .ok c ∧ c.scanCount = 7 ∧
      c.setNamed "hZ" "0" = .ok { c with hz := 1 } ∧
      ∃ text, { c with hz := 1 }.get? "hZ" = some text ∧ c.setNamed "hZ" text = .ok { c with hz := 1 } := by
  intro args c
  have hlevel : c.get? "Loglevel" = some "σας" := by decide +kernel
  have hname : Parameter.ofName? (Text.lower "hZ") = some .hz := by decide
  have hzero : number "0" .badRate = .ok 0 := number_toString (Nat.zero_le maxWord64) .badRate
  have hrate : c.setNamed "hZ" "0" = .ok { c with hz := 1 } := by
    simp only [setNamed, hname, set, hzero]
    rfl
  obtain ⟨-, -, -, -, hsame, hback⟩ := settings_kept args [("HZ", "99999"), ("scan-count", "-1")]
  obtain ⟨text, htext, hset, -⟩ := hback "hZ" "0" _ hrate
  exact ⟨hlevel, hsame _ _ hlevel, by decide, hrate, text, htext, hset⟩

end Config
end KeyStore
