import KeyStore.Proofs.Capitals
import KeyStore.Proofs.Clauses
import KeyStore.Proofs.Encoding

/-! Verbs. A word names a command by its letters in any case of ASCII. The capitals of ten letters outside of
ASCII are letters of it, and a word with these is taken for the command that it looks like; any other word, and
any that is not UTF-8, is unknown, whatever follows it. -/
namespace KeyStore

namespace Bytes
open Text Text.Utf8

theorem toNat_toLower (b : UInt8) :
    (toLower b).toNat = if 65 ≤ b.toNat ∧ b.toNat ≤ 90 then b.toNat + 32 else b.toNat := by
  rw [toLower]
  split
  · rename_i h
    have hrange : 65 ≤ b.toNat ∧ b.toNat ≤ 90 := h
    have hsum : (b + 32).toNat = (b.toNat + 32) % 256 := UInt8.toNat_add ..
    rw [if_pos hrange, hsum]
    omega
  · exact (if_neg ‹_›).symm

theorem map_toLower_encodeChar (c : Char) :
    (String.utf8EncodeChar c).map toLower = String.utf8EncodeChar c.toLower := by
  by_cases hc : c.toNat < 128
  · have hsmall : c.toLower.toNat < 128 := by
      rw [Text.toNat_toLower]
      split <;> omega
    have hbyte : toLower (UInt8.ofNat c.toNat) = UInt8.ofNat c.toLower.toNat := by
      rw [← UInt8.toNat_inj, toNat_toLower, toNat_ofNat (by omega), toNat_ofNat (by omega), Text.toNat_toLower]
    rw [encodeChar_of_ascii hc, encodeChar_of_ascii hsmall, List.map_singleton, hbyte]
  · have hsame : c.toLower = c := by
      rw [← Char.toNat_inj, Text.toNat_toLower, if_neg (by omega)]
    have hbytes : ∀ b ∈ String.utf8EncodeChar c, toLower b = b := by
      intro b hb
      have := le_of_mem_encodeChar (Nat.le_of_not_lt hc) hb
      rw [← UInt8.toNat_inj, toNat_toLower, if_neg (by omega)]
    rw [hsame]
    exact (List.map_congr_left hbytes).trans (List.map_id _)

theorem map_toLower_encode (cs : List Char) : (encode cs).map toLower = encode (cs.map Char.toLower) := by
  rw [encode, List.map_flatMap, encode, List.flatMap_map]
  exact List.flatMap_congr fun c _ => map_toLower_encodeChar c

theorem isWord_encode_iff (cs : List Char) (name : String) :
    (encode cs).isWord name = true ↔ cs.map Char.toLower = name.toList.map Char.toLower := by
  rw [isWord, sameWord, beq_iff_eq, ofString, map_toLower_encode, map_toLower_encode]
  exact ⟨encode_injective, congrArg encode⟩

theorem decode_of_isWord {word : Bytes} {name : String} (hname : ∀ c ∈ name.toList, c.isUpper = true)
    (h : word.isWord name = true) : ∃ s, decode? word = some s := by
  have hsmall : ∀ c ∈ name.toList.map Char.toLower, c.toNat < 128 := by
    intro c hc
    obtain ⟨d, hd, rfl⟩ := List.mem_map.mp hc
    have := range_of_isUpper (hname d hd)
    rw [Text.toNat_toLower]
    split <;> omega
  rw [isWord, sameWord, beq_iff_eq, ofString, map_toLower_encode, encode_of_ascii hsmall] at h
  have hbytes : ∀ b ∈ word, b.toNat < 128 := by
    intro b hb
    obtain ⟨c, hc, heq⟩ := List.mem_map.mp (h ▸ List.mem_map_of_mem hb)
    have hbyte := congrArg UInt8.toNat heq
    have := hsmall c hc
    rw [toNat_ofNat (by omega), toNat_toLower] at hbyte
    split at hbyte <;> omega
  have hcode : ∀ b ∈ word, (Char.ofNat b.toNat).toNat = b.toNat := by
    intro b hb
    have := hbytes b hb
    exact toNat_char (.inl (by omega))
  refine ⟨String.ofList (word.map fun b => Char.ofNat b.toNat), (decode_eq_some_iff ..).mpr ?_⟩
  have hascii : ∀ c ∈ word.map fun b => Char.ofNat b.toNat, c.toNat < 128 := by
    intro c hc
    obtain ⟨b, hb, rfl⟩ := List.mem_map.mp hc
    rw [hcode b hb]
    exact hbytes b hb
  rw [ofString, String.toList_ofList, ← encode, encode_of_ascii hascii, List.map_map]
  refine ((List.map_congr_left fun b hb => ?_).trans (List.map_id word)).symm
  rw [Function.comp_apply, hcode b hb, UInt8.ofNat_toNat, id]

end Bytes

namespace Text
open Utf8

/-- A word with its lookalikes written as the letters that they are taken for, and with U+FFFD for what is not
UTF-8. -/
def spelledOut (word : Bytes) : Bytes := encode ((lossy word).toList.flatMap plain)

variable {word : Bytes} {name : String}

theorem lossy_ofString (s : String) : lossy (Bytes.ofString s) = s := by
  rw [lossy, Bytes.ofString, pieces_encode, List.map_map]
  exact (congrArg String.ofList (List.map_id _)).trans String.ofList_toList

theorem spelledOut_of_decode {s : String} (h : decode? word = some s)
    (hplain : ∀ c ∈ (lossy word).toList, isLookalike c = false) : spelledOut word = word := by
  have hword := (decode_eq_some_iff ..).mp h
  have hsame : (lossy word).toList.flatMap plain = (lossy word).toList.flatMap fun c => [c] :=
    List.flatMap_congr fun c hc => plain_of_not_lookalike (hplain c hc)
  rw [spelledOut, hsame, List.flatMap_singleton', hword, lossy_ofString]
  rfl

theorem spelledOut_of_isWord (hname : ∀ c ∈ name.toList, c.isUpper = true) (h : word.isWord name = true) :
    spelledOut word = word := by
  obtain ⟨s, hs⟩ := Bytes.decode_of_isWord hname h
  refine spelledOut_of_decode hs fun c hc => not_lookalike_of_ascii ?_
  rw [(decode_eq_some_iff ..).mp hs] at h hc
  rw [lossy_ofString] at hc
  have hsmall := List.mem_map_of_mem (f := Char.toLower) hc
  rw [(Bytes.isWord_encode_iff s.toList name).mp h] at hsmall
  obtain ⟨d, hd, hcase⟩ := List.mem_map.mp hsmall
  have hrange := range_of_isUpper (hname d hd)
  have hcode := congrArg Char.toNat hcase
  rw [toNat_toLower, toNat_toLower] at hcode
  split at hcode <;> split at hcode <;> omega

theorem spelledOut_of_malformed (hname : ∀ c ∈ name.toList, c.isUpper = true) (h : decode? word = none) :
    (spelledOut word).isWord name = false := by
  have hlacks : none ∈ pieces word := by
    rwa [decode?, Option.map_eq_none_iff, mapM_id_eq_none_iff] at h
  have hmem : '\uFFFD' ∈ (lossy word).toList.flatMap plain := by
    refine List.mem_flatMap.mpr ⟨'\uFFFD', ?_, by decide⟩
    rw [lossy, String.toList_ofList]
    exact List.mem_map.mpr ⟨none, hlacks, rfl⟩
  rw [← Bool.not_eq_true, spelledOut, Bytes.isWord_encode_iff, ← map_toUpper_eq_iff hname]
  intro hsame
  have hcapital := hname _ (hsame ▸ List.mem_map_of_mem hmem)
  revert hcapital
  decide

/-- The capitals of a word are a name just when the word spells the name once it is spelled out. -/
theorem upper_lossy_eq_iff (hname : ∀ c ∈ name.toList, c.isUpper = true) :
    upper (lossy word) = name ↔ (spelledOut word).isWord name = true := by
  rw [upper_eq_iff hname, spelledOut, Bytes.isWord_encode_iff]

end Text

namespace Verb
open Text Text.Utf8

/-- A word that spells the name of a verb, up to the case of ASCII. -/
def Named (word : Bytes) : Prop := ∃ e ∈ table, word.isWord e.1 = true

instance (word : Bytes) : Decidable (Named word) := inferInstanceAs (Decidable (∃ e ∈ table, _))

theorem isUpper_of_mem_table : ∀ e ∈ table, ∀ c ∈ e.1.toList, c.isUpper = true := by
  have hall : ∀ e ∈ table, e.1.toList.all Char.isUpper = true := by decide +kernel
  exact fun e he => List.all_eq_true.mp (hall e he)

theorem lookup_table {e : String × Verb} (he : e ∈ table) : table.lookup e.1 = some e.2 := by
  have hnodup : (table.map (·.1)).Nodup := by decide +kernel
  obtain ⟨before, after, hsplit⟩ := List.append_of_mem he
  rw [hsplit, List.map_append, List.nodup_append] at hnodup
  refine List.lookup_eq_some_iff.mpr ⟨before, after, hsplit, fun p hp => bne_iff_ne.mpr ?_⟩
  exact (hnodup.2.2 _ (List.mem_map_of_mem hp) _ List.mem_cons_self).symm

theorem ofBytes?_eq_some_iff (word : Bytes) (v : Verb) :
    ofBytes? word = some v ↔ ∃ name, (name, v) ∈ table ∧ (spelledOut word).isWord name = true := by
  rw [ofBytes?]
  constructor
  · intro h
    have hmem : (upper (lossy word), v) ∈ table := mem_of_lookup h
    exact ⟨_, hmem, (upper_lossy_eq_iff (isUpper_of_mem_table _ hmem)).mp rfl⟩
  · rintro ⟨name, hmem, hword⟩
    rw [(upper_lossy_eq_iff (isUpper_of_mem_table _ hmem)).mpr hword, lookup_table hmem]

theorem ofBytes?_eq_none_iff (word : Bytes) : ofBytes? word = none ↔ ¬ Named (spelledOut word) := by
  rw [Option.eq_none_iff_forall_ne_some, Named, not_exists]
  constructor
  · exact fun h e he => h e.2 ((ofBytes?_eq_some_iff ..).mpr ⟨e.1, he⟩)
  · intro h v hv
    obtain ⟨name, hname⟩ := (ofBytes?_eq_some_iff ..).mp hv
    exact h (name, v) hname

/-- Without lookalikes, and without what is not UTF-8, a word is what it is spelled out as. -/
theorem named_spelledOut_iff {word : Bytes} (h : ∀ c ∈ (lossy word).toList, isLookalike c = false) :
    Named (spelledOut word) ↔ Named word := by
  cases hdecode : decode? word with
  | some s => rw [spelledOut_of_decode hdecode h]
  | none =>
    constructor
    · rintro ⟨e, he, hword⟩
      rw [spelledOut_of_malformed (isUpper_of_mem_table e he) hdecode] at hword
      cases hword
    · rintro ⟨e, he, hword⟩
      obtain ⟨s, hs⟩ := Bytes.decode_of_isWord (isUpper_of_mem_table e he) hword
      cases hdecode.symm.trans hs

end Verb

/-- A reading that does not fail for its verb. -/
def Understood (r : Except Error α) : Prop := ∀ name, r ≠ .error (.unknownCommand name)

namespace Understood
variable {r : Except Error α}

@[simp] theorem ok (a : α) : Understood (.ok a : Except Error α) := by simp [Understood]

@[simp] theorem pure (a : α) : Understood (Pure.pure a : Except Error α) := ok a

@[simp] theorem error_iff {err : Error} :
    Understood (.error err : Except Error α) ↔ ∀ name, err ≠ .unknownCommand name := by simp [Understood]

@[simp] theorem throw_iff {err : Error} :
    Understood (throw err : Except Error α) ↔ ∀ name, err ≠ .unknownCommand name := error_iff

theorem refused {err : Error} {f : α → Except Error β} (h : ∀ name, err ≠ .unknownCommand name) :
    Understood (throw err >>= f) := error_iff.mpr h

theorem bind {f : α → Except Error β} (hr : Understood r) (hf : ∀ a, Understood (f a)) : Understood (r >>= f) := by
  cases r with
  | error err => exact fun name h => hr name (congrArg _ (Except.error.inj h))
  | ok a => exact hf a

theorem map {f : α → β} (hr : Understood r) : Understood (r.map f) := by
  cases r with
  | error err => exact fun name h => hr name (congrArg _ (Except.error.inj h))
  | ok a => exact .ok (f a)

theorem error (hr : Understood r) {err : Error} (h : r = .error err) : Understood (.error err : Except Error β) :=
  fun name hname => hr name (h.trans (congrArg _ (Except.error.inj hname)))

end Understood

namespace Arguments

theorem understood_int64 (arg : Bytes) : Understood (int64 arg) := by
  rw [int64]
  split
  · exact .ok _
  · simp

theorem understood_count (arg : Bytes) : Understood (count arg) := by
  refine (understood_int64 arg).bind fun n => ?_
  split
  · exact .refused (by simp)
  · exact .ok _

theorem understood_double (arg : Bytes) : Understood (double arg) := by
  rw [double]
  split
  · split <;> simp
  · simp

theorem understood_lifetime (command : String) (unit : TimeUnit) (arg : Bytes) :
    Understood (lifetime command unit arg) := by
  refine (understood_int64 arg).bind fun n => ?_
  split
  · exact .refused (by simp)
  · exact .ok _

theorem understood_signedLifetime (command : String) (unit : TimeUnit) (arg : Bytes) :
    Understood (signedLifetime command unit arg) := by
  refine (understood_int64 arg).bind fun n => ?_
  split <;> simp

theorem understood_negated (n : Int64) : Understood (negated n) := by
  rw [negated]
  split <;> simp

theorem understood_cursor (arg : Bytes) : Understood (cursor arg) := by
  rw [cursor]
  split <;> simp

theorem understood_setOptions (o : SetOptions) (words : List Bytes) : Understood (setOptions o words) := by
  fun_induction setOptions o words with
  | case4 => exact (understood_lifetime _ _ _).error ‹lifetime _ _ _ = _›
  | _ => first | assumption | simp

theorem understood_rangeOptions (mayReverse withScores descending : Bool) (words : List Bytes) :
    Understood (rangeOptions mayReverse withScores descending words) := by
  fun_induction rangeOptions mayReverse withScores descending words with
  | _ => first | assumption | simp

theorem understood_scanOptions (o : ScanOptions) (words : List Bytes) : Understood (scanOptions o words) := by
  fun_induction scanOptions o words with
  | case4 => exact (understood_count _).error ‹count _ = _›
  | _ => first | assumption | simp

end Arguments

namespace Grammar
open Arguments

theorem understood_one (command : String) {f : Bytes → Except Error KeyCommand} (hf : ∀ a, Understood (f a))
    (words : List Bytes) : Understood (one command f words) := by
  unfold one
  split
  · exact (hf _).map
  · simp

theorem understood_two (command : String) {f : Bytes → Bytes → Except Error KeyCommand}
    (hf : ∀ a b, Understood (f a b)) (words : List Bytes) : Understood (two command f words) := by
  unfold two
  split
  · exact (hf _ _).map
  · simp

theorem understood_three (command : String) {f : Bytes → Bytes → Bytes → Except Error KeyCommand}
    (hf : ∀ a b c, Understood (f a b c)) (words : List Bytes) : Understood (three command f words) := by
  unfold three
  split
  · exact (hf _ _ _).map
  · simp

theorem understood_some1 (command : String) {f : List Bytes → Except Error KeyCommand}
    (hf : ∀ as, Understood (f as)) (words : List Bytes) : Understood (some1 command f words) := by
  unfold some1
  split
  · simp
  · exact (hf _).map

theorem understood_some2 (command : String) {f : Bytes → List Bytes → Except Error KeyCommand}
    (hf : ∀ a as, Understood (f a as)) (words : List Bytes) : Understood (some2 command f words) := by
  unfold some2
  split
  · exact (hf _ _).map
  · simp

theorem understood_somePairs (command : String) {f : Bytes → List (Bytes × Bytes) → Except Error KeyCommand}
    (hf : ∀ a ps, Understood (f a ps)) (words : List Bytes) : Understood (somePairs command f words) := by
  unfold somePairs
  split
  · split
    · exact (hf _ _).map
    · simp
  · simp

theorem understood_set (words : List Bytes) : Understood (set words) := by
  unfold set
  split
  · exact (understood_setOptions _ _).map
  · simp

theorem understood_pop (command : String) (side : Side) (words : List Bytes) :
    Understood (pop command side words) := by
  unfold pop
  split
  · exact .ok _
  · exact (understood_count _).map
  · simp

theorem understood_zrange (command : String) (mayReverse : Bool) (words : List Bytes) :
    Understood (zrange command mayReverse words) := by
  unfold zrange
  split
  · exact (understood_rangeOptions _ _ _ _).bind fun _ => (understood_int64 _).bind fun _ =>
      (understood_int64 _).bind fun _ => .ok _
  · simp

theorem understood_zrangeByScore (words : List Bytes) : Understood (zrangeByScore words) := by
  unfold zrangeByScore
  split
  · rename_i key low high options
    have hbounds (withScores : Bool) : Understood do
        return Command.onKeys (.zrangeByScore key (← double low) (← double high) withScores) :=
      (understood_double _).bind fun _ => (understood_double _).bind fun _ => .ok _
    dsimp only
    split
    · exact hbounds _
    · split
      · exact hbounds _
      · exact .refused (by simp)
    · exact .refused (by simp)
  · simp

theorem understood_scoredMembers (pairs : List (Bytes × Bytes)) : Understood (scoredMembers pairs) := by
  induction pairs with
  | nil => exact .ok _
  | cons p rest ih => exact (understood_double _).bind fun _ => ih.bind fun _ => .ok _

theorem understood_info (words : List Bytes) : Understood (info words) := by
  unfold info
  split <;> simp

theorem understood_ping (words : List Bytes) : Understood (ping words) := by
  unfold ping
  split <;> simp

theorem understood_bare (command : String) (c : ServerCommand) (words : List Bytes) :
    Understood (bare command c words) := by
  unfold bare
  split <;> simp

theorem understood_config (words : List Bytes) : Understood (config words) := by
  unfold config
  split
  · simp
  · dsimp only
    generalize capitals _ = sub
    repeat' split
    all_goals simp

theorem understood_scan (words : List Bytes) : Understood (scan words) := by
  unfold scan
  split
  · simp
  · exact (understood_cursor _).bind fun _ => (understood_scanOptions _ _).bind fun _ => .ok _

theorem understood_publish (words : List Bytes) : Understood (publish words) := by
  unfold publish
  split <;> simp

theorem understood_pubsub (words : List Bytes) : Understood (pubsub words) := by
  unfold pubsub
  split
  · simp
  · dsimp only
    generalize capitals _ = sub
    repeat' split
    all_goals simp

/-- Once the verb is known, the words after it may be refused but do not make it unknown. -/
theorem understood_ofVerb (v : Verb) (words : List Bytes) : Understood (ofVerb v words) := by
  unfold ofVerb
  cases v with
  | get | incr | decr | ttl | pttl | persist | type | llen | hgetall | hkeys | hlen | smembers | scard
  | zcard => exact understood_one _ (fun _ => .ok _) words
  | rename | hget | hexists | sismember | zrank | zrevrank | zscore =>
    exact understood_two _ (fun _ _ => .ok _) words
  | incrby | lindex => exact understood_two _ (fun _ _ => (understood_int64 _).bind fun _ => .ok _) words
  | expire | pexpire =>
    exact understood_two _ (fun _ _ => (understood_signedLifetime _ _ _).bind fun _ => .ok _) words
  | decrby =>
    refine understood_two _ (fun _ _ => (understood_int64 _).bind fun _ => ?_) words
    exact (understood_negated _).bind fun _ => .ok _
  | setex | psetex =>
    exact understood_three _ (fun _ _ _ => (understood_lifetime _ _ _).bind fun _ => .ok _) words
  | hincrby => exact understood_three _ (fun _ _ _ => (understood_int64 _).bind fun _ => .ok _) words
  | zincrby => exact understood_three _ (fun _ _ _ => (understood_double _).bind fun _ => .ok _) words
  | lrange =>
    refine understood_three _ (fun _ _ _ => (understood_int64 _).bind fun _ => ?_) words
    exact (understood_int64 _).bind fun _ => .ok _
  | mget | present | del | unlink | sinter | sunion | sdiff =>
    exact understood_some1 _ (fun _ => .ok _) words
  | lpush | rpush | lpushx | rpushx | hmget | hdel | sadd | srem | zrem =>
    exact understood_some2 _ (fun _ _ => .ok _) words
  | hset | hmset => exact understood_somePairs _ (fun _ _ => .ok _) words
  | zadd => exact understood_somePairs _ (fun _ _ => (understood_scoredMembers _).bind fun _ => .ok _) words
  | set => exact understood_set words
  | lpop | rpop => exact understood_pop _ _ words
  | zrange | zrevrange => exact understood_zrange _ _ words
  | zrangebyscore => exact understood_zrangeByScore words
  | ping => exact understood_ping words
  | dbsize | flushdb => exact understood_bare _ _ words
  | info => exact understood_info words
  | config => exact understood_config words
  | scan => exact understood_scan words
  | publish => exact understood_publish words
  | pubsub => exact understood_pubsub words
  | subscribe | unsubscribe | psubscribe | punsubscribe => simp

end Grammar
namespace Command
open Text Text.Utf8

theorem ofWords_eq_unknown_iff (word : Bytes) (args : List Bytes) (name : String) :
    ofWords (word :: args) = .error (.unknownCommand name) ↔
      name = lossy word ∧ ¬ Verb.Named (spelledOut word) := by
  rw [← Verb.ofBytes?_eq_none_iff, ofWords]
  cases hverb : Verb.ofBytes? word with
  | none => simp [eq_comm]
  | some v => simp [Grammar.understood_ofVerb v args name]

/-- A word is an unknown command just when it spells no name once its lookalikes are spelled out; so without
lookalikes just when it spells no name itself, in any case of ASCII, and whenever it is not UTF-8. A word that
spells the name of a verb has this verb, and subscriptions are refused for want of a subscriber. -/
theorem known_by_letters (word : Bytes) (args : List Bytes) :
    (∀ name, ofWords (word :: args) = .error (.unknownCommand name) ↔
      name = lossy word ∧ ¬ Verb.Named (spelledOut word)) ∧
    ((∀ c ∈ (lossy word).toList, isLookalike c = false) → ∀ name,
      ofWords (word :: args) = .error (.unknownCommand name) ↔ name = lossy word ∧ ¬ Verb.Named word) ∧
    (decode? word = none → ofWords (word :: args) = .error (.unknownCommand (lossy word))) ∧
    (∀ e ∈ Verb.table, word.isWord e.1 = true → ofWords (word :: args) = Grammar.ofVerb e.2 args) ∧
    ∀ e ∈ [("subscribe", Verb.subscribe), ("unsubscribe", .unsubscribe), ("psubscribe", .psubscribe),
      ("punsubscribe", .punsubscribe)], Grammar.ofVerb e.2 args = .error (.needsSubscriber e.1) := by
  refine ⟨ofWords_eq_unknown_iff word args, fun h name => ?_, fun h => ?_, fun e he hword => ?_, ?_⟩
  · rw [ofWords_eq_unknown_iff, Verb.named_spelledOut_iff h]
  · refine (ofWords_eq_unknown_iff ..).mpr ⟨rfl, ?_⟩
    rintro ⟨e, he, hword⟩
    rw [spelledOut_of_malformed (Verb.isUpper_of_mem_table e he) h] at hword
    cases hword
  · have hspelled : (spelledOut word).isWord e.1 = true := by
      rwa [spelledOut_of_isWord (Verb.isUpper_of_mem_table e he) hword]
    rw [ofWords, (Verb.ofBytes?_eq_some_iff word e.2).mpr ⟨e.1, he, hspelled⟩]
  · simp [Grammar.ofVerb]

/-- A verb in mixed case, and an accented one. -/
theorem known_by_letters_of_words :
    ofWords [Bytes.ofString "gEt", [107]] = Grammar.ofVerb .get [[107]] ∧
      ofWords [Bytes.ofString "gét", [107]] = .error (.unknownCommand "gét") ∧
      ofWords [[0x47, 0x45, 0xFF, 0x54], [107]] = .error (.unknownCommand "GE\uFFFDT") := by
  obtain ⟨-, -, -, hverb, -⟩ := known_by_letters (Bytes.ofString "gEt") [[107]]
  obtain ⟨-, hplain, -⟩ := known_by_letters (Bytes.ofString "gét") [[107]]
  obtain ⟨-, -, hmalformed, -⟩ := known_by_letters [0x47, 0x45, 0xFF, 0x54] [[107]]
  refine ⟨hverb ("GET", .get) (by decide) (by decide), ?_, ?_⟩
  · have hnone : (lossy (Bytes.ofString "gét")).toList.any isLookalike = false := by decide
    have hnone := fun c hc => Bool.eq_false_iff.mpr (List.any_eq_false.mp hnone c hc)
    exact (hplain hnone _).mpr ⟨by decide, by decide⟩
  · exact (hmalformed (by decide)).trans (by decide)

/-- The long s is not a letter of ASCII, yet its capital is: a word with it is taken for SET. -/
theorem long_s_taken :
    ¬ ((∃ name, ofWords [Bytes.ofString "ſET", [107], [118]] = .error (.unknownCommand name)) ↔
      ¬ Verb.Named (Bytes.ofString "ſET")) := by
  have htaken : ofWords [Bytes.ofString "ſET", [107], [118]] = .ok (.onKeys (.set [107] [118] {})) := by decide
  have hforeign : ¬ Verb.Named (Bytes.ofString "ſET") := by decide
  rw [htaken]
  exact fun h => nomatch h.mpr hforeign

end Command
end KeyStore
