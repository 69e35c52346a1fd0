import KeyStore.Text.Utf8

/-! UTF-8 there and back: every text is read from the bytes it is written with, and from no others. -/
namespace KeyStore
namespace Text

theorem toNat_char {v : Nat} (hv : v.isValidChar) : (Char.ofNat v).toNat = v := by
  rw [Char.ofNat, dif_pos hv]
  rfl

namespace Utf8

theorem toNat_ofNat {n : Nat} (h : n < 256) : (UInt8.ofNat n).toNat = n := by
  rw [UInt8.toNat_ofNat']
  exact Nat.mod_eq_of_lt h

theorem gather_cons {low high acc n bits : Nat} (hbits : bits < 64) (hlow : low ≤ bits + 128)
    (hhigh : bits + 128 ≤ high) (bs : Bytes) :
    gather low high acc (n + 1) (UInt8.ofNat (bits + 128) :: bs) =
      ((gather 0x80 0xBF (acc * 64 + bits) n bs).1,
        (gather 0x80 0xBF (acc * 64 + bits) n bs).2 + 1) := by
  have hbyte : (UInt8.ofNat (bits + 128)).toNat = bits + 128 := toNat_ofNat (by omega)
  have hmod : (bits + 128) % 64 = bits := by omega
  rw [gather, hbyte, if_pos ⟨hlow, hhigh⟩, hmod]

theorem next_encode (c : Char) (rest : Bytes) :
    ∃ b tail, String.utf8EncodeChar c = b :: tail ∧
      next b (tail ++ rest) = (some c, tail.length) := by
  have hvalid : c.val.toNat < 0xD800 ∨ 0xDFFF < c.val.toNat ∧ c.val.toNat < 0x110000 := c.valid
  have hc : ∀ n, n = c.val.toNat → Char.ofNat n = c := fun n hn => hn ▸ Char.ofNat_toNat c
  rw [String.utf8EncodeChar]
  generalize c.val.toNat = v at hvalid hc
  split
  · refine ⟨_, [], rfl, ?_⟩
    rw [next, toNat_ofNat (by omega), Lead.ofByte?, if_pos (by omega)]
    simp [gather, hc]
  · split
    · refine ⟨_, [_], rfl, ?_⟩
      rw [next, toNat_ofNat (by omega), Lead.ofByte?, if_neg (by omega), if_neg (by omega),
        if_pos (by omega)]
      dsimp only [List.cons_append]
      rw [gather_cons (by omega) (by omega) (by omega)]
      simp only [gather, Option.map_some, List.length_cons, List.length_nil]
      rw [hc _ (by omega)]
    · split
      · refine ⟨_, [_, _], rfl, ?_⟩
        rw [next, toNat_ofNat (by omega), Lead.ofByte?, if_neg (by omega), if_neg (by omega),
          if_neg (by omega), if_pos (by omega)]
        dsimp only [List.cons_append]
        rw [gather_cons (by omega) (by split <;> omega) (by split <;> omega),
          gather_cons (by omega) (by omega) (by omega)]
        simp only [gather, Option.map_some, List.length_cons, List.length_nil]
        rw [hc _ (by omega)]
      · refine ⟨_, [_, _, _], rfl, ?_⟩
        rw [next, toNat_ofNat (by omega), Lead.ofByte?, if_neg (by omega), if_neg (by omega),
          if_neg (by omega), if_neg (by omega), if_pos (by omega)]
        dsimp only [List.cons_append]
        rw [gather_cons (by omega) (by split <;> omega) (by split <;> omega),
          gather_cons (by omega) (by omega) (by omega), gather_cons (by omega) (by omega) (by omega)]
        simp only [gather, Option.map_some, List.length_cons, List.length_nil]
        rw [hc _ (by omega)]

theorem encodeChar_of_ascii {c : Char} (hc : c.toNat < 128) :
    String.utf8EncodeChar c = [UInt8.ofNat c.toNat] := by
  have hshort : c.val.toNat ≤ 0x7f := Nat.le_of_lt_succ hc
  rw [String.utf8EncodeChar, if_pos hshort]
  rfl

theorem le_of_mem_encodeChar {c : Char} (hc : 128 ≤ c.toNat) {b : UInt8} (hb : b ∈ String.utf8EncodeChar c) :
    128 ≤ b.toNat := by
  have hlong : ∀ n, 128 ≤ n → n < 256 → b = UInt8.ofNat n → 128 ≤ b.toNat := by
    rintro n hlow hhigh rfl
    rwa [toNat_ofNat hhigh]
  have hv : ¬ c.val.toNat ≤ 0x7f := Nat.not_le.mpr hc
  rw [String.utf8EncodeChar, if_neg hv] at hb
  generalize c.val.toNat = v at hb
  split at hb
  · simp only [List.mem_cons, List.not_mem_nil, or_false] at hb
    rcases hb with hb | hb <;> exact hlong _ (by omega) (by omega) hb
  · split at hb
    · simp only [List.mem_cons, List.not_mem_nil, or_false] at hb
      rcases hb with hb | hb | hb <;> exact hlong _ (by omega) (by omega) hb
    · simp only [List.mem_cons, List.not_mem_nil, or_false] at hb
      rcases hb with hb | hb | hb | hb <;> exact hlong _ (by omega) (by omega) hb

theorem encode_of_ascii_mem {c : Char} {b : UInt8} (hb : b.toNat < 128)
    (h : b ∈ String.utf8EncodeChar c) : String.utf8EncodeChar c = [b] := by
  have hc : c.toNat < 128 := Nat.lt_of_not_le fun hc => Nat.not_lt.mpr (le_of_mem_encodeChar hc h) hb
  rw [encodeChar_of_ascii hc] at h ⊢
  rw [List.mem_singleton.mp h]

theorem ofNat_eq {n : Nat} {b : UInt8} (h : n = b.toNat) : UInt8.ofNat n = b := by
  rw [h, UInt8.ofNat_toNat]

theorem gather_succ_eq_some {low high acc n v k : Nat} {bs : Bytes}
    (h : gather low high acc (n + 1) bs = (some v, k)) :
    ∃ b rest m, bs = b :: rest ∧ k = m + 1 ∧ (low ≤ b.toNat ∧ b.toNat ≤ high) ∧
      gather 0x80 0xBF (acc * 64 + b.toNat % 64) n rest = (some v, m) := by
  cases bs with
  | nil => cases h
  | cons b rest =>
    rw [gather] at h
    split at h
    · rename_i hrange
      obtain ⟨hv, hk⟩ := Prod.mk.inj h
      exact ⟨b, rest, _, rfl, hk.symm, hrange, Prod.ext hv rfl⟩
    · cases h

section
variable {b b₁ b₂ b₃ : UInt8}

theorem encodeChar_of_two (hb : 0xC2 ≤ b.toNat ∧ b.toNat < 0xE0) (h₁ : 0x80 ≤ b₁.toNat ∧ b₁.toNat ≤ 0xBF) :
    String.utf8EncodeChar (Char.ofNat ((b.toNat - 0xC0) * 64 + b₁.toNat % 64)) = [b, b₁] := by
  generalize hv : (b.toNat - 0xC0) * 64 + b₁.toNat % 64 = v
  have hcode : (Char.ofNat v).val.toNat = v := toNat_char (.inl (by omega))
  rw [String.utf8EncodeChar, hcode, if_neg (by omega), if_pos (by omega), ofNat_eq (b := b) (by omega),
    ofNat_eq (b := b₁) (by omega)]

/-- Three bytes. The range of the second leaves out what two bytes write, and the surrogates. -/
theorem encodeChar_of_three (hb : 0xE0 ≤ b.toNat ∧ b.toNat < 0xF0)
    (h₁ : (if b.toNat = 0xE0 then 0xA0 else 0x80) ≤ b₁.toNat ∧ b₁.toNat ≤ if b.toNat = 0xED then 0x9F else 0xBF)
    (h₂ : 0x80 ≤ b₂.toNat ∧ b₂.toNat ≤ 0xBF) :
    String.utf8EncodeChar (Char.ofNat (((b.toNat - 0xE0) * 64 + b₁.toNat % 64) * 64 + b₂.toNat % 64)) =
      [b, b₁, b₂] := by
  generalize hv : ((b.toNat - 0xE0) * 64 + b₁.toNat % 64) * 64 + b₂.toNat % 64 = v
  obtain ⟨hrange, hlow, hgap⟩ : (0x80 ≤ b₁.toNat ∧ b₁.toNat ≤ 0xBF) ∧ 0x800 ≤ v ∧ (v < 0xD800 ∨ 0xDFFF < v) := by
    split at h₁ <;> split at h₁ <;> omega
  have hcode : (Char.ofNat v).val.toNat = v := toNat_char (hgap.imp_right fun h => ⟨h, by omega⟩)
  rw [String.utf8EncodeChar, hcode, if_neg (by omega), if_neg (by omega), if_pos (by omega),
    ofNat_eq (b := b) (by omega), ofNat_eq (b := b₁) (by omega), ofNat_eq (b := b₂) (by omega)]

/-- Four bytes. The range of the second leaves out what three bytes write, and numbers beyond U+10FFFF. -/
theorem encodeChar_of_four (hb : 0xF0 ≤ b.toNat ∧ b.toNat < 0xF5)
    (h₁ : (if b.toNat = 0xF0 then 0x90 else 0x80) ≤ b₁.toNat ∧ b₁.toNat ≤ if b.toNat = 0xF4 then 0x8F else 0xBF)
    (h₂ : 0x80 ≤ b₂.toNat ∧ b₂.toNat ≤ 0xBF) (h₃ : 0x80 ≤ b₃.toNat ∧ b₃.toNat ≤ 0xBF) :
    String.utf8EncodeChar
      (Char.ofNat ((((b.toNat - 0xF0) * 64 + b₁.toNat % 64) * 64 + b₂.toNat % 64) * 64 + b₃.toNat % 64)) =
      [b, b₁, b₂, b₃] := by
  generalize hv : (((b.toNat - 0xF0) * 64 + b₁.toNat % 64) * 64 + b₂.toNat % 64) * 64 + b₃.toNat % 64 = v
  obtain ⟨hrange, hlow, hhigh⟩ : (0x80 ≤ b₁.toNat ∧ b₁.toNat ≤ 0xBF) ∧ 0x10000 ≤ v ∧ v < 0x110000 := by
    split at h₁ <;> split at h₁ <;> omega
  have hcode : (Char.ofNat v).val.toNat = v := toNat_char (.inr ⟨by omega, hhigh⟩)
  rw [String.utf8EncodeChar, hcode, if_neg (by omega), if_neg (by omega), if_neg (by omega),
    ofNat_eq (b := b) (by omega), ofNat_eq (b := b₁) (by omega), ofNat_eq (b := b₂) (by omega),
    ofNat_eq (b := b₃) (by omega)]

end

theorem encode_of_next {b : UInt8} {rest : Bytes} {c : Char} {k : Nat} (h : next b rest = (some c, k)) :
    String.utf8EncodeChar c = b :: rest.take k := by
  rw [next] at h
  split at h
  · cases h
  rename_i l hlead
  obtain ⟨hc, hk⟩ := Prod.mk.inj h
  obtain ⟨v, hv, rfl⟩ := Option.map_eq_some_iff.mp hc
  have hgather : gather l.low l.high l.bits l.following rest = (some v, k) := Prod.ext hv hk
  -- by what the leading byte announces: no following byte, none allowed, one, two or three
  rw [Lead.ofByte?] at hlead
  split at hlead
  · rename_i hb
    cases hlead
    cases hgather
    have hcode : (Char.ofNat b.toNat).toNat = b.toNat := toNat_char (.inl (by omega))
    rw [encodeChar_of_ascii (hcode.symm ▸ hb), hcode, ofNat_eq rfl, List.take_zero]
  split at hlead
  · cases hlead
  split at hlead
  · cases hlead
    obtain ⟨b₁, rest, _, rfl, rfl, h₁, hdone⟩ := gather_succ_eq_some hgather
    cases hdone
    exact encodeChar_of_two ⟨by omega, by omega⟩ h₁
  split at hlead
  · cases hlead
    obtain ⟨b₁, rest, _, rfl, rfl, h₁, hgather⟩ := gather_succ_eq_some hgather
    obtain ⟨b₂, rest, _, rfl, rfl, h₂, hdone⟩ := gather_succ_eq_some hgather
    cases hdone
    exact encodeChar_of_three ⟨by omega, by omega⟩ h₁ h₂
  split at hlead
  · cases hlead
    obtain ⟨b₁, rest, _, rfl, rfl, h₁, hgather⟩ := gather_succ_eq_some hgather
    obtain ⟨b₂, rest, _, rfl, rfl, h₂, hgather⟩ := gather_succ_eq_some hgather
    obtain ⟨b₃, rest, _, rfl, rfl, h₃, hdone⟩ := gather_succ_eq_some hgather
    cases hdone
    exact encodeChar_of_four ⟨by omega, by omega⟩ h₁ h₂ h₃
  · cases hlead

abbrev encode (cs : List Char) : Bytes := cs.flatMap String.utf8EncodeChar

theorem encode_of_ascii {cs : List Char} (hcs : ∀ c ∈ cs, c.toNat < 128) :
    encode cs = cs.map fun c => UInt8.ofNat c.toNat := by
  induction cs with
  | nil => rfl
  | cons c cs ih =>
    obtain ⟨hc, hcs⟩ := List.forall_mem_cons.mp hcs
    rw [encode, List.flatMap_cons, ← encode, ih hcs, encodeChar_of_ascii hc]
    rfl

theorem piecesFrom_append (skipped rest : Bytes) :
    piecesFrom skipped.length (skipped ++ rest) = piecesFrom 0 rest := by
  induction skipped with
  | nil => rfl
  | cons b skipped ih => exact ih

theorem pieces_encode (cs : List Char) : pieces (encode cs) = cs.map some := by
  induction cs with
  | nil => rfl
  | cons c cs ih =>
    obtain ⟨b, tail, hencode, hnext⟩ := next_encode c (encode cs)
    rw [encode, List.flatMap_cons, hencode, List.cons_append, pieces, piecesFrom, hnext, piecesFrom_append]
    exact congrArg (some c :: ·) ih

theorem piecesFrom_eq_drop (skip : Nat) (bs : Bytes) : piecesFrom skip bs = piecesFrom 0 (bs.drop skip) := by
  induction skip generalizing bs with
  | zero => rfl
  | succ skip ih =>
    cases bs with
    | nil => rfl
    | cons b rest => exact ih rest

theorem encode_injective {cs ds : List Char} (h : encode cs = encode ds) : cs = ds := by
  have hpieces := congrArg pieces h
  rw [pieces_encode, pieces_encode] at hpieces
  exact (List.map_inj_right fun _ _ => Option.some.inj).mp hpieces

theorem encode_of_pieces {bs : Bytes} {cs : List Char} (h : pieces bs = cs.map some) : encode cs = bs := by
  induction cs generalizing bs with
  | nil =>
    cases bs with
    | nil => rfl
    | cons b rest => cases h
  | cons c cs ih =>
    cases bs with
    | nil => cases h
    | cons b rest =>
      obtain ⟨hc, hcs⟩ := List.cons.inj h
      have hnext : next b rest = (some c, (next b rest).2) := Prod.ext hc rfl
      rw [piecesFrom_eq_drop] at hcs
      rw [encode, List.flatMap_cons, encode_of_next hnext, ← encode, ih hcs, List.cons_append, List.take_append_drop]

theorem mapM_id_cons (a : α) (os : List (Option α)) : (some a :: os).mapM id = (os.mapM id).map (a :: ·) := by
  rw [List.mapM_cons]
  cases os.mapM id <;> rfl

theorem mapM_id_eq_some_iff (os : List (Option α)) (as : List α) : os.mapM id = some as ↔ os = as.map some := by
  induction os generalizing as with
  | nil => cases as <;> simp
  | cons o os ih =>
    cases o with
    | none => cases as <;> simp
    | some a =>
      rw [mapM_id_cons]
      cases as with
      | nil => simp
      | cons b as =>
        rw [Option.map_eq_some_iff, List.map_cons, List.cons.injEq, Option.some.injEq, ← ih, and_comm]
        simp

theorem mapM_id_eq_none_iff (os : List (Option α)) : os.mapM id = none ↔ none ∈ os := by
  induction os with
  | nil => simp
  | cons o os ih =>
    cases o with
    | none => simp
    | some a =>
      rw [mapM_id_cons, Option.map_eq_none_iff, ih]
      simp

theorem decode_ofString (s : String) : decode? (Bytes.ofString s) = some s := by
  have hall := (mapM_id_eq_some_iff _ s.toList).mpr (pieces_encode s.toList)
  rw [decode?, Bytes.ofString, hall, Option.map_some, String.ofList_toList]

theorem decode_eq_some_iff (bs : Bytes) (s : String) : decode? bs = some s ↔ bs = Bytes.ofString s := by
  constructor
  · intro h
    obtain ⟨cs, hcs, rfl⟩ := Option.map_eq_some_iff.mp h
    rw [Bytes.ofString, String.toList_ofList]
    exact (encode_of_pieces ((mapM_id_eq_some_iff ..).mp hcs)).symm
  · rintro rfl
    exact decode_ofString s

end Utf8
end Text
end KeyStore
