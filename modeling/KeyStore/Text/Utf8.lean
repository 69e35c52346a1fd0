import KeyStore.Bytes

/-! UTF-8: reading bytes as text. Ill-formed input is cut into the longest pieces that begin a
character and no more, and each such piece stands for one replacement character. -/
namespace KeyStore
namespace Text
namespace Utf8

/-- What a leading byte announces: the number of bytes that follow it, the range of the first of
them, and the bits it contributes. The ranges leave out overlong forms, surrogates and numbers
beyond U+10FFFF. -/
structure Lead where
  following : Nat
  low : Nat
  high : Nat
  bits : Nat
deriving DecidableEq, Repr

def Lead.ofByte? (b : Nat) : Option Lead :=
  if b < 0x80 then some ⟨0, 0x80, 0xBF, b⟩
  else if b < 0xC2 then none
  else if b < 0xE0 then some ⟨1, 0x80, 0xBF, b - 0xC0⟩
  else if b < 0xF0 then
    some ⟨2, if b = 0xE0 then 0xA0 else 0x80, if b = 0xED then 0x9F else 0xBF, b - 0xE0⟩
  else if b < 0xF5 then
    some ⟨3, if b = 0xF0 then 0x90 else 0x80, if b = 0xF4 then 0x8F else 0xBF, b - 0xF0⟩
  else none

/-- Collects `following` bytes, the first between `low` and `high`. Gives the code point if none
is missing, and the number of bytes taken. -/
def gather (low high acc : Nat) : Nat → Bytes → Option Nat × Nat
  | 0, _ => (some acc, 0)
  | _ + 1, [] => (none, 0)
  | n + 1, b :: bs =>
    if low ≤ b.toNat ∧ b.toNat ≤ high then
      let r := gather 0x80 0xBF (acc * 64 + b.toNat % 64) n bs
      (r.1, r.2 + 1)
    else (none, 0)

/-- The character at the front, if well-formed, and how many bytes after the first belong to it. -/
def next (b : UInt8) (rest : Bytes) : Option Char × Nat :=
  match Lead.ofByte? b.toNat with
  | none => (none, 0)
  | some l =>
    let r := gather l.low l.high l.bits l.following rest
    (r.1.map Char.ofNat, r.2)

def piecesFrom : Nat → Bytes → List (Option Char)
  | _, [] => []
  | skip + 1, _ :: rest => piecesFrom skip rest
  | 0, b :: rest => (next b rest).1 :: piecesFrom (next b rest).2 rest

/-- The characters of a byte string, `none` for each ill-formed piece. -/
def pieces (bs : Bytes) : List (Option Char) := piecesFrom 0 bs

def decode? (bs : Bytes) : Option String := ((pieces bs).mapM id).map String.ofList

/-- The text of a byte string with U+FFFD for each ill-formed piece. -/
def lossy (bs : Bytes) : String := String.ofList ((pieces bs).map (·.getD '\uFFFD'))

end Utf8
end Text
end KeyStore
