/-! Byte strings: the keys, fields, members and payloads of the store. -/
namespace KeyStore

abbrev Bytes := List UInt8

abbrev Key := Bytes

namespace Bytes

def ofString (s : String) : Bytes := s.toList.flatMap String.utf8EncodeChar

/-- Lower-cases the twenty-six ASCII capitals and keeps every other byte. -/
def toLower (b : UInt8) : UInt8 := if 65 ≤ b ∧ b ≤ 90 then b + 32 else b

def sameWord (a b : Bytes) : Bool := a.map toLower == b.map toLower

/-- Whether an argument spells a keyword, in any ASCII case. -/
def isWord (a : Bytes) (word : String) : Bool := a.sameWord (ofString word)

theorem isWord_of_isWord {a : Bytes} {word other : String} (ha : a.isWord word = true)
    (hne : (ofString word).isWord other = false) : a.isWord other = false := by
  rw [isWord, sameWord, beq_iff_eq] at ha
  rw [isWord, sameWord, ha]
  exact hne

end Bytes
end KeyStore
