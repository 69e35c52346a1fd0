import KeyStore.Double.Shortest
import KeyStore.Reply
import KeyStore.Text.GraphemeExtend
import KeyStore.Text.Unprintable
import KeyStore.Text.Utf8

/-! Replies on the console: one line for each scalar, the elements of a collection numbered from
one and indented by three for each collection around them. -/
namespace KeyStore

namespace Text

/-- Whether a character joins the one before it. The halfwidth marks for voiced sounds are
extenders, but they stand in a cell of their own. -/
def joinsPrevious (c : Char) : Bool := isGraphemeExtend c && c != '\uFF9E' && c != '\uFF9F'

def quotedChar (c : Char) : List Char :=
  if c = '\x00' then ['\\', '0']
  else if c = '\t' then ['\\', 't']
  else if c = '\r' then ['\\', 'r']
  else if c = '\n' then ['\\', 'n']
  else if c = '"' ∨ c = '\\' then ['\\', c]
  else if joinsPrevious c || isUnprintable c then
    ['\\', 'u', '\x7b'] ++ Nat.toDigits 16 c.toNat ++ ['\x7d']
  else [c]

def quoted (s : String) : List Char := '"' :: s.toList.flatMap quotedChar ++ ['"']

end Text

namespace Reply

/-- The start of an element: a new line with its indent for all but the first. It is assumed that an indent may
have any width. -/
def newLine (first : Bool) (indent : Nat) : List Char :=
  if first then [] else '\n' :: List.replicate indent ' '

def number (n : Nat) : List Char := Nat.toDigits 10 n

mutual

/-- The text of a reply that begins `indent` characters into a line. -/
def render (indent : Nat) : Reply → List Char
  | ok => "OK".toList
  | status text => text.toList
  | nil => "(nil)".toList
  | integer n => "(integer) ".toList ++ (toString n).toList
  | bool b => "(integer) ".toList ++ [if b then '1' else '0']
  | double x => "(double) ".toList ++ x.text
  | bulk bytes => Text.quoted (Text.Utf8.lossy bytes)
  | array [] => "(empty array)".toList
  | array items => renderItems indent 1 items
  | map [] => "(empty hash)".toList
  | map pairs => renderPairs indent 1 pairs

def renderItems (indent n : Nat) : List Reply → List Char
  | [] => []
  | item :: items =>
    newLine (n == 1) indent ++ number n ++ ") ".toList ++ render (indent + 3) item ++
      renderItems indent (n + 1) items

def renderPairs (indent n : Nat) : List (Bytes × Reply) → List Char
  | [] => []
  | (field, value) :: pairs =>
    newLine (n == 1) indent ++ number n ++ "# ".toList ++ Text.quoted (Text.Utf8.lossy field) ++
      " => ".toList ++ render (indent + 3) value ++ renderPairs indent (n + 1) pairs

end

def display (r : Reply) : String := String.ofList (render 0 r)

end Reply
end KeyStore
