import KeyStore.Engine
import KeyStore.Reply.Display
import KeyStore.Text.CodePoint

/-! The console: a command on each line of the input, its reply on the output. -/
namespace KeyStore
namespace Console

/-- The last word of a line, if one has begun; it is kept back to front. -/
def lastWord (word : Option (List Char)) : List String :=
  word.toList.map fun cs => String.ofList cs.reverse

/-- Splits what follows a word that has begun, inside or outside quotation marks. -/
def split (quoted : Bool) (word : Option (List Char)) : List Char → List String
  | [] => lastWord word
  | '"' :: cs => split (!quoted) (some (word.getD [])) cs
  | '\\' :: d :: cs =>
    if quoted then split quoted (some (d :: word.getD [])) cs
    else split quoted (some ('\\' :: word.getD [])) (d :: cs)
  | c :: cs =>
    if c = '\\' && quoted then lastWord word
    else if Text.isBlank c && !quoted then lastWord word ++ split false none cs
    else split quoted (some (c :: word.getD [])) cs

/-- The words of a line. Blanks separate them, quotation marks hold blanks together, and between
quotation marks a backslash takes the next character as it is. -/
def words (line : String) : List String := split false none line.toList

/-- The lines of the input, without the line feed that ends them and a carriage return before it.
`line` is the one that has begun, back to front. -/
def linesFrom (line : Bytes) : Bytes → List Bytes
  | [] => if line.isEmpty then [] else [line.reverse]
  | 10 :: rest =>
    (match line with
      | 13 :: line => line.reverse
      | line => line.reverse) :: linesFrom [] rest
  | b :: rest => linesFrom (b :: line) rest

def lines (input : Bytes) : List Bytes := linesFrom [] input

/-- The words of a command on a line; none on a blank line, and `none` for a line that is no
well-formed text. -/
def command? (line : Bytes) : Option (List Bytes) :=
  (Text.Utf8.decode? line).map fun s => (words s).map Bytes.ofString

def print : Outcome → String
  | .ok reply => reply.display ++ "\n"
  | .error e => "(error) " ++ e.message ++ "\n"

/-- A session between two lines. With a batch, commands wait in it for the end of the input. -/
structure Session (Q : Type) where
  engine : Engine Q
  batch : Option Batch

inductive Turn (Q : Type)
  /-- The line is no text, and the session ends. -/
  | stop
  /-- Nothing is printed. -/
  | pass (s : Session Q)
  /-- A text is printed; what follows depends on how many nanoseconds the command took. -/
  | reply (text : String) (after : Nat → Session Q)

/-- What is printed for a command, and the engine after it once its time is known. -/
def respond (e : Engine Q) (c : Except Error Command) : String × (Nat → Engine Q) :=
  match c with
  | .ok c =>
    let (out, e) := e.perform c
    (print out, fun nanos => e.record c.name nanos out)
  | .error err => (print (.error err), fun _ => e)

theorem respond_eq (e : Engine Q) (c : Except Error Command) (nanos : Nat) :
    (respond e c).1 = print (e.executeParsed c nanos).1 ∧
      (respond e c).2 nanos = (e.executeParsed c nanos).2 := by
  cases c <;> exact ⟨rfl, rfl⟩

def Session.turn (s : Session Q) (line : Bytes) : Turn Q :=
  match command? line with
  | none => .stop
  | some [] => .pass s
  | some (word :: args) =>
    match s.batch with
    | some b => .pass { s with batch := some (b.pushWords (word :: args)) }
    | none =>
      let (text, after) := respond s.engine (Command.ofWords (word :: args))
      .reply text fun nanos => { s with engine := after nanos }

/-- What a session leaves: its exit code and what it printed, outcome by outcome. -/
structure Transcript where
  exitCode : Nat
  printed : List String
deriving DecidableEq, Repr

def Transcript.output (t : Transcript) : String := String.join t.printed

/-- Takes line by line in and runs the batch in the end; the `i`-th command takes `nanos i`. -/
def Session.run (nanos : Nat → Nat) : Nat → List Bytes → Session Q → Transcript
  | _, [], s => ⟨0, s.batch.elim [] fun b => (b.run s.engine nanos).1.map print⟩
  | i, line :: lines, s =>
    match s.turn line with
    | .stop => ⟨1, []⟩
    | .pass s => run nanos i lines s
    | .reply text after =>
      let rest := run nanos (i + 1) lines (after (nanos i))
      { rest with printed := text :: rest.printed }

def Session.new (args : List String) (base : Base Q) : Session Q where
  engine := .new (Config.ofArgs args) base
  batch := if args.contains "--pipeline" then some .empty else none

/-- A session at one reading of the clock. -/
def session (args : List String) (base : Base Q) (nanos : Nat → Nat) (input : Bytes) : Transcript :=
  (Session.new args base).run nanos 0 (lines input)

end Console
end KeyStore
