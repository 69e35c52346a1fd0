import KeyStore.Console
import KeyStore.Proofs.Encoding
import KeyStore.Proofs.Times

/-! Sessions. A batch does what its commands do when they are called one after the other, and so a
session prints the same whether its lines are run as they come or as one batch. -/
namespace KeyStore

def callsFrom (nanos : Nat → Nat) : Nat → List (List Bytes) → List Event
  | _, [] => []
  | i, words :: rest => .call words (nanos i) :: callsFrom nanos (i + 1) rest

namespace Batch

theorem length_runFrom (nanos : Nat → Nat) (cs : List (Except Error Command)) (i : Nat) (e : Engine Q) :
    (runFrom nanos i cs e).1.length = cs.length := by
  induction cs generalizing i e with
  | nil => rfl
  | cons c cs ih => exact congrArg (· + 1) (ih (i + 1) _)

theorem queued_pushEach (argvs : List (List Bytes)) (b : Batch) :
    (argvs.foldl pushWords b).queued.toList = b.queued.toList ++ argvs.map Command.ofWords := by
  induction argvs generalizing b with
  | nil => simp
  | cons words argvs ih => simp [ih, pushWords]

end Batch

namespace Engine

theorem calls_eq_runFrom (nanos : Nat → Nat) (argvs : List (List Bytes)) (i : Nat) (e : Engine Q) :
    e.transcript (callsFrom nanos i argvs) =
        (argvs.map Command.ofWords).zip
          (Batch.runFrom nanos i (argvs.map Command.ofWords) e).1 ∧
      e.run (callsFrom nanos i argvs) =
        (Batch.runFrom nanos i (argvs.map Command.ofWords) e).2 := by
  induction argvs generalizing i e with
  | nil => exact ⟨rfl, rfl⟩
  | cons words argvs ih =>
    obtain ⟨htranscript, hrun⟩ := ih (i + 1) (e.call words (nanos i)).2
    exact ⟨congrArg ((Command.ofWords words, (e.call words (nanos i)).1) :: ·) htranscript, hrun⟩

theorem batch_as_calls (e : Engine Q) (argvs : List (List Bytes)) (nanos nanos' : Nat → Nat) :
    let b := argvs.foldl Batch.pushWords .empty
    let calls := callsFrom nanos' 0 argvs
    (b.run e nanos).1.length = argvs.length ∧
    List.Forall₂ SameAnswer (e.answers (.batch b nanos)) (e.transcript calls) ∧
    SameButTimes (b.run e nanos).2 (e.run calls) ∧
    (nanos = nanos' →
      e.answers (.batch b nanos) = e.transcript calls ∧ (b.run e nanos).2 = e.run calls) := by
  intro b calls
  have hqueued : b.queued.toList = argvs.map Command.ofWords := Batch.queued_pushEach argvs .empty
  have hlength := Batch.length_runFrom nanos (argvs.map Command.ofWords) 0 e
  rw [List.length_map] at hlength
  obtain ⟨htranscript, hrun⟩ := e.calls_eq_runFrom nanos' argvs 0
  obtain ⟨hanswers, hend⟩ :=
    (SameButTimes.refl e).runFrom (argvs.map Command.ofWords) nanos nanos' 0
  simp only [answers, Batch.run, hqueued, calls, htranscript, hrun]
  refine ⟨hlength, hanswers, hend, ?_⟩
  rintro rfl
  exact ⟨rfl, rfl⟩

end Engine

namespace Console
open Text.Utf8 (encode encode_of_ascii_mem)

theorem linesFrom_append (bytes rest : Bytes) (h : 10 ∉ bytes) (line : Bytes) :
    linesFrom line (bytes ++ rest) = linesFrom (bytes.reverse ++ line) rest := by
  induction bytes generalizing line with
  | nil => rfl
  | cons b bytes ih =>
    have hb : b ≠ 10 := fun heq => h (heq ▸ List.mem_cons_self)
    have hbytes : 10 ∉ bytes := fun hmem => h (List.mem_cons_of_mem b hmem)
    have hkept : linesFrom line (b :: (bytes ++ rest)) = linesFrom (b :: line) (bytes ++ rest) := by
      rw [linesFrom]
      exact hb
    rw [List.cons_append, hkept, ih hbytes, List.reverse_cons, List.append_assoc,
      List.singleton_append]

/-- At a line feed the line ends, without a carriage return if it ends in one. -/
theorem linesFrom_feed (line : Bytes) :
    ∃ full, (line.reverse = full ∨ line.reverse = full ++ [13]) ∧
      ∀ rest, linesFrom line (10 :: rest) = full :: linesFrom [] rest := by
  cases line with
  | nil => exact ⟨[], .inl rfl, fun _ => rfl⟩
  | cons b line =>
    by_cases hb : b = 13
    · subst hb
      exact ⟨line.reverse, .inr List.reverse_cons, fun _ => rfl⟩
    · refine ⟨(b :: line).reverse, .inl rfl, fun rest => ?_⟩
      rw [linesFrom]
      exact fun _ heq => hb (List.cons.inj heq).1

/-- The lines of an input are those of a reader who stops after each line feed, as the command line does. -/
theorem lines_feed (bytes rest : Bytes) (h : 10 ∉ bytes) :
    ∃ line, lines (bytes ++ [10]) = [line] ∧ lines (bytes ++ 10 :: rest) = line :: lines rest := by
  obtain ⟨line, -, hends⟩ := linesFrom_feed (bytes.reverse ++ [])
  refine ⟨line, ?_, ?_⟩
  · rw [lines, linesFrom_append bytes _ h, hends]
    rfl
  · rw [lines, linesFrom_append bytes _ h, hends]
    rfl

theorem encode_of_return {cs : List Char} {bytes : Bytes} (h : encode cs = bytes ++ [13]) :
    ∃ cs', bytes = encode cs' := by
  rcases List.eq_nil_or_concat cs with rfl | ⟨cs', c, rfl⟩
  · simp [encode] at h
  · rw [List.concat_eq_append] at h
    have hsplit : encode (cs' ++ [c]) = encode cs' ++ String.utf8EncodeChar c := by simp [encode]
    have hlast := congrArg List.getLast? (hsplit.symm.trans h)
    have hmem : 13 ∈ String.utf8EncodeChar c := by
      rw [List.getLast?_append_of_ne_nil _ String.utf8EncodeChar_ne_nil, List.getLast?_concat] at hlast
      exact List.mem_of_getLast? hlast
    rw [hsplit, encode_of_ascii_mem (by decide) hmem] at h
    exact ⟨cs', (List.append_inj_left' h rfl).symm⟩

theorem encode_of_mem_linesFrom (cs begun : List Char) {line : Bytes}
    (h : line ∈ linesFrom (encode begun).reverse (encode cs)) : ∃ cs', line = encode cs' := by
  -- on what is left to read; a line feed is a character of its own, so that no character is cut
  induction cs generalizing begun with
  | nil =>
    change line ∈ linesFrom (encode begun).reverse [] at h
    rw [linesFrom] at h
    split at h
    · cases h
    · exact ⟨begun, by simpa using h⟩
  | cons c cs ih =>
    have hsplit : encode (c :: cs) = String.utf8EncodeChar c ++ encode cs := List.flatMap_cons
    rw [hsplit] at h
    by_cases hfeed : 10 ∈ String.utf8EncodeChar c
    · obtain ⟨full, hfull, hlines⟩ := linesFrom_feed (encode begun).reverse
      rw [encode_of_ascii_mem (by decide) hfeed, List.singleton_append, hlines] at h
      rw [List.reverse_reverse] at hfull
      rcases List.mem_cons.mp h with rfl | hlater
      · rcases hfull with heq | hreturn
        · exact ⟨begun, heq.symm⟩
        · exact encode_of_return hreturn
      · exact ih [] hlater
    · rw [linesFrom_append _ _ hfeed, ← List.reverse_append] at h
      apply ih (begun ++ [c])
      simpa using h

theorem command_of_mem_lines {text : String} {line : Bytes} (h : line ∈ lines (Bytes.ofString text)) :
    (command? line).isSome := by
  obtain ⟨cs, rfl⟩ := encode_of_mem_linesFrom text.toList [] h
  have hdecode := Text.Utf8.decode_ofString (String.ofList cs)
  rw [Bytes.ofString, String.toList_ofList] at hdecode
  rw [command?, hdecode]
  rfl

/-- The words of the lines that are not blank. -/
def argvs (lines : List Bytes) : List (List Bytes) := (lines.filterMap command?).filter (!·.isEmpty)

theorem run_batched (nanos : Nat → Nat) (lines : List Bytes)
    (h : ∀ line ∈ lines, (command? line).isSome) (i : Nat) (e : Engine Q) (b : Batch) :
    Session.run nanos i lines ⟨e, some b⟩ =
      ⟨0, (((argvs lines).foldl Batch.pushWords b).run e nanos).1.map print⟩ := by
  induction lines generalizing b with
  | nil => rfl
  | cons line lines ih =>
    obtain ⟨hline, hlines⟩ := List.forall_mem_cons.mp h
    obtain ⟨words, hwords⟩ := Option.isSome_iff_exists.mp hline
    cases words with
    | nil => simp [Session.run, Session.turn, argvs, hwords, ih hlines]
    | cons word args => simp [Session.run, Session.turn, argvs, hwords, ih hlines]

theorem run_plain (nanos : Nat → Nat) (lines : List Bytes)
    (h : ∀ line ∈ lines, (command? line).isSome) (i : Nat) (e : Engine Q) :
    Session.run nanos i lines ⟨e, none⟩ =
      ⟨0, (e.transcript (callsFrom nanos i (argvs lines))).map fun a => print a.2⟩ := by
  induction lines generalizing i e with
  | nil => rfl
  | cons line lines ih =>
    obtain ⟨hline, hlines⟩ := List.forall_mem_cons.mp h
    obtain ⟨words, hwords⟩ := Option.isSome_iff_exists.mp hline
    cases words with
    | nil => simp [Session.run, Session.turn, argvs, hwords, ih hlines]
    | cons word args =>
      have hrespond := respond_eq e (Command.ofWords (word :: args)) (nanos i)
      simp [Session.run, Session.turn, argvs, hwords, ih hlines, hrespond, callsFrom, Engine.call,
        Engine.transcript, Engine.answers, Engine.after]

theorem ofArgs_pipeline (args : List String) :
    Config.ofArgs ("--pipeline" :: args) = Config.ofArgs args := by
  have hflag : Config.flag? "--pipeline" = none := by decide
  cases args with
  | nil => rfl
  | cons arg args => rw [Config.ofArgs, Config.applyArgs, hflag, Config.ofArgs]

/-- Printed for the same answer, up to the times in a listing of the command statistics. -/
def SamePrint (p p' : String) : Prop :=
  ∃ a a', Engine.SameAnswer a a' ∧ p = print a.2 ∧ p' = print a'.2

theorem session_batched (args : List String) (base : Base Q) (nanos : Nat → Nat) (text : String) :
    let e := Engine.new (Config.ofArgs args) base
    let b := (argvs (lines (Bytes.ofString text))).foldl Batch.pushWords .empty
    session ("--pipeline" :: args) base nanos (Bytes.ofString text) =
      ⟨0, (e.answers (.batch b nanos)).map fun a => print a.2⟩ := by
  intro e b
  have hlength : (b.run e nanos).1.length = b.queued.toList.length :=
    Batch.length_runFrom nanos b.queued.toList 0 e
  have hprinted : (e.answers (.batch b nanos)).map (fun a => print a.2) =
      (b.run e nanos).1.map print := by
    have houtcomes : (e.answers (.batch b nanos)).map (·.2) = (b.run e nanos).1 :=
      List.map_snd_zip (Nat.le_of_eq hlength)
    rw [← houtcomes, List.map_map]
    rfl
  have hnew : Session.new ("--pipeline" :: args) base = ⟨e, some .empty⟩ := by
    simp [Session.new, ofArgs_pipeline, e]
  rw [session, hnew, run_batched nanos _ (fun _ => command_of_mem_lines), hprinted]

theorem session_plain {args : List String} (h : "--pipeline" ∉ args) (base : Base Q)
    (nanos : Nat → Nat) (text : String) :
    let e := Engine.new (Config.ofArgs args) base
    session args base nanos (Bytes.ofString text) =
      ⟨0, (e.transcript (callsFrom nanos 0 (argvs (lines (Bytes.ofString text))))).map
        fun a => print a.2⟩ := by
  intro e
  have hnew : Session.new args base = ⟨e, none⟩ := by simp [Session.new, h, e]
  rw [session, hnew, run_plain nanos _ (fun _ => command_of_mem_lines)]

/-- A batch has one outcome for each list of words, that of calling them one after the other, and ends
where the calls end; a session on a text prints the same in both ways. Times are as they come, and with
the same times everything is the same. -/
theorem batches_as_calls :
    (∀ (e : Engine Q) (argvs : List (List Bytes)) (nanos nanos' : Nat → Nat),
      let b := argvs.foldl Batch.pushWords .empty
      let calls := callsFrom nanos' 0 argvs
      (b.run e nanos).1.length = argvs.length ∧
      List.Forall₂ Engine.SameAnswer (e.answers (.batch b nanos)) (e.transcript calls) ∧
      Engine.SameButTimes (b.run e nanos).2 (e.run calls) ∧
      (nanos = nanos' →
        e.answers (.batch b nanos) = e.transcript calls ∧ (b.run e nanos).2 = e.run calls)) ∧
    ∀ (args : List String) (base : Base Q) (nanos nanos' : Nat → Nat) (text : String),
      "--pipeline" ∉ args →
      let batched := session ("--pipeline" :: args) base nanos (Bytes.ofString text)
      let plain := session args base nanos' (Bytes.ofString text)
      batched.exitCode = plain.exitCode ∧ List.Forall₂ SamePrint batched.printed plain.printed ∧
        (nanos = nanos' → batched = plain) := by
  refine ⟨Engine.batch_as_calls, ?_⟩
  intro args base nanos nanos' text hargs batched plain
  have hbatched : batched = _ := session_batched args base nanos text
  have hplain : plain = _ := session_plain hargs base nanos' text
  obtain ⟨-, hanswers, -, hsame⟩ := (Engine.new (Config.ofArgs args) base).batch_as_calls
    (argvs (lines (Bytes.ofString text))) nanos nanos'
  rw [hbatched, hplain]
  refine ⟨rfl, ?_, fun htimes => ?_⟩
  · rw [List.forall₂_map_left_iff, List.forall₂_map_right_iff]
    exact hanswers.imp fun a a' h => ⟨a, a', h, rfl, rfl⟩
  · rw [(hsame htimes).1]

/-- A session with a blank line, a carriage return, a verb that there is not, and a listing after times
that differ. -/
theorem batches_as_calls_of_listing :
    let args := ["--scan-count", "3"]
    let input := Bytes.ofString "SET a 1\n\nINCR \"a\"\r\nNOPE\nINFO commandstats"
    let batched := session ("--pipeline" :: args) Base.standard (fun _ => 0) input
    let plain := session args Base.standard (fun _ => 1500) input
    "--pipeline" ∉ args ∧
    plain.printed.take 3 =
      ["OK\n", "(integer) 2\n", "(error) ERR unknown command 'NOPE'\n"] ∧
    plain.printed.length = 4 ∧ List.Forall₂ SamePrint batched.printed plain.printed := by
  intro args input
  have hargs : "--pipeline" ∉ args := by decide
  have hsame := batches_as_calls.2 args Base.standard (fun _ => 0) (fun _ => 1500)
    "SET a 1\n\nINCR \"a\"\r\nNOPE\nINFO commandstats" hargs
  exact ⟨hargs, by decide +kernel, by decide +kernel, hsame.2.1⟩

end Console
end KeyStore
