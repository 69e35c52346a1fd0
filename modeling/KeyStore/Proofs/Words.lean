import KeyStore.Console

/-! Words on a line. Words of any characters can be put on one line between quotation marks, and are read from
it as they were, with any blanks between them. A line without quotation marks is cut at its blanks, and
backslashes mean nothing on it. -/
namespace KeyStore
namespace Console

/-- The text that stands for some characters between quotation marks: a backslash is put before each quotation
mark and each backslash. -/
def escape (cs : List Char) : List Char :=
  cs.flatMap fun c => if c = '"' ∨ c = '\\' then ['\\', c] else [c]

def quote (word : String) : List Char := '"' :: (escape word.toList ++ ['"'])

/-- A line of words between quotation marks, each with the blanks after it, and the blanks before them all. -/
def quoteLine (before : List Char) (words : List (String × List Char)) : String :=
  String.ofList (before ++ words.flatMap fun w => quote w.1 ++ w.2)

/-- The longest pieces of a line that have no blank in them. -/
def pieces (line : String) : List String :=
  ((line.toList.splitOnP Text.isBlank).filter fun cs => !cs.isEmpty).map String.ofList

theorem ne_of_isBlank {c : Char} (hc : Text.isBlank c = true) : c ≠ '"' ∧ c ≠ '\\' := by
  constructor
  all_goals
    rintro rfl
    revert hc
    decide

@[simp] theorem split_mark (quoted : Bool) (word : Option (List Char)) (cs : List Char) :
    split quoted word ('"' :: cs) = split (!quoted) (some (word.getD [])) cs := by
  rw [split]

@[simp] theorem split_escaped (word : Option (List Char)) (c : Char) (cs : List Char) :
    split true word ('\\' :: c :: cs) = split true (some (c :: word.getD [])) cs := by
  rw [split, if_pos rfl]

theorem split_quoted (word : Option (List Char)) {c : Char} (hmark : c ≠ '"') (hback : c ≠ '\\')
    (cs : List Char) : split true word (c :: cs) = split true (some (c :: word.getD [])) cs := by
  rw [split]
  · simp [hback]
  · exact hmark
  · exact fun _ _ h => absurd h hback

theorem split_unquoted (word : Option (List Char)) {c : Char} (hmark : c ≠ '"') (cs : List Char) :
    split false word (c :: cs) =
      if Text.isBlank c then lastWord word ++ split false none cs
      else split false (some (c :: word.getD [])) cs := by
  by_cases hback : c = '\\'
  · subst hback
    have hblank : Text.isBlank '\\' = false := by decide
    cases cs with
    | nil => simp [split, hblank]
    | cons d cs => rw [split, if_neg Bool.false_ne_true, hblank, if_neg Bool.false_ne_true]
  · rw [split]
    · simp [hback]
    · exact hmark
    · exact fun _ _ h => absurd h hback

theorem split_blank (word : Option (List Char)) {c : Char} (hc : Text.isBlank c = true) (cs : List Char) :
    split false word (c :: cs) = lastWord word ++ split false none cs := by
  rw [split_unquoted word (ne_of_isBlank hc).1, if_pos hc]

/-- Reading undoes writing, up to the quotation mark at the end. -/
theorem split_escape (word cs rest : List Char) :
    split true (some word) (escape cs ++ '"' :: rest) = split false (some (cs.reverse ++ word)) rest := by
  induction cs generalizing word with
  | nil => rw [escape, List.flatMap_nil, List.nil_append, split_mark]; rfl
  | cons c cs ih =>
    have hcs : cs.reverse ++ c :: word = (c :: cs).reverse ++ word := by simp
    rw [escape, List.flatMap_cons, List.append_assoc, ← escape]
    split
    · rw [List.cons_append, List.cons_append, List.nil_append, split_escaped, Option.getD_some, ih, hcs]
    · rename_i hplain
      obtain ⟨hmark, hback⟩ := not_or.mp hplain
      rw [List.cons_append, List.nil_append, split_quoted _ hmark hback, Option.getD_some, ih, hcs]

theorem split_quote (word : String) (rest : List Char) :
    split false none (quote word ++ rest) = split false (some word.toList.reverse) rest := by
  rw [quote, List.cons_append, List.append_assoc, List.singleton_append, split_mark, Option.getD_none,
    Bool.not_false, split_escape, List.append_nil]

theorem split_blanks {bs : List Char} (hbs : ∀ c ∈ bs, Text.isBlank c = true) (rest : List Char) :
    split false none (bs ++ rest) = split false none rest := by
  induction bs with
  | nil => rfl
  | cons c bs ih =>
    obtain ⟨hc, hbs⟩ := List.forall_mem_cons.mp hbs
    rw [List.cons_append, split_blank _ hc, ih hbs]
    rfl

theorem split_word (word : String) {bs : List Char} (hbs : ∀ c ∈ bs, Text.isBlank c = true) {rest : List Char}
    (hend : bs = [] → rest = []) :
    split false (some word.toList.reverse) (bs ++ rest) = word :: split false none rest := by
  have hword : lastWord (some word.toList.reverse) = [word] := by simp [lastWord]
  cases bs with
  | nil => rw [hend rfl, List.nil_append, split, split, hword]; rfl
  | cons c bs =>
    obtain ⟨hc, hbs⟩ := List.forall_mem_cons.mp hbs
    rw [List.cons_append, split_blank _ hc, hword, split_blanks hbs, List.singleton_append]

theorem split_quoteAll (words : List (String × List Char)) (hblank : ∀ w ∈ words, ∀ c ∈ w.2, Text.isBlank c = true)
    (hapart : ∀ w ∈ words.dropLast, w.2 ≠ []) :
    split false none (words.flatMap fun w => quote w.1 ++ w.2) = words.map Prod.fst := by
  induction words with
  | nil => rfl
  | cons w words ih =>
    obtain ⟨hw, hblank⟩ := List.forall_mem_cons.mp hblank
    have hend : w.2 = [] → (words.flatMap fun w => quote w.1 ++ w.2) = [] := by
      intro hnone
      cases words with
      | nil => rfl
      | cons => exact absurd hnone (hapart w List.mem_cons_self)
    have hrest : ∀ w ∈ words.dropLast, w.2 ≠ [] := by
      intro v hv
      refine hapart v ?_
      cases words with
      | nil => cases hv
      | cons => exact List.mem_cons_of_mem _ hv
    rw [List.flatMap_cons, List.append_assoc, split_quote, split_word w.1 hw hend, ih hblank hrest, List.map_cons]

theorem modifyHead_nil_append (ps : List (List Char)) : ps.modifyHead ([] ++ ·) = ps := by
  cases ps <;> rfl

/-- What is read with a word begun is what the blanks leave, the word begun in front of it. -/
theorem split_plain {cs : List Char} (hcs : '"' ∉ cs) (word : Option (List Char)) (hword : word ≠ some []) :
    split false word cs =
      (((cs.splitOnP Text.isBlank).modifyHead ((word.getD []).reverse ++ ·)).filter fun piece => !piece.isEmpty).map
        String.ofList := by
  -- the word that has begun is put in front of the first piece, which may be empty
  induction cs generalizing word with
  | nil =>
    cases word with
    | none => rfl
    | some begun =>
      have hbegun : begun ≠ [] := fun h => hword (congrArg some h)
      simp [split, lastWord, hbegun]
  | cons c cs ih =>
    obtain ⟨hmark, hcs⟩ := not_or.mp (mt List.mem_cons.mpr hcs)
    rw [split_unquoted word (Ne.symm hmark), List.splitOnP_cons_eq_if_modifyHead]
    split
    · have hrest := ih hcs none nofun
      rw [Option.getD_none, List.reverse_nil, modifyHead_nil_append] at hrest
      rw [hrest, List.modifyHead_cons, List.append_nil]
      cases word with
      | none => rfl
      | some begun =>
        have hbegun : begun ≠ [] := fun h => hword (congrArg some h)
        simp [lastWord, hbegun]
    · rw [ih hcs _ (by simp), List.modifyHead_modifyHead]
      simp [Function.comp_def]

/-- Words of any characters are read back from a line on which they stand between quotation marks, with one
blank or more between them and any number before and behind. A line without a quotation mark is cut into its
pieces without blanks. -/
theorem quoting_undone :
    (∀ (before : List Char) (ws : List (String × List Char)),
      (∀ c ∈ before, Text.isBlank c = true) → (∀ w ∈ ws, ∀ c ∈ w.2, Text.isBlank c = true) →
      (∀ w ∈ ws.dropLast, w.2 ≠ []) → words (quoteLine before ws) = ws.map Prod.fst) ∧
    ∀ line : String, '"' ∉ line.toList → words line = pieces line := by
  constructor
  · intro before ws hbefore hblank hapart
    rw [words, quoteLine, String.toList_ofList, split_blanks hbefore, split_quoteAll ws hblank hapart]
  · intro line hline
    rw [words, pieces, split_plain hline none nofun, Option.getD_none, List.reverse_nil, modifyHead_nil_append]

/-- Words of blanks, quotation marks and backslashes, and the empty word; a backslash on a line without
quotation marks. -/
theorem quoting_undone_of_specials :
    let ws : List (String × List Char) := [("a \"b\\", [' ', '\u3000']), ("", ['\t']), ("\\\"", [])]
    let line := quoteLine [' '] ws
    line = " \"a \\\"b\\\\\" \u3000\"\"\t\"\\\\\\\"\"" ∧ words line = ["a \"b\\", "", "\\\""] ∧
      words "GET\u2003\\k " = ["GET", "\\k"] := by
  intro ws line
  have hbefore : [' '].all Text.isBlank = true := by decide
  have hblank : ∀ w ∈ ws, w.2.all Text.isBlank = true := by decide
  have hplain : pieces "GET\u2003\\k " = ["GET", "\\k"] := by decide
  refine ⟨by decide, ?_, ?_⟩
  · refine quoting_undone.1 [' '] ws (List.all_eq_true.mp hbefore) ?_ (by decide)
    exact fun w hw => List.all_eq_true.mp (hblank w hw)
  · exact (quoting_undone.2 _ (by decide)).trans hplain

end Console
end KeyStore
