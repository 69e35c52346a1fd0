import KeyStore.Proofs.Leaves
import KeyStore.Proofs.Sessions

/-! Lines. Whatever a reply holds, its text has one line for each of its leaves, in their order, and each line
ends with the text of its leaf; so the console prints a line for each leaf of what a command replies. -/
namespace KeyStore

theorem newline_notMem_toDigits {base : Nat} (hbase : 1 < base) (n : Nat) : '\n' ∉ Nat.toDigits base n := by
  have hdigit (d : Nat) : '\n' ≠ Nat.digitChar d := (Nat.digitChar_ne '\n' (by decide)).symm
  induction n using Nat.strongRecOn with
  | ind n ih =>
    rw [Nat.toDigits_eq_if hbase]
    split
    · simp [hdigit]
    · have hless : n / base < n := Nat.div_lt_self (by omega) hbase
      simp [hdigit, ih _ hless]

theorem newline_notMem_toString (n : Int) : '\n' ∉ (toString n).toList := by
  have hdigits (m : Nat) : '\n' ∉ Nat.toDigits 10 m := newline_notMem_toDigits (by decide) m
  cases n <;> simp [toString, Int.repr, hdigits]

namespace Double

theorem newline_notMem_positional (d : Digits) : '\n' ∉ d.positional := by
  have hdigits : '\n' ∉ Nat.toDigits 10 d.digits := newline_notMem_toDigits (by decide) d.digits
  have htake (n : Nat) : '\n' ∉ (Nat.toDigits 10 d.digits).take n := fun h => hdigits (List.mem_of_mem_take h)
  have hdrop (n : Nat) : '\n' ∉ (Nat.toDigits 10 d.digits).drop n := fun h => hdigits (List.mem_of_mem_drop h)
  simp only [Digits.positional]
  split
  · simp [hdigits]
  · split <;> simp [hdigits, htake, hdrop]

theorem newline_notMem_text (x : Double) : '\n' ∉ x.text := by
  have hdigits := newline_notMem_positional x.shortest
  rw [text]
  repeat' split
  all_goals simp [hdigits]

end Double

namespace Text

theorem newline_notMem_quotedChar (c : Char) : '\n' ∉ quotedChar c := by
  have hcode := newline_notMem_toDigits (by decide : 1 < 16) c.toNat
  by_cases hc : c = '\n'
  · subst hc
    decide
  · have hne : '\n' ≠ c := Ne.symm hc
    unfold quotedChar
    repeat' split
    all_goals simp [hne, hcode]

theorem newline_notMem_quoted (s : String) : '\n' ∉ quoted s := by
  simp [quoted, newline_notMem_quotedChar]

end Text

namespace Reply

/-- The lines of the text end with the texts of the leaves, one line for each. -/
def Framed (leaves : List Reply) (text : List Char) : Prop :=
  List.Forall₂ (fun leaf line => render 0 leaf <:+ line) leaves (text.splitOn '\n')

namespace Framed
variable {leaves before after : List Reply} {text rest label : List Char}

theorem leaf {r : Reply} (hleaves : r.leaves = [r]) (htext : ∀ indent, render indent r = text)
    (hline : '\n' ∉ text) (indent : Nat) : Framed r.leaves (render indent r) := by
  simp [Framed, hleaves, htext, List.splitOn_eq_singleton hline]

theorem append (h : Framed before text) (h' : Framed after rest) :
    Framed (before ++ after) (text ++ '\n' :: rest) := by
  rw [Framed, List.splitOn_append_cons_self]
  exact List.rel_append h h'

theorem prepend (hlabel : '\n' ∉ label) (h : Framed leaves text) : Framed leaves (label ++ text) := by
  induction label with
  | nil => exact h
  | cons c label ih =>
    simp only [List.mem_cons, not_or] at hlabel
    have hrest := ih hlabel.2
    rw [Framed] at hrest ⊢
    rw [List.cons_append, List.splitOn_cons_eq_if_modifyHead, if_neg (by simpa using Ne.symm hlabel.1)]
    generalize (label ++ text).splitOn '\n' = lines at hrest
    cases hrest with
    | nil => exact .nil
    | cons hends hlines => exact .cons (hends.trans (List.suffix_cons c _)) hlines

theorem element (h : Framed before text) (h' : Framed after rest) {n : Nat} (hn : 1 < n)
    (hlabel : '\n' ∉ label) (indent : Nat) :
    Framed (before ++ after) (text ++ (newLine (n == 1) indent ++ (label ++ rest))) := by
  have hblanks : '\n' ∉ List.replicate indent ' ' := by simp
  simpa [newLine, Nat.ne_of_gt hn] using h.append ((h'.prepend hlabel).prepend hblanks)

end Framed

theorem newline_notMem_itemLabel (n : Nat) : '\n' ∉ number n ++ ") ".toList :=
  List.not_mem_append (newline_notMem_toDigits (by decide) n) (by decide)

theorem newline_notMem_pairLabel (n : Nat) (field : Bytes) :
    '\n' ∉ number n ++ "# ".toList ++ Text.quoted (Text.Utf8.lossy field) ++ " => ".toList := by
  have hnumber : '\n' ∉ number n ++ "# ".toList :=
    List.not_mem_append (newline_notMem_toDigits (by decide) n) (by decide)
  exact List.not_mem_append (List.not_mem_append hnumber (Text.newline_notMem_quoted _)) (by decide)

-- by recursion on the reply, as it is rendered; the text before an element is carried along, framed already

mutual

/-- The text of a reply has a line for each of its leaves. -/
theorem framed_render (indent : Nat) (r : Reply) (h : r.Fits) : Framed r.leaves (render indent r) := by
  cases r with
  | ok => exact .leaf rfl (fun _ => rfl) (by decide) indent
  | status text => exact .leaf rfl (fun _ => rfl) (h text List.mem_cons_self) indent
  | nil => exact .leaf rfl (fun _ => rfl) (by decide) indent
  | integer n =>
    exact .leaf rfl (fun _ => rfl) (List.not_mem_append (by decide) (newline_notMem_toString n)) indent
  | bool b => exact .leaf rfl (fun _ => rfl) (by cases b <;> decide) indent
  | double x => exact .leaf rfl (fun _ => rfl) (List.not_mem_append (by decide) x.newline_notMem_text) indent
  | bulk bytes => exact .leaf rfl (fun _ => rfl) (Text.newline_notMem_quoted _) indent
  | array items =>
    cases items with
    | nil => exact .leaf rfl (fun _ => rfl) (by decide) indent
    | cons item items =>
      change StatusesFit (leaves item ++ leavesOfItems items) at h
      obtain ⟨hitem, hitems⟩ := statusesFit_append.mp h
      have hfirst := (framed_render (indent + 3) item hitem).prepend (newline_notMem_itemLabel 1)
      exact framed_renderItems indent (by decide : 1 < 2) items hitems hfirst
  | map pairs =>
    cases pairs with
    | nil => exact .leaf rfl (fun _ => rfl) (by decide) indent
    | cons p pairs =>
      obtain ⟨field, value⟩ := p
      change StatusesFit (leaves value ++ leavesOfPairs pairs) at h
      obtain ⟨hvalue, hpairs⟩ := statusesFit_append.mp h
      have hfirst := (framed_render (indent + 3) value hvalue).prepend (newline_notMem_pairLabel 1 field)
      exact framed_renderPairs indent (by decide : 1 < 2) pairs hpairs hfirst

theorem framed_renderItems (indent : Nat) {n : Nat} (hn : 1 < n) (items : List Reply)
    (h : StatusesFit (leavesOfItems items)) {before : List Reply} {text : List Char}
    (hbefore : Framed before text) :
    Framed (before ++ leavesOfItems items) (text ++ renderItems indent n items) := by
  cases items with
  | nil => simpa [leavesOfItems, renderItems] using hbefore
  | cons item items =>
    simp only [leavesOfItems, renderItems, statusesFit_append] at h ⊢
    have hitem := hbefore.element (framed_render (indent + 3) item h.1) hn (newline_notMem_itemLabel n) indent
    simpa using framed_renderItems indent (by omega : 1 < n + 1) items h.2 hitem

theorem framed_renderPairs (indent : Nat) {n : Nat} (hn : 1 < n) (pairs : List (Bytes × Reply))
    (h : StatusesFit (leavesOfPairs pairs)) {before : List Reply} {text : List Char}
    (hbefore : Framed before text) :
    Framed (before ++ leavesOfPairs pairs) (text ++ renderPairs indent n pairs) := by
  cases pairs with
  | nil => simpa [leavesOfPairs, renderPairs] using hbefore
  | cons p pairs =>
    obtain ⟨field, value⟩ := p
    simp only [leavesOfPairs, renderPairs, statusesFit_append] at h ⊢
    have hvalue :=
      hbefore.element (framed_render (indent + 3) value h.1) hn (newline_notMem_pairLabel n field) indent
    simpa using framed_renderPairs indent (by omega : 1 < n + 1) pairs h.2 hvalue

end

end Reply

namespace Console
open Text.Utf8 (encode encode_injective encode_of_ascii_mem)

theorem encodeChar_newline : String.utf8EncodeChar '\n' = [10] := rfl

theorem newline_notMem_encodeChar {c : Char} (hc : c ≠ '\n') : 10 ∉ String.utf8EncodeChar c := by
  intro hmem
  have hencode : encode [c] = encode ['\n'] := by
    simp [encode, encode_of_ascii_mem (b := 10) (by decide) hmem, encodeChar_newline]
  apply hc
  simpa using encode_injective hencode

theorem length_linesFrom_feed (cs : List Char) (line : Bytes) :
    (linesFrom line (encode cs ++ [10])).length = (cs.splitOn '\n').length := by
  induction cs generalizing line with
  | nil =>
    obtain ⟨full, -, hlines⟩ := linesFrom_feed line
    simp [hlines, linesFrom]
  | cons c cs ih =>
    rw [encode, List.flatMap_cons, ← encode, List.append_assoc, List.splitOn_cons_eq_if_modifyHead]
    by_cases hc : c = '\n'
    · obtain ⟨full, -, hlines⟩ := linesFrom_feed line
      subst hc
      rw [encodeChar_newline, List.singleton_append, hlines]
      simp [ih]
    · rw [linesFrom_append _ _ (newline_notMem_encodeChar hc), ih]
      simp [hc]

theorem length_lines_print (r : Reply) :
    (lines (Bytes.ofString (print (.ok r)))).length = (r.display.toList.splitOn '\n').length := by
  have hprint : Bytes.ofString (print (.ok r)) = encode r.display.toList ++ [10] := by
    simp [Bytes.ofString, print, encode, encodeChar_newline]
  rw [lines, hprint, length_linesFrom_feed]

/-- A reply in which no status breaks its line has a line for each leaf, which ends with the text of the leaf,
and is printed on as many lines; and such is every reply of a command. -/
theorem line_for_each_leaf :
    (∀ r : Reply, r.Fits →
      let rows := r.display.toList.splitOn '\n'
      rows.length = r.leaves.length ∧
      List.Forall₂ (fun leaf row => leaf.display.toList <:+ row) r.leaves rows ∧
      (lines (Bytes.ofString (print (.ok r)))).length = r.leaves.length) ∧
    ∀ (e : Engine Q) (c : Command) (nanos : Nat) (r : Reply), (e.execute c nanos).1 = .ok r → r.Fits := by
  refine ⟨?_, fun e c nanos r hr => e.fits_execute c nanos r hr⟩
  intro r hr rows
  have hframed : List.Forall₂ (fun leaf row => leaf.display.toList <:+ row) r.leaves rows := by
    simpa [Reply.Framed, Reply.display, rows] using Reply.framed_render 0 r hr
  have hlength : rows.length = r.leaves.length := hframed.length_eq.symm
  exact ⟨hlength, hframed, (length_lines_print r).trans hlength⟩

/-- Five leaves of a nested reply with line feeds in a field and a value, and the reply of a command with one in
its field and in its value. -/
theorem line_for_each_leaf_of_nesting :
    let r : Reply := .array [.status "set", .map [([10], .array [.bulk [10], .nil]), ([], .map [])], .array []]
    let e := (Engine.new .default .standard).run [.execute (.onKeys (.hset [104] [([10], [13, 10])])) 0]
    let c : Command := .onKeys (.hgetAll [104])
    r.display = "1) set\n2) 1# \"\\n\" => 1) \"\\n\"\n      2) (nil)\n   2# \"\" => (empty hash)\n3) (empty array)" ∧
      r.Fits ∧ (r.display.toList.splitOn '\n').length = 5 ∧
      ∃ reply, (e.execute c 0).1 = .ok reply ∧ (lines (Bytes.ofString (print (.ok reply)))).length = 1 := by
  intro r e c
  have hfits : r.Fits := by simp [r]
  obtain ⟨hleaves, hfit⟩ := line_for_each_leaf (Q := Queue)
  have hreply := hfit e c 0 _ rfl
  exact ⟨by decide +kernel, hfits, (hleaves r hfits).1, _, rfl, (hleaves _ hreply).2.2⟩

end Console
end KeyStore
