import Mathlib.Tactic.Common
import Recast.Flow.Text
import Recast.Proofs.Flow.Wiring

/-!
# Labels of a drawing

Where the label of a block ends for a reader of the DOT language.

**Strings.**  Inside quotes a backslash protects the character behind it: a quote and a backslash
stand for themselves then, and `n` for the end of a line.  The first quote that is not protected
ends the string (`Dot.readString`).

**Labels.**  The quotes and line ends of a label are protected and its backslashes are not.  So a
quote behind an odd number of backslashes ends the label too early, and behind an odd number of them
at its end the label does not end where it should (`Graph.stopsAt_iff`).  A label without
backslashes is read as it is.

* `Graph.dot_labels` — the labels in the drawing of a function.
-/

namespace Recast.Flow

open List

namespace Dot

/-- What a protected character stands for. -/
def unescape : Char → List Char
  | '"' => ['"']
  | '\\' => ['\\']
  | 'n' => ['\n']
  | c => ['\\', c]

/-- Reads a string behind its first quote: what it stands for, and what follows its last quote. -/
def readString : List Char → Option (List Char × List Char)
  | [] => none
  | '"' :: rest => some ([], rest)
  | ['\\'] => none
  | '\\' :: c :: rest => (readString rest).map fun (text, left) => (unescape c ++ text, left)
  | c :: rest => (readString rest).map fun (text, left) => (c :: text, left)

/-- Reads the first string of a line. -/
def label? (line : List Char) : Option (List Char × List Char) :=
  readString ((line.dropWhile (· != '"')).drop 1)

/-- Backslashes come in pairs in front of every quote and at the end of a text that stands behind
`k` of them. -/
def paired (k : Nat) : List Char → Bool
  | [] => k % 2 == 0
  | '"' :: cs => k % 2 == 0 && paired 0 cs
  | '\\' :: cs => paired (k + 1) cs
  | _ :: cs => paired 0 cs

/-- A string ends in front of these characters. -/
def StopsAt (cs left : List Char) : Prop := ∃ text, readString cs = some (text, left)

variable {c : Char} {cs rest left : List Char}

lemma stopsAt_quote : StopsAt ('"' :: rest) left ↔ rest = left := by
  simp [StopsAt, readString]

lemma stopsAt_protected : StopsAt ('\\' :: c :: rest) left ↔ StopsAt rest left := by
  simp [StopsAt, readString]

lemma stopsAt_cons (hquote : c ≠ '"') (hslash : c ≠ '\\') : StopsAt (c :: rest) left ↔
    StopsAt rest left := by
  simp [StopsAt, readString, hslash]

lemma StopsAt.length_lt (h : StopsAt cs left) : left.length < cs.length := by
  obtain ⟨text, h⟩ := h
  fun_induction readString cs generalizing text with
  | case1 | case3 => cases h
  | case2 =>
    cases h
    exact Nat.lt_succ_self _
  | case4 c rest ih =>
    obtain ⟨⟨text', left'⟩, h', heq⟩ := Option.map_eq_some_iff.mp h
    cases heq
    have := ih _ h'
    simp only [List.length_cons]
    omega
  | case5 c rest _ _ _ ih =>
    obtain ⟨⟨text', left'⟩, h', heq⟩ := Option.map_eq_some_iff.mp h
    cases heq
    have := ih _ h'
    simp only [List.length_cons]
    omega

end Dot

open Dot

namespace Graph

/-- The characters of a text inside the quotes of a label. -/
def escaped (cs : List Char) : List Char := cs.flatMap fun c => (dotChar c).toList

lemma toList_dotText (s : String) : (dotText s).toList = escaped s.toList := by
  rw [dotText, String.toList_join, List.flatMap_map, escaped]

lemma escaped_cons (c : Char) (cs : List Char) :
    escaped (c :: cs) = (dotChar c).toList ++ escaped cs := List.flatMap_cons

lemma escaped_append (cs ds : List Char) : escaped (cs ++ ds) = escaped cs ++ escaped ds :=
  List.flatMap_append

lemma dotChar_of_ne {c : Char} (hquote : c ≠ '"') (hline : c ≠ '\n') :
    (dotChar c).toList = [c] := by
  simp [dotChar]

lemma escaped_plain {cs : List Char} (h : ∀ c ∈ cs, c ≠ '"' ∧ c ≠ '\n') : escaped cs = cs := by
  induction cs with
  | nil => rfl
  | cons c cs ih =>
    obtain ⟨hc, hcs⟩ := List.forall_mem_cons.mp h
    rw [escaped_cons, dotChar_of_ne hc.1 hc.2, ih hcs, List.singleton_append]

/-- **Where a label ends.**  Behind `k` backslashes, an escaped text ends at the quote behind it
just if its backslashes are in pairs. -/
lemma stopsAt_iff (k : Nat) (cs left : List Char) :
    StopsAt (List.replicate (k % 2) '\\' ++ (escaped cs ++ '"' :: left)) left ↔
      paired k cs = true := by
  have hlong : ∀ cs, escaped cs ++ '"' :: left ≠ left := fun cs h => by
    have := congrArg List.length h
    simp only [List.length_append, List.length_cons] at this
    omega
  induction cs generalizing k with
  | nil =>
    rcases Nat.mod_two_eq_zero_or_one k with hk | hk <;> rw [hk, paired, hk]
    · simp [escaped, stopsAt_quote]
    · have : ¬StopsAt left left := fun h => Nat.lt_irrefl _ h.length_lt
      simpa [escaped, stopsAt_protected] using this
  | cons c cs ih =>
    have hzero := ih 0
    rw [Nat.zero_mod, List.replicate_zero, List.nil_append] at hzero
    by_cases hquote : c = '"'
    · subst hquote
      rcases Nat.mod_two_eq_zero_or_one k with hk | hk <;> rw [hk, paired, hk]
      · simpa [escaped_cons, dotChar, stopsAt_protected] using hzero
      · simpa [escaped_cons, dotChar, stopsAt_protected, stopsAt_quote] using hlong cs
    by_cases hslash : c = '\\'
    · subst hslash
      refine Iff.trans ?_ (ih (k + 1))
      rcases Nat.mod_two_eq_zero_or_one k with hk | hk
      · simp [escaped_cons, dotChar, hk, Nat.add_mod]
      · simp [escaped_cons, dotChar, hk, Nat.add_mod, stopsAt_protected]
    have hpaired : paired k (c :: cs) = paired 0 cs := by
      rw [paired]
      · exact hquote
      · exact hslash
    refine Iff.trans ?_ (hpaired ▸ hzero)
    by_cases hline : c = '\n'
    · subst hline
      rcases Nat.mod_two_eq_zero_or_one k with hk | hk
      · simp [escaped_cons, dotChar, hk, stopsAt_protected]
      · simp [escaped_cons, dotChar, hk, stopsAt_protected, stopsAt_cons]
    · rw [escaped_cons, dotChar_of_ne hquote hline]
      rcases Nat.mod_two_eq_zero_or_one k with hk | hk
      · simp [hk, stopsAt_cons hquote hslash]
      · simp [hk, stopsAt_protected]

/-- A text without backslashes is read as it is. -/
lemma readString_escaped {cs : List Char} (left : List Char) (h : '\\' ∉ cs) :
    readString (escaped cs ++ '"' :: left) = some (cs, left) := by
  induction cs with
  | nil => rfl
  | cons c cs ih =>
    obtain ⟨hslash, hcs⟩ := not_or.mp (mt List.mem_cons.mpr h)
    rw [escaped_cons, List.append_assoc]
    by_cases hquote : c = '"'
    · subst hquote
      simp [dotChar, readString, ih hcs, unescape]
    by_cases hline : c = '\n'
    · subst hline
      simp [dotChar, readString, ih hcs, unescape]
    · rw [dotChar_of_ne hquote hline]
      simp [readString, ih hcs, Ne.symm hslash]

/-! ## Lines -/

end Graph

/-- The text of the label of a block. -/
def BasicBlock.caption (b : BasicBlock) (i : Nat) : List Char :=
  (blockName i ++ " " ++ b.kind.name ++ "\n" ++ b.label).toList

namespace Graph

/-- What stands behind the label of a block. -/
def dotTail (b : BasicBlock) : List Char := (dotFill b.kind ++ "];").toList

lemma plain_blockName (i : Nat) : ∀ c ∈ (blockName i).toList, c ≠ '"' ∧ c ≠ '\n' := by
  intro c hc
  rw [blockName, String.toList_append, List.mem_append, Nat.toString_eq_repr, Nat.toList_repr] at hc
  rcases hc with hc | hc
  · have : c = 'B' := by simpa using hc
    subst this
    decide
  · have hdigit := Nat.isDigit_of_mem_toDigits (by decide) (by decide) hc
    constructor <;> (rintro rfl; revert hdigit; decide)

lemma plain_kind (kind : BlockKind) : ∀ c ∈ kind.name.toList, c ≠ '"' ∧ c ≠ '\n' := by
  have hall : (kind.name.toList.all fun c => decide (c ≠ '"' ∧ c ≠ '\n')) =
    true := by cases kind <;> decide
  exact fun c hc => of_decide_eq_true (List.all_eq_true.mp hall c hc)

lemma toList_dotBlock (b : BasicBlock) : (dotBlock b).toList =
    ("  " ++ blockName b.index ++ " [label=").toList ++ '"' ::
      (escaped (b.caption b.index) ++ '"' :: dotTail b) := by
  have hcaption : escaped (b.caption b.index) =
      (blockName b.index ++ " " ++ b.kind.name ++ "\\n" ++ dotText b.label).toList := by
    simp only [BasicBlock.caption, String.toList_append, escaped_append,
      escaped_plain (plain_blockName b.index), escaped_plain (plain_kind b.kind), toList_dotText]
    rfl
  rw [hcaption, dotBlock, dotTail]
  simp [String.toList_append, List.append_assoc]

lemma label?_dotBlock (b : BasicBlock) :
    label? (dotBlock b).toList = readString (escaped (b.caption b.index) ++ '"' :: dotTail b) := by
  have hopening : ∀ c ∈ ("  " ++ blockName b.index ++ " [label=").toList, (c != '"') = true := by
    intro c hc
    simp only [String.toList_append, List.mem_append] at hc
    rcases hc with (hc | hc) | hc
    · exact List.all_eq_true.mp (show ("  ".toList.all (· != '"')) = true by decide) c hc
    · exact bne_iff_ne.mpr (plain_blockName b.index c hc).1
    · exact all_eq_true.mp (show (" [label=".toList.all (· != '"')) = true by decide) c hc
  rw [label?, toList_dotBlock, List.dropWhile_append_of_pos hopening]
  rfl

/-- The lines of a drawing without a title. -/
def dotLines (g : Graph) : List String :=
  "digraph CFG \x7b" :: "  node [shape=box, fontname=monospace, fontsize=10];" ::
    (g.blocks.map dotBlock ++ (g.edges.map dotEdge ++ ["\x7d"]))

lemma not_mem_escaped (cs : List Char) : '\n' ∉ escaped cs := by
  intro h
  obtain ⟨c, -, hc⟩ := List.mem_flatMap.mp h
  by_cases hquote : c = '"'
  · subst hquote
    revert hc
    decide
  by_cases hline : c = '\n'
  · subst hline
    revert hc
    decide
  · rw [dotChar_of_ne hquote hline, mem_singleton] at hc
    exact hline hc.symm

lemma splitOn_dot (g : Graph) : (g.dot "").toList.splitOn '\n' = g.dotLines.map String.toList := by
  have hdot : g.dot "" = "\n".intercalate g.dotLines := by
    simp [dot, dotLines]
  have hfill : ∀ kind, '\n' ∉ (dotFill kind).toList := by
    intro kind
    cases kind <;> decide
  have hname : ∀ b, '\n' ∉ (blockName b).toList := fun b h => (plain_blockName b _ h).2 rfl
  have hkind : ∀ kind : EdgeKind, '\n' ∉ (kind.name ++ dotStroke kind).toList := by
    intro kind
    cases kind <;> decide
  rw [hdot, String.toList_intercalate]
  refine splitOn_intercalate '\n' ?_ (by simp [dotLines])
  simp only [forall_mem_map, dotLines, forall_mem_cons, forall_mem_append]
  refine ⟨by decide, by decide, ?_, fun e _ => ?_, by decide, by simp⟩
  · intro b _
    rw [toList_dotBlock]
    simp [String.toList_append, hname, not_mem_escaped, dotTail, hfill]
  · simpa [dotEdge, String.toList_append, hname] using hkind e.kind

/-- The line of a block. -/
lemma getElem?_splitOn_dot {g : Graph} {i : Nat} {b : BasicBlock} (hb : g.blocks[i]? = some b) :
    ((g.dot "").toList.splitOn '\n')[i + 2]? = some (dotBlock b).toList := by
  have hlt : i < g.blocks.length := (List.getElem?_eq_some_iff.mp hb).1
  rw [splitOn_dot, getElem?_map, dotLines, getElem?_cons_succ, getElem?_cons_succ,
    getElem?_append_left (by simpa using hlt), getElem?_map, hb]
  rfl

/-- **The labels in the drawing of a function.**  Every block has a line of the drawing, and its
label ends where it should just if its backslashes are in pairs in front of every quote and at the
end.  Without backslashes it is read as it is. -/
theorem dot_labels (fn : Node) {i : Nat} {b : BasicBlock}
    (hb : (ofFunction fn).1.blocks[i]? = some b) :
    ∃ line, (((ofFunction fn).1.dot "").toList.splitOn '\n')[i + 2]? = some line ∧
      ((∃ text, label? line = some (text, dotTail b)) ↔ paired 0 (b.caption i) = true) ∧
      ('\\' ∉ b.caption i → label? line = some (b.caption i, dotTail b)) := by
  obtain rfl : b.index = i := (wired_ofFunction fn i b hb).1
  refine ⟨_, getElem?_splitOn_dot hb, ?_, fun h => ?_⟩
  · rw [label?_dotBlock]
    exact stopsAt_iff 0 (b.caption b.index) (dotTail b)
  · rw [label?_dotBlock]
    exact readString_escaped (dotTail b) h

/-- A function whose only statement is a text. -/
def showing (text : String) : Node :=
  .funcDecl {} ⟨{}, "f"⟩ (.mk {} [] []) (some (.mk {} [.exprStmt {} (.literal {} .string text)]))

/-- Quotes are read back. -/
theorem dot_labels_quotes :
    ∃ line, (((ofFunction (showing "a")).1.dot "").toList.splitOn '\n')[2]? = some line ∧
    (label? line).map (String.ofList ·.1) = some "BB0 entry\n\"a\"" := by
  obtain ⟨line, hline, -, hread⟩ := dot_labels (showing "a") (i := 0) rfl
  refine ⟨line, hline, ?_⟩
  rw [hread (by decide)]
  decide

/-- Behind a backslash the quote of a text ends the label, and the quote that closes the label is
left. -/
theorem dot_label_cut : ∃ b line, (ofFunction (showing "\\")).1.blocks[0]? = some b ∧
    (((ofFunction (showing "\\")).1.dot "").toList.splitOn '\n')[2]? = some line ∧
    label? line = some ("BB0 entry\n\"\\".toList, '"' :: dotTail b) ∧
    ¬∃ text, label? line = some (text, dotTail b) := by
  let b := (ofFunction (showing "\\")).1.block 0
  have hread : label? (dotBlock b).toList =
    some ("BB0 entry\n\"\\".toList, '"' :: dotTail b) := by decide
  refine ⟨b, _, rfl, getElem?_splitOn_dot rfl, hread, ?_⟩
  rintro ⟨text, htext⟩
  exact List.cons_ne_self _ _ (congrArg Prod.snd (Option.some.inj (hread.symm.trans htext)))

end Graph

end Recast.Flow
