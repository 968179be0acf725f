import Recast.Proofs.Syntax.Numerals

/-!
# Writing forms

Forms can be written so that reading gives them back.

**Writing.**  `write` spells a form: strings stand between quotes, and a backslash protects the
quotes and backslashes inside; in symbols it protects everything that could end or change an atom;
whole numbers are decimal.  The forms of a list are separated by spaces.

**Reading back.**  What follows a form begins with a character that ends an atom, or is nothing
(`Ended`).  Then the form is read first and what follows it after that, for every shape of form and
to any depth (`reads_write`).

* `read_writeAll` — reading gives back what was written.
-/

namespace Recast.Form

open List

/-! ## Writing -/

/-- What a backslash protects in a text. -/
def textProtected : List Char := ['\\', '"']

/-- What a backslash protects in a symbol. -/
def symbolProtected : List Char :=
  ['\\', '\'', Char.ofNat 0x60, '"', '(', ')', '[', ']', ' ', ',', '?', ';', '#']

/-- Puts a backslash in front of some characters. -/
def protect (special cs : List Char) : List Char :=
  cs.flatMap fun c => if c ∈ special then ['\\', c] else [c]

mutual

/-- A form as it is written. -/
def write : Form → List Char
  | .symbol name => protect symbolProtected name.toList
  | .text value => '"' :: (protect textProtected value.toList ++ ['"'])
  | .integer value => (toString value).toList
  | .real value => value.text.toList
  | .list items => '(' :: (writeAll items ++ [')'])
  | .quoted form => '\'' :: form.write
  | .brackets items => '[' :: (writeAll items ++ [']'])

/-- Forms with spaces between them. -/
def writeAll : List Form → List Char
  | [] => []
  | [form] => form.write
  | form :: next :: forms => form.write ++ ' ' :: writeAll (next :: forms)

end

/-- The white space that cannot be part of a symbol. -/
def breaks : List Char := ['\t', '\n', '\r', '\x0b', '\x0c']

/-- A symbol that can be written: it is not empty, no white space but the space is part of it, and
it is no number. -/
structure IsName (name : String) : Prop where
  nonempty : name ≠ ""
  unbroken : ∀ c ∈ name.toList, c ∉ breaks
  notWhole : Numeral.integer? name = none
  notReal : Numeral.real? name = none

mutual

/-- A form of symbols, texts and whole numbers of at most 4300 digits, in lists, in square brackets
and behind apostrophes. -/
def Writable : Form → Prop
  | .symbol name => IsName name
  | .text _ => True
  | .integer value => (Nat.toDigits 10 value.natAbs).length ≤ 4300
  | .real _ => False
  | .list items => AllWritable items
  | .quoted form => form.Writable
  | .brackets items => AllWritable items

def AllWritable : List Form → Prop
  | [] => True
  | form :: forms => form.Writable ∧ AllWritable forms

end

/-! ## Texts and atoms -/

variable {c : Char} {cs left rest : List Char} {others : List Form}

/-- Protected characters of a text stand for themselves, and the others too. -/
lemma readText_protect (cs left : List Char) :
    readText (protect textProtected cs ++ '"' :: left) = some (cs, left) := by
  induction cs with
  | nil =>
    rw [readText.eq_def]
    rfl
  | cons c cs ih =>
    rw [protect, List.flatMap_cons, List.append_assoc]
    by_cases hc : c ∈ textProtected
    · have hescape : textEscape c = [c] := by
        rcases List.mem_pair.mp hc with rfl | rfl
        · rfl
        · rfl
      rw [if_pos hc, List.cons_append, List.singleton_append, readText.eq_def]
      show (readText (protect textProtected cs ++ '"' :: left)).map _ = _
      rw [ih, hescape]
      rfl
    · obtain ⟨hslash, hquote⟩ : c ≠ '\\' ∧ c ≠ '"' := by simpa [textProtected] using hc
      rw [if_neg hc, List.singleton_append, readText.eq_def]
      simp only [beq_iff_eq, hslash, hquote, if_false]
      rw [← protect, ih]
      rfl

/-- What follows ends an atom. -/
def Ended (left : List Char) : Prop := ∀ c ∈ left.head?, isDelimiter c = true

lemma isDelimiter_of_not_mem (hc : c ∉ symbolProtected) (hbreak : c ∉ breaks) :
    isDelimiter c = false := by
  have htab : ∀ d : Char, c ≠ d → c.toNat ≠ d.toNat := fun d hne heq => hne (Char.toNat_inj.mp heq)
  simp only [symbolProtected, breaks, List.mem_cons, List.not_mem_nil, or_false, not_or]
    at hc hbreak
  have hvertical := htab '\x0b' hbreak.2.2.2.1
  have hfeed := htab '\x0c' hbreak.2.2.2.2
  simp_all [isDelimiter, isGap, isCloser]

lemma start_of_not_isDelimiter (h : isDelimiter c = false) (hquote : c ≠ '\'') :
    start c = .atom := by
  simp only [isDelimiter, Bool.or_eq_false_iff] at h
  simp [start, h, hquote]

lemma readAtom_cons (hslash : c ≠ '\\') (hc : isDelimiter c = false) :
    readAtom (c :: cs) = (c :: (readAtom cs).1, (readAtom cs).2) := by
  rw [readAtom.eq_def]
  simp only [beq_iff_eq, hslash, hc, if_false, Bool.false_eq_true]

lemma readAtom_ended (h : Ended left) : readAtom left = ([], left) := by
  cases left with
  | nil => rfl
  | cons c left =>
    have hc := h c rfl
    have hslash : c ≠ '\\' := by
      rintro rfl
      cases hc
    rw [readAtom.eq_def]
    simp only [beq_iff_eq, hslash, hc, if_true, if_false]

/-- Protected characters of an atom stand for themselves, and the others too. -/
lemma readAtom_protect (h : ∀ c ∈ cs, c ∉ breaks) (hleft : Ended left) :
    readAtom (protect symbolProtected cs ++ left) = (cs, left) := by
  induction cs with
  | nil => exact readAtom_ended hleft
  | cons c cs ih =>
    obtain ⟨hbreak, hcs⟩ := List.forall_mem_cons.mp h
    rw [protect, List.flatMap_cons, List.append_assoc]
    by_cases hc : c ∈ symbolProtected
    · have hescape : atomEscape c = [c] := if_pos (List.contains_iff_mem.mpr hc)
      rw [if_pos hc, List.cons_append, List.singleton_append, readAtom.eq_def]
      show (atomEscape c ++ (readAtom (protect symbolProtected cs ++ left)).1,
        (readAtom (protect symbolProtected cs ++ left)).2) = _
      rw [hescape, ih hcs]
      rfl
    · have hslash : c ≠ '\\' := fun heq => hc (heq ▸ List.mem_cons_self)
      rw [if_neg hc, List.singleton_append, readAtom_cons hslash (isDelimiter_of_not_mem hc hbreak),
        ← protect, ih hcs]

/-- An atom is read first, and what follows it after that. -/
lemma reads_atom (hne : cs ≠ []) (h : ∀ c ∈ cs, c ∉ breaks) (hleft : Ended left)
    (hothers : Reads left others rest) :
    Reads (protect symbolProtected cs ++ left) (ofAtom (String.ofList cs) :: others) rest := by
  have hread := readAtom_protect h hleft
  cases cs with
  | nil => exact absurd rfl hne
  | cons c cs =>
    rw [protect, List.flatMap_cons] at hread ⊢
    by_cases hc : c ∈ symbolProtected
    · rw [if_pos hc] at hread ⊢
      exact .atom rfl hread hothers
    · rw [if_neg hc] at hread ⊢
      have hdelimiter := isDelimiter_of_not_mem hc (h c List.mem_cons_self)
      exact .atom (start_of_not_isDelimiter hdelimiter fun heq => hc (heq ▸ by decide))
        hread hothers

lemma protect_of_plain {special : List Char} (h : ∀ c ∈ cs, c ∉ special) :
    protect special cs = cs := by
  induction cs with
  | nil => rfl
  | cons c cs ih =>
    obtain ⟨hc, hcs⟩ := List.forall_mem_cons.mp h
    rw [protect, List.flatMap_cons, if_neg hc, ← protect, ih hcs]
    rfl

lemma plain_of_mem_toString {value : Int} (h : c ∈ (toString value).toList) :
    c ∉ symbolProtected ∧ c ∉ breaks := by
  have hdigit : c.isDigit = true ∨ c = '-' := by
    rw [Numeral.toList_toString] at h
    rcases List.mem_append.mp h with h | h
    · split at h
      · exact .inr (List.mem_singleton.mp h)
      · exact absurd h List.not_mem_nil
    · exact .inl (Numeral.isDigit_of_mem h)
  have hspecial : (symbolProtected ++ breaks).all (fun d => !d.isDigit && d != '-') =
    true := by decide
  rw [← not_or, ← List.mem_append]
  intro hmem
  have hc := List.all_eq_true.mp hspecial c hmem
  rcases hdigit with hdigit | rfl
  · rw [hdigit] at hc
    cases hc
  · cases hc

lemma reads_integer {value : Int} (h : (Nat.toDigits 10 value.natAbs).length ≤ Numeral.digitLimit)
    (hleft : Ended left) (hothers : Reads left others rest) :
    Reads ((toString value).toList ++ left) (.integer value :: others) rest := by
  have hatom : ofAtom (String.ofList (toString value).toList) = .integer value := by
    have hbelow : value.natAbs < 10 ^ Numeral.digitLimit :=
      (Nat.length_toDigits_le_iff (by decide) (by decide)).mp h
    rw [String.ofList_toList, ofAtom, Numeral.integer?, Numeral.readInteger_toString hbelow]
    rfl
  have hne : (toString value).toList ≠ [] := by
    rw [Numeral.toList_toString]
    exact List.append_ne_nil_of_right_ne_nil _ Nat.toDigits_ne_nil
  have hread := reads_atom hne (fun c hc => (plain_of_mem_toString hc).2) hleft hothers
  rwa [hatom, protect_of_plain fun c hc => (plain_of_mem_toString hc).1] at hread

/-! ## Forms -/

lemma ended_cons (h : isDelimiter c = true) : Ended (c :: cs) := by
  rintro _ ⟨⟩
  exact h

mutual

/-- **A form that is written** is read first, and what follows it after that. -/
lemma reads_write : ∀ {form : Form}, form.Writable → ∀ {left rest : List Char} {others : List Form},
    Ended left → Reads left others rest →
    Reads (form.write ++ left) (form :: others) rest
  | .symbol name, h, left, rest, others, hleft, hothers => by
    have hatom : ofAtom (String.ofList name.toList) = .symbol name := by
      rw [String.ofList_toList, ofAtom, h.notWhole, h.notReal]
    rw [write, ← hatom]
    exact reads_atom (fun hnil => h.nonempty (String.toList_eq_nil_iff.mp hnil))
      h.unbroken hleft hothers
  | .text value, _, left, rest, others, _, hothers => by
    have hread := Reads.text (c := '"') rfl (readText_protect value.toList left) hothers
    rw [String.ofList_toList] at hread
    rw [write, cons_append, append_assoc]
    exact hread
  | .integer value, h, left, rest, others, hleft, hothers => reads_integer h hleft hothers
  | .list items, h, left, rest, others, _, hothers => by
    have hclosed : Reads (')' :: left) [] (')' :: left) := .closer rfl
    have hitems := reads_writeAll h (ended_cons rfl) hclosed
    rw [append_nil] at hitems
    rw [write, cons_append, append_assoc]
    exact @Reads.opener _ _ _ _ _ _ .round rfl hitems hothers
  | .quoted form, h, left, rest, others, hleft, hothers => by
    have hform : form.Writable := h
    rw [write, cons_append]
    exact .apostrophe rfl (reads_write hform hleft hothers)
  | .brackets items, h, left, rest, others, _, hothers => by
    have hclosed : Reads (']' :: left) [] (']' :: left) := .closer rfl
    have hitems := reads_writeAll h (ended_cons rfl) hclosed
    rw [append_nil] at hitems
    rw [write, cons_append, append_assoc]
    exact @Reads.opener _ _ _ _ _ _ .square rfl hitems hothers

lemma reads_writeAll : ∀ {forms : List Form}, AllWritable forms →
    ∀ {left rest : List Char} {others : List Form}, Ended left →
    Reads left others rest → Reads (writeAll forms ++ left) (forms ++ others) rest
  | [], _, _, _, _, _, hothers => hothers
  | [form], h, _, _, _, hleft, hothers => reads_write h.1 hleft hothers
  | form :: next :: forms, h, left, rest, others, hleft, hothers => by
    rw [writeAll, append_assoc]
    exact reads_write h.1 (ended_cons rfl) (.gap rfl (reads_writeAll h.2 hleft hothers))

end

/-- **Reading gives back what was written.** -/
theorem read_writeAll {forms : List Form} (h : AllWritable forms) :
    read (String.ofList (writeAll forms)) = .ok forms := by
  have hend : Reads ['\n', ')'] [] [')'] := .gap rfl (.closer rfl)
  have hforms := reads_writeAll h (ended_cons rfl) hend
  rwa [List.append_nil, ← String.toList_ofList (l := writeAll forms), ← closed, ← read_eq_ok_iff]
    at hforms

/-- Spaces, quotes and backslashes come back, in a symbol and in a text, behind an apostrophe and in
brackets. -/
theorem read_writeAll_protected :
    let forms :=
      [.symbol "a b", .list [.quoted (.brackets [.text "\\\"", .integer (-7)]), .symbol "it's"]]
    AllWritable forms ∧ writeAll forms = "a\\ b ('[\"\\\\\\\"\" -7] it\\'s)".toList ∧
      read (String.ofList (writeAll forms)) = .ok forms := by
  intro forms
  have hnames : IsName "a b" ∧ IsName "it's" :=
    ⟨⟨by decide, by simp [breaks], by rfl, by rfl⟩, ⟨by decide, by simp [breaks], by rfl, by rfl⟩⟩
  have hdigits : (Nat.toDigits 10 7).length ≤ 4300 := by decide
  have hforms : AllWritable forms :=
    ⟨hnames.1, ⟨⟨trivial, hdigits, trivial⟩, hnames.2, trivial⟩, trivial⟩
  exact ⟨hforms, by decide, read_writeAll hforms⟩

end Recast.Form
