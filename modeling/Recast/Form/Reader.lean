import Recast.Decimal.Numeral
import Recast.Form.Basic

/-!
# Reading forms

A text is read from left to right.  `Form.items` reads forms up to the end of the text or a closing
bracket, and returns what is left; a bracketed list is the forms inside, followed by the bracket
that closes it.

* `;` starts a comment that ends with its line.
* A **text** stands between double quotes.  `\` protects the character after it; a few letters name
  a control character that way.
* An **apostrophe** quotes the form that follows, whatever stands between.
* Anything else is an **atom**: a numeral if it reads as one, and otherwise a symbol.  Inside it `\`
  takes away the meaning of a delimiter.

A description is read inside a pair of brackets of its own, each on its own line, so that it may
hold any number of forms and may end in a comment.
-/

namespace Recast.Form

/-- What is wrong with a text that cannot be read.  Where it matters, the fault holds the text from
the offending character on. -/
inductive Fault where
  /-- A text without its closing quote. -/
  | openText
  /-- A list that ends without its own closing bracket. -/
  | unclosed (expected : Char) (got : Option Char)
  /-- An apostrophe with no form behind it. -/
  | bareQuote (rest : List Char)
  /-- A closing bracket without an opening one. -/
  | extraCloser (rest : List Char)
  /-- The description closes the brackets around it and goes on. -/
  | notOne
  deriving Repr, DecidableEq

/-- The words for a fault in a text of `total` characters. -/
def Fault.message (total : Nat) : Fault → String
  | .openText => "'NoneType' object has no attribute 'start'"
  | .unclosed expected got =>
    "Not enough closing brackets. Expected " ++ Text.quote (String.singleton expected) ++
      " to be the last letter in the sexp. Got: " ++
      (got.map fun c => Text.quote (String.singleton c)).getD "None"
  | .bareQuote rest =>
    "No s-exp is found after an apostrophe at position " ++ toString (total - rest.length)
  | .extraCloser rest =>
    "Too many closing brackets. Expected no character left in the sexp. Got: " ++
      Text.quote (String.ofList rest)
  | .notOne => ""

/-- White space between forms. -/
def isGap (c : Char) : Bool :=
  c == ' ' || c == '\t' || c == '\n' || c == '\r' || c.toNat == 0x0b || c.toNat == 0x0c

/-- A closing bracket. -/
def isCloser (c : Char) : Bool := c == ')' || c == ']'

/-- A character that ends an atom. -/
def isDelimiter (c : Char) : Bool :=
  isGap c || isCloser c || c == '(' || c == '[' || c == '"' || c == ';'

/-- What a protected character of a text stands for. -/
def textEscape (c : Char) : List Char :=
  if c == '\\' || c == '"' then [c]
  else if c == 'b' then [Char.ofNat 0x08]
  else if c == 'f' then [Char.ofNat 0x0c]
  else if c == 'n' then ['\n']
  else if c == 'r' then ['\r']
  else if c == 't' then ['\t']
  else ['\\', c]

/-- The inside of a text and what follows its closing quote. -/
def readText : List Char → Option (List Char × List Char)
  | [] => none
  | c :: rest =>
    if c == '"' then some ([], rest)
    else if c == '\\' then
      match rest with
      | [] => none
      | d :: rest => (readText rest).map fun (inside, left) => (textEscape d ++ inside, left)
    else (readText rest).map fun (inside, left) => (c :: inside, left)

/-- The characters that a backslash makes ordinary inside an atom. -/
def atomSpecials : List Char :=
  ['\\', '\'', Char.ofNat 0x60, '"', '(', ')', '[', ']', ' ', ',', '?', ';', '#']

/-- What a protected character of an atom stands for. -/
def atomEscape (c : Char) : List Char :=
  if atomSpecials.contains c then [c] else ['\\', c]

/-- An atom and what follows it. -/
def readAtom : List Char → List Char × List Char
  | [] => ([], [])
  | c :: rest =>
    if c == '\\' then
      match rest with
      | [] => (['\\'], [])
      | d :: rest => (atomEscape d ++ (readAtom rest).1, (readAtom rest).2)
    else if isDelimiter c then ([], c :: rest)
    else (c :: (readAtom rest).1, (readAtom rest).2)

/-- The form that an atom stands for. -/
def ofAtom (atom : String) : Form :=
  match Numeral.integer? atom with
  | some n => .integer n
  | none =>
    match Numeral.real? atom with
    | some x => .real x
    | none => .symbol atom

/-- What follows a comment: the text after its line. -/
def afterComment (cs : List Char) : List Char := (cs.dropWhile (· != '\n')).tail

theorem readText_length {cs inside left : List Char} (h : readText cs = some (inside, left)) :
    left.length < cs.length := by
  fun_induction readText cs generalizing inside left <;> grind [Option.map_eq_some_iff]

theorem readAtom_length (cs : List Char) : (readAtom cs).2.length ≤ cs.length := by
  fun_induction readAtom cs <;> grind

/-- An atom takes at least its first character. -/
theorem readAtom_cons_length {c : Char} (h : isDelimiter c = false) (cs : List Char) :
    (readAtom (c :: cs)).2.length ≤ cs.length := by
  have := readAtom_length cs
  have := readAtom_length cs.tail
  cases cs <;> grind [readAtom]

theorem afterComment_length (cs : List Char) : (afterComment cs).length ≤ cs.length := by
  have := (List.dropWhile_sublist (· != '\n') (l := cs)).length_le
  simp [afterComment]
  omega

/-- The two kinds of bracket. -/
inductive Bracket where
  | round
  | square
  deriving Repr, DecidableEq

/-- The bracket that closes a list. -/
def Bracket.closer : Bracket → Char
  | .round => ')'
  | .square => ']'

/-- The form that a bracketed list is. -/
def Bracket.form : Bracket → List Form → Form
  | .round => .list
  | .square => .brackets

/-- What a character starts when it stands between forms. -/
inductive Start where
  | gap
  | comment
  | closer
  | opener (bracket : Bracket)
  | apostrophe
  | text
  | atom
  deriving Repr, DecidableEq

/-- What this character starts. -/
def start (c : Char) : Start :=
  if isGap c then .gap
  else if isCloser c then .closer
  else if c == ';' then .comment
  else if c == '(' then .opener .round
  else if c == '[' then .opener .square
  else if c == '\'' then .apostrophe
  else if c == '"' then .text
  else .atom

/-- A character that starts an atom does not end one. -/
theorem isDelimiter_of_start {c : Char} (h : start c = .atom) : isDelimiter c = false := by
  unfold start at h
  repeat' split at h
  all_goals simp_all [isDelimiter]

/-- Forms that were read, with what is left of the text: at most `bound` characters. -/
structure Batch (bound : Nat) where
  forms : List Form
  rest : List Char
  fits : rest.length ≤ bound

/-- No forms, and the whole text left. -/
def Batch.none (cs : List Char) : Batch cs.length := ⟨[], cs, Nat.le_refl _⟩

/-- A batch read from the end of a longer text. -/
def Batch.weaken {n m : Nat} (h : n ≤ m) (b : Batch n) : Batch m :=
  ⟨b.forms, b.rest, Nat.le_trans b.fits h⟩

/-- A batch read from the end of a longer text, behind one more form. -/
def Batch.cons {n m : Nat} (h : n ≤ m) (form : Form) (b : Batch n) : Batch m :=
  ⟨form :: b.forms, b.rest, Nat.le_trans b.fits h⟩

/-- Forms up to the end of the text or a closing bracket. -/
def items (cs : List Char) : Except Fault (Batch cs.length) :=
  match cs with
  | [] => .ok (.none [])
  | c :: rest =>
    match h : start c with
    | .gap => (items rest).map (.weaken (Nat.le_succ _))
    | .comment =>
      have short := afterComment_length rest
      (items (afterComment rest)).map (.weaken (Nat.le_succ_of_le short))
    | .closer => .ok (.none (c :: rest))
    | .opener bracket => do
      let inner ← items rest
      match hr : inner.rest with
      | [] => .error (.unclosed bracket.closer .none)
      | d :: after =>
        if d == bracket.closer then
          have short : after.length < rest.length := by
            have := inner.fits
            rw [hr] at this
            exact this
          (items after).map
            (.cons (Nat.le_succ_of_le (Nat.le_of_lt short)) (bracket.form inner.forms))
        else .error (.unclosed bracket.closer d)
    | .apostrophe => do
      let batch ← items rest
      match batch.forms with
      | [] => .error (.bareQuote (c :: rest))
      | form :: forms => .ok ⟨.quoted form :: forms, batch.rest, Nat.le_succ_of_le batch.fits⟩
    | .text =>
      match ht : readText rest with
      | .none => .error .openText
      | some (inside, after) =>
        have short := readText_length ht
        (items after).map
          (.cons (Nat.le_succ_of_le (Nat.le_of_lt short)) (.text (String.ofList inside)))
    | .atom =>
      have short := readAtom_cons_length (isDelimiter_of_start h) rest
      (items (readAtom (c :: rest)).2).map
        (.cons (Nat.le_succ_of_le short) (ofAtom (String.ofList (readAtom (c :: rest)).1)))
termination_by cs.length
decreasing_by all_goals (simp only [List.length_cons]; omega)

/-- The text of a description inside brackets of its own. -/
def wrapped (text : String) : List Char := '(' :: '\n' :: (text.toList ++ ['\n', ')'])

/-- Reads the forms of a description. -/
def read (text : String) : Except Fault (List Form) := do
  let batch ← items (wrapped text)
  match batch.rest, batch.forms with
  | c :: rest, _ => .error (.extraCloser (c :: rest))
  | [], [.list forms] => .ok forms
  | [], _ => .error .notOne

/-- The words for a fault in a description. -/
def Fault.describe (text : String) (fault : Fault) : String := fault.message (wrapped text).length

end Recast.Form
