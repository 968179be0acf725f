/-!
# File name patterns

A pattern describes whole file names.  `*` stands for any run of characters, `?` for any one
character and `[...]` for one character of a set; every other character stands for itself.  A
pattern is read once into a list of pieces; `Glob.covers` says which texts the pieces describe, and
`glob` finds out in time proportional to the product of the two lengths.

**Sets.**  A set ends at the first `]` after at least one member, a leading `!` not counted.  A
bracket without such an end stands for itself.  Inside, `-` between two members makes a range;
`ranges` says exactly which hyphens do.  A range that runs backwards holds nothing and takes its two
ends with it.  The members that remain are negated when the first of them is `!`.
-/

namespace Recast.Text

/-- A part of a pattern that consumes text in one way. -/
inductive Glob.Piece where
  /-- Any run of characters, the empty one included. -/
  | run
  /-- Any one character. -/
  | one
  /-- This character. -/
  | char (c : Char)
  /-- One character inside (or, negated, outside) the union of some ranges. -/
  | set (negated : Bool) (ranges : List (Char × Char))
  deriving Repr, DecidableEq

namespace Glob

/-- Cuts the inside of a set at its range hyphens.  The first hyphen may only stand after `skip`
characters; the next one is looked for past the two characters that follow a hyphen. -/
def cut : (skip : Nat) → (piece : List Char) → List Char → List (List Char)
  | _, piece, [] => [piece.reverse]
  | skip + 1, piece, c :: cs => cut skip (c :: piece) cs
  | 0, piece, c :: cs => if c == '-' then piece.reverse :: cut 2 [] cs else cut 0 (c :: piece) cs

/-- A hyphen with nothing behind it is a member. -/
def closeLast : List (List Char) → List (List Char)
  | [piece, []] => [piece ++ ['-']]
  | piece :: pieces => piece :: closeLast pieces
  | [] => []

/-- Joins neighbours between which the range would run backwards, from the right to the left,
dropping the two characters that name it. -/
def dropBackward : List (List Char) → List (List Char)
  | [] => []
  | piece :: pieces =>
    match dropBackward pieces with
    | [] => [piece]
    | next :: rest =>
      match piece.getLast?, next.head? with
      | some a, some b =>
        if b < a then (piece.dropLast ++ next.tail) :: rest else piece :: next :: rest
      | _, _ => piece :: next :: rest

/-- The ranges that a cut set names: every character by itself, and one range at each cut. -/
def ranges : List (List Char) → List (Char × Char)
  | [] => []
  | [piece] => piece.map fun c => (c, c)
  | piece :: next :: rest =>
    let own := piece.map fun c => (c, c)
    match piece.getLast?, next.head? with
    | some a, some b => own ++ (a, b) :: ranges (next :: rest)
    | _, _ => own ++ ranges (next :: rest)

/-- The piece that the inside of a set stands for. -/
def setPiece (inside : List Char) : Piece :=
  let pieces :=
    if inside.contains '-' then
      dropBackward (closeLast (cut (if inside.head? == some '!' then 2 else 1) [] inside))
    else [inside]
  match pieces with
  | ('!' :: piece) :: rest => .set true (ranges (piece :: rest))
  | pieces => .set false (ranges pieces)

/-- Splits off a leading character, if it is this one. -/
def lead (c : Char) : List Char → List Char × List Char
  | [] => ([], [])
  | d :: cs => if d == c then ([d], cs) else ([], d :: cs)

theorem lead_length (c : Char) (cs : List Char) : (lead c cs).2.length ≤ cs.length := by
  cases cs with
  | nil => simp [lead]
  | cons d cs => by_cases h : d == c <;> simp [lead, h]

/-- The inside of a set and what follows its end, if it has one. -/
def inside? (cs : List Char) : Option (List Char × List Char) :=
  let (sign, body) := lead '!' cs
  let (first, body) := lead ']' body
  match body.dropWhile (· != ']') with
  | [] => none
  | _ :: rest => some (sign ++ first ++ body.takeWhile (· != ']'), rest)

/-- What follows a set is shorter than the text that starts with it. -/
theorem inside?_length {cs inside rest : List Char} (h : inside? cs = some (inside, rest)) :
    rest.length < cs.length := by
  simp only [inside?] at h
  split at h
  · simp at h
  · rename_i heq
    have hdrop := (List.dropWhile_sublist (· != ']') (l := (lead ']' (lead '!' cs).2).2)).length_le
    rw [heq] at hdrop
    have hlead := lead_length ']' (lead '!' cs).2
    have hsign := lead_length '!' cs
    simp at h hdrop
    rw [← h.2]
    omega

/-- Reads a pattern. -/
def pieces (cs : List Char) : List Piece :=
  match cs with
  | [] => []
  | '*' :: rest => .run :: pieces rest
  | '?' :: rest => .one :: pieces rest
  | '[' :: rest =>
    match h : inside? rest with
    | some (inside, rest') =>
      have := inside?_length h
      setPiece inside :: pieces rest'
    | none => .char '[' :: pieces rest
  | c :: rest => .char c :: pieces rest
termination_by cs.length

/-- Whether a character lies in a set of ranges. -/
def inRanges (rs : List (Char × Char)) (c : Char) : Bool :=
  rs.any fun r => r.1 ≤ c && c ≤ r.2

/-- Whether a piece other than a run accepts a character. -/
def Piece.accepts (c : Char) : Piece → Bool
  | .run => false
  | .one => true
  | .char d => c == d
  | .set negated rs => inRanges rs c != negated

/-- Whether a test holds of a text or of what is left when some characters are taken off its
front. -/
def anyTail (f : List Char → Bool) : List Char → Bool
  | [] => f []
  | c :: cs => f (c :: cs) || anyTail f cs

/-- Whether the pieces describe the whole text. -/
def covers : List Piece → List Char → Bool
  | [], cs => cs.isEmpty
  | .run :: ps, cs => anyTail (covers ps) cs
  | _ :: _, [] => false
  | p :: ps, c :: cs => p.accepts c && covers ps cs

/-! ## Matching in one pass over the pieces

Followed literally, `covers` tries the pieces behind a run again and again on the same tail of the
text.  A *row* holds the answers for all tails of the text at once, the whole text first and the
empty one last, and each piece makes one row out of the row of the pieces behind it. -/

/-- The row of a test. -/
def rowOf (f : List Char → Bool) : List Char → List Bool
  | [] => [f []]
  | c :: cs => f (c :: cs) :: rowOf f cs

/-- Whether a row holds at each place or anywhere behind it. -/
def orLater : List Bool → List Bool
  | [] => []
  | b :: bs =>
    let later := orLater bs
    (b || later.headD false) :: later

/-- The row of a piece for one character, given the row behind it without its first place. -/
def stepRow (p : Piece) : List Char → List Bool → List Bool
  | c :: cs, b :: bs => (p.accepts c && b) :: stepRow p cs bs
  | _, _ => [false]

/-- The row of some pieces. -/
def row : List Piece → List Char → List Bool
  | [], cs => rowOf List.isEmpty cs
  | .run :: ps, cs => orLater (row ps cs)
  | p :: ps, cs => stepRow p cs (row ps cs).tail

theorem headD_rowOf (f : List Char → Bool) (cs : List Char) (b : Bool) :
    (rowOf f cs).headD b = f cs := by
  cases cs <;> rfl

theorem orLater_rowOf (f : List Char → Bool) (cs : List Char) :
    orLater (rowOf f cs) = rowOf (anyTail f) cs := by
  induction cs with
  | nil => simp [rowOf, orLater, anyTail]
  | cons c cs ih => simp only [rowOf, orLater, anyTail, ih, headD_rowOf]

theorem stepRow_rowOf (p : Piece) (f g : List Char → Bool) (hnil : g [] = false)
    (hcons : ∀ c cs, g (c :: cs) = (p.accepts c && f cs)) (cs : List Char) :
    stepRow p cs (rowOf f cs).tail = rowOf g cs := by
  induction cs with
  | nil => simp [rowOf, stepRow, hnil]
  | cons c cs ih =>
    cases cs with
    | nil => simp [rowOf, stepRow, hnil, hcons]
    | cons d cs => simpa [rowOf, stepRow, hcons] using ih

/-- A row holds what the pieces say of every tail of the text. -/
theorem row_eq (ps : List Piece) (cs : List Char) : row ps cs = rowOf (covers ps) cs := by
  induction ps with
  | nil => rfl
  | cons p ps ih =>
    cases p with
    | run => rw [row, ih, orLater_rowOf]; rfl
    | one =>
      rw [row, ih, stepRow_rowOf _ _ (covers (.one :: ps)) rfl fun _ _ => rfl]
      exact nofun
    | char d =>
      rw [row, ih, stepRow_rowOf _ _ (covers (.char d :: ps)) rfl fun _ _ => rfl]
      exact nofun
    | set negated rs =>
      rw [row, ih, stepRow_rowOf _ _ (covers (.set negated rs :: ps)) rfl fun _ _ => rfl]
      exact nofun

end Glob

/-- Whether a pattern describes a whole text. -/
def glob (pattern text : String) : Bool :=
  (Glob.row (Glob.pieces pattern.toList) text.toList).headD false

/-- A pattern describes the texts that its pieces cover. -/
theorem glob_eq_covers (pattern text : String) :
    glob pattern text = Glob.covers (Glob.pieces pattern.toList) text.toList := by
  rw [glob, Glob.row_eq, Glob.headD_rowOf]

end Recast.Text
