import Recast.Proofs.Surface.Plans

/-!
# Descriptions are accepted by the table

Whether a form is accepted, how many lines it takes and which messages it records is what the table
of the surface syntax says.

**Roles.**  A plan takes the items of a list in the roles that the table has for them (`Takes`,
`takes_plan`).

**Steps.**  A step of building follows a script if it succeeds exactly if there is one, and then
does what it says (`Follows`).  Reading a form in a role follows the script of the form in this
role; the induction is the one over forms.

* `follows_items` — a description is built by its script.
-/

namespace Recast.Surface

open List
open Build

/-! ## Plans and roles -/

/-- Whether forms are read in a role, and not only looked at. -/
def Role.isRead : Role → Bool
  | .optionalInline | .trailer _ | .message | .keyword _ | .ignored => false
  | _ => true

/-- Whether forms are read in a role below the top level. -/
def Role.isPart : Role → Bool
  | .item => false
  | ρ => ρ.isRead

lemma Role.isRead_of_isPart {ρ : Role} (h : ρ.isPart = true) : ρ.isRead = true := by
  cases ρ with
  | item => rfl
  | _ => exact h

/-- **A plan takes items in roles**, or it is refused for items that look like these. -/
inductive Takes {α : Type} : Plan α → List Look → Option (List Role) → Prop
  | refuse {ls : List Look} : Takes .refuse ls none
  | give {a : α} {ls : List Look} : Takes (.give a) ls (some (replicate ls.length .ignored))
  | place {k : Mark → Plan α} {ls : List Look} {roles : Option (List Role)} :
      (∀ m, Takes (k m) ls roles) → Takes (.place k) ls roles
  | skip {p : Plan α} {tag : String} {ls : List Look} {roles : Option (List Role)} :
      Takes p ls roles → Takes (.skip p) (.symbol tag :: ls) (roles.map (.keyword false :: ·))
  | blank {p q : Plan α} {ρ : Role} {ls : List Look} {roles : Option (List Role)} :
      ρ = .expr ∨ ρ = .optionalInline → Takes p ls roles →
        Takes (.blank p q) (.symbol "_" :: ls) (roles.map (ρ :: ·))
  | other {p q : Plan α} {ls : List Look} {roles : Option (List Role)} :
      ls.head? ≠ some (.symbol "_") → Takes q ls roles → Takes (.blank p q) ls roles
  | part {ρ : Role} {k : ρ.Made → Plan α} {l : Look} {ls : List Look} {roles : Option (List Role)} :
      ρ.isPart = true → (∀ v, Takes (k v) ls roles) →
        Takes (.part ρ k) (l :: ls) (roles.map (ρ :: ·))
  | inline {k : Node → Plan α} {l : Look} {ls : List Look} {roles : Option (List Role)} :
      l ≠ .symbol "_" → (∀ v, Takes (k v) ls roles) →
        Takes (.part .inline k) (l :: ls) (roles.map (.optionalInline :: ·))
  | short {ρ : Role} {k : ρ.Made → Plan α} : Takes (.part ρ k) [] none
  | all {ρ : Role} {f : List ρ.Made → α} {ls : List Look} :
      ρ.isPart = true → Takes (.all ρ fun vs => .give (f vs)) ls (some (replicate ls.length ρ))

lemma rolesOf_rest (ρ : Role) (n : Nat) : rolesOf [] (some ρ) n = some (replicate n ρ) := by
  induction n with
  | zero => rfl
  | succ n ih =>
    rw [rolesOf, ih]
    rfl

/-- A plan goes with a signature, whatever the operands look like. -/
def Suits {α : Type} (p : Plan α) (ρs : List Role) (rest : Option Role) : Prop :=
  ∀ ls, Takes p ls (rolesOf ρs rest ls.length)

section Suits

variable {α : Type} {ρ : Role} {ρs : List Role} {rest : Option Role}

lemma suits_ignored {a : α} : Suits (.give a) [] (some .ignored) := by
  intro ls
  rw [rolesOf_rest]
  exact .give

lemma suits_rest {f : List ρ.Made → α} (hρ : ρ.isPart = true) :
    Suits (.all ρ fun vs => .give (f vs)) [] (some ρ) := by
  intro ls
  rw [rolesOf_rest]
  exact .all hρ

lemma Suits.place {k : Mark → Plan α} (h : ∀ m, Suits (k m) ρs rest) : Suits (.place k) ρs rest :=
  fun ls => .place fun m => h m ls

lemma Suits.part {k : ρ.Made → Plan α} (hρ : ρ.isPart = true) (h : ∀ v, Suits (k v) ρs rest) :
    Suits (.part ρ k) (ρ :: ρs) rest := by
  intro ls
  cases ls with
  | nil => exact .short
  | cons l ls => exact .part hρ fun v => h v ls

lemma Suits.optional {k : Option Node → Plan α} (h : ∀ o, Suits (k o) ρs rest) :
    Suits (.optional (.part .expr) k) (.expr :: ρs) rest := by
  intro ls
  cases ls with
  | nil => exact .other nofun .short
  | cons l ls =>
    by_cases hl : l = .symbol "_"
    · rw [hl]
      exact .blank (.inl rfl) (h none ls)
    · exact .other (fun heq => hl (Option.some_inj.mp heq)) (.part rfl fun v => h (some v) ls)

lemma suits_one {f : Node → α} : Suits (.one f) [.expr] (some .ignored) :=
  .part rfl fun _ => suits_ignored

lemma suits_two {f : Node → Node → α} : Suits (.two f) [.expr, .expr] (some .ignored) :=
  .part rfl fun _ => .part rfl fun _ => suits_ignored

lemma Suits.funcType {k : FuncType → Plan α} (h : ∀ t, Suits (k t) ρs rest) :
    Suits (.funcType k) (.params :: .params :: ρs) rest :=
  .place fun _ => .part rfl fun _ => .part rfl fun _ => h _

lemma suits_body {f : Block → α} : Suits (.body f) [] (some .stmt) := .place fun _ => suits_rest rfl

end Suits

/-- The roles of operands. -/
def operandRoles (σ : Option Signature) (n : Nat) : Option (List Role) :=
  σ.bind fun σ => rolesOf σ.operands σ.rest n

lemma takes_headExpr (mark : Mark) (tag : String) (ls : List Look) :
    Takes (Plan.headExpr mark tag) ls (operandRoles (exprTable tag) ls.length) := by
  rw [Plan.headExpr.eq_def]
  split
  case h_1 => exact Suits.part rfl (fun _ => .part rfl fun _ => suits_ignored) ls
  case h_8 => exact Suits.part rfl (fun _ => suits_rest rfl) ls
  case h_9 => exact Suits.part rfl (fun _ => .place fun _ => .part rfl fun _ => suits_ignored) ls
  case h_10 => exact suits_two ls
  case h_11 => exact Suits.optional (fun _ => suits_rest rfl) ls
  case h_12 => exact Suits.funcType (fun _ => suits_body) ls
  case h_14 => exact suits_two ls
  case h_15 => exact suits_rest (ρ := .member) rfl ls
  case h_16 =>
    have hnone : exprTable tag = none := by
      rw [exprTable.eq_def]
      split <;> simp_all
    rw [hnone]
    exact .refuse
  all_goals exact suits_one ls

lemma takes_expr (tag : String) (args : List Look) :
    Takes (Plan.expr tag args) args (operandRoles (exprSignature tag args) args.length) := by
  refine .place fun mark => ?_
  rw [exprSignature]
  split
  next h =>
    obtain ⟨x, y, rfl⟩ := length_eq_two.mp (beq_iff_eq.mp ((Bool.and_eq_true _ _).mp h).2)
    exact .part rfl fun _ => .part rfl fun _ => .give
  next => exact takes_headExpr mark tag args

lemma takes_element (tag : String) (args : List Look) :
    Takes (Plan.element tag args) args (operandRoles (elementSignature tag args) args.length) := by
  rw [Plan.element, elementSignature]
  split
  · exact Suits.place (fun _ => suits_two) args
  · exact takes_expr tag args

lemma takes_vars {α : Type} (mark : Mark) (make : Node → α) (args : List Look) :
    Takes (Plan.vars mark make) args
      (rolesOf (varSignature args).operands (varSignature args).rest args.length) := by
  match args with
  | [] => exact .short
  | [names] => exact .part rfl fun _ => .other nofun .short
  | names :: type :: values =>
    by_cases h : type = .symbol "_"
    · rw [h]
      exact .part (ρ := .names) rfl fun _ => .blank (.inl rfl)
        (Suits.part rfl (fun _ => suits_rest rfl) values)
    · have hother : varSignature (names :: type :: values) = ⟨[.names, .expr], some .expr⟩ :=
        if_neg fun heq => h (Option.some_inj.mp heq)
      rw [hother]
      exact .part (ρ := .names) rfl fun _ => .other (fun heq => h (Option.some_inj.mp heq))
        (.part rfl fun _ => suits_rest rfl values)

lemma takes_initially {α : Type} {k : Option Node → Plan α} {rest : Option Role}
    (ρs : Nat → List Role) (args : List Look)
    (hk : ∀ init, Takes (k init) (args.drop (initRoles args).length)
      (rolesOf (ρs (args.length - (initRoles args).length)) rest
        (args.drop (initRoles args).length).length)) :
    Takes (Plan.initially args k) args
      (rolesOf (initRoles args ++ ρs (args.length - (initRoles args).length))
        rest args.length) := by
  rw [Plan.initially]
  rw [initRoles] at hk ⊢
  split at hk
  next h =>
    rw [if_pos h, if_pos h]
    cases args with
    | nil => cases h
    | cons l ls => exact .part (ρ := .init) rfl fun n => hk (some n)
  next h =>
    rw [if_neg h, if_neg h]
    exact hk none

lemma takes_branch (mark : Mark) (init : Option Node) (ls : List Look) :
    Takes (Plan.branch mark init ls.length) ls
      (rolesOf (branchRoles ls.length) none ls.length) := by
  match ls with
  | [] | [_] | _ :: _ :: _ :: _ :: _ => exact .refuse
  | [_, _] => exact .part rfl fun _ => .part rfl fun _ => .give
  | [_, _, _] => exact .part rfl fun _ => .part rfl fun _ => .part rfl fun _ => .give

lemma Takes.optional {α : Type} {k : Option Node → Plan α} {l : Look} {ls : List Look}
    {roles : Option (List Role)} (h : ∀ o, Takes (k o) ls roles) :
    Takes (.optional (.part .expr) k) (l :: ls) (roles.map (.expr :: ·)) := by
  by_cases hl : l = .symbol "_"
  · rw [hl]
    exact .blank (.inl rfl) (h none)
  · exact .other (fun heq => hl (Option.some_inj.mp heq)) (.part rfl fun v => h (some v))

lemma Takes.optionalInline {α : Type} {k : Option Node → Plan α} {l : Look} {ls : List Look}
    {roles : Option (List Role)} (h : ∀ o, Takes (k o) ls roles) :
    Takes (.optional (.part .inline) k) (l :: ls) (roles.map (.optionalInline :: ·)) := by
  by_cases hl : l = .symbol "_"
  · rw [hl]
    exact .blank (.inr rfl) (h none)
  · exact .other (fun heq => hl (Option.some_inj.mp heq)) (.inline hl fun v => h (some v))

lemma takes_loop (mark : Mark) (ls : List Look) :
    Takes (Plan.loop mark ls.length) ls (rolesOf (forRoles ls.length) none ls.length) := by
  match ls with
  | [] | [_, _, _] | _ :: _ :: _ :: _ :: _ :: _ => exact .refuse
  | [_] => exact .part rfl fun _ => .give
  | [_, _] =>
    show Takes (.optional (.part .expr) fun x => .part .block fun b =>
      .give (Node.forStmt mark none x none b)) _ _
    exact .optional fun _ => .part (ρ := .block) rfl fun _ => .give
  | [_, _, _, _] =>
    show Takes (.optional (.part .inline) fun init => .optional (.part .expr) fun x =>
      .optional (.part .inline) fun post =>
      .part .block fun b => .give (Node.forStmt mark init x post b)) _ _
    exact .optionalInline fun _ => .optional fun _ => .optionalInline fun _ =>
      .part (ρ := .block) rfl fun _ => .give

lemma takes_headStmt (mark : Mark) (tag : String) (args : List Look) :
    Takes (Plan.headStmt mark args tag) args
      (operandRoles (stmtSignature tag args) args.length) := by
  have hassignAll : ∀ op, Suits (Plan.headStmt.assignAll mark op) [.exprs 1, .expr]
    (some .expr) := fun op =>
    .part rfl fun _ => .part rfl fun _ => suits_rest rfl
  rw [Plan.headStmt.eq_def]
  split
  case h_1 => exact suits_two args
  case h_2 => exact suits_two args
  case h_3 => exact hassignAll ":=" args
  case h_4 => exact hassignAll "=" args
  case h_5 => exact takes_vars mark id args
  case h_7 => exact Suits.place (fun _ => .part rfl fun _ => suits_rest rfl) args
  case h_8 => exact suits_rest (ρ := .expr) rfl args
  case h_9 => exact suits_ignored args
  case h_10 => exact suits_ignored args
  case h_13 => exact suits_rest (ρ := .stmt) rfl args
  case h_14 =>
    refine takes_initially branchRoles args fun init => ?_
    rw [← length_drop]
    exact takes_branch mark init _
  case h_15 => exact takes_loop mark args
  case h_16 =>
    exact Suits.optional
      (fun _ => .optional fun _ => .part rfl fun _ => .part rfl fun _ => suits_ignored) args
  case h_17 =>
    exact takes_initially (fun _ => [.expr]) args fun init => Suits.optional
      (fun _ => suits_rest rfl) _
  case h_18 =>
    have hnone : stmtSignature tag args = none := by
      rw [stmtSignature.eq_def]
      split <;> simp_all
    rw [hnone]
    exact .refuse
  all_goals exact suits_one args

lemma takes_stmt (tag : String) (args : List Look) :
    Takes (Plan.stmt tag args) args (operandRoles (stmtSignature tag args) args.length) :=
  .place fun mark => takes_headStmt mark tag args

lemma takes_block {α : Type} (make : Block → α) (tag : String) (args : List Look) :
    Takes (Plan.block make tag) args (operandRoles (blockSignature tag) args.length) := by
  rw [Plan.block, blockSignature]
  split
  · exact suits_body args
  · exact .refuse

lemma takes_clause (tag : String) (args : List Look) :
    Takes (Plan.clause tag) args (operandRoles (clauseSignature tag) args.length) := by
  refine .place fun mark => ?_
  rw [clauseSignature]
  split
  · exact suits_rest (ρ := .stmt) rfl args
  · split
    · exact Suits.part rfl (fun _ => suits_rest rfl) args
    · exact .refuse

lemma takes_headItem (tag : String) (args : List Look) :
    Takes (Plan.headItem tag) args (operandRoles (itemSignature tag args) args.length) := by
  have htype : ∀ isAlias, Suits (Plan.headItem.declareType isAlias) [.name, .expr]
    (some .ignored) := fun isAlias =>
    .place fun _ => .part rfl fun _ => .part rfl fun _ => suits_ignored
  rw [Plan.headItem.eq_def]
  split
  case h_1 => exact Suits.part rfl (fun _ => suits_ignored) args
  case h_2 => exact suits_rest (ρ := .path) rfl args
  case h_3 => exact htype false args
  case h_4 => exact htype true args
  case h_5 => exact .place fun mark => takes_vars mark Item.decl args
  case h_6 => exact Suits.place (fun _ => .part rfl fun _ => .funcType fun _ => suits_body) args
  case h_7 =>
    have hnone : itemSignature tag args = none := by
      rw [itemSignature.eq_def]
      split <;> simp_all
    rw [hnone]
    exact .refuse

lemma takes_headed {α : Type} {p : String → List Look → Plan α}
    {signature : String → List Look → Option Signature}
    (hp : ∀ tag args, Takes (p tag args) args (operandRoles (signature tag args) args.length))
    (ls : List Look) :
    Takes (Plan.headed p ls) ls (headedRoles signature ls) := by
  match ls with
  | [] | .tagged _ :: _ | .other :: _ => exact .refuse
  | .symbol tag :: args =>
    have hroles : headedRoles signature (.symbol tag :: args) =
        (operandRoles (signature tag args) args.length).map (.keyword false :: ·) := by
      rw [headedRoles, operandRoles]
      cases signature tag args with
      | _ => rfl
    rw [hroles]
    exact .skip (hp tag args)

lemma takes_names {α : Type} {k : List Ident → Plan α} (ls' : List Look)
    {roles : Option (List Role)} (hk : ∀ is, Takes (k is) ls' roles) (ls : List Look) :
    Takes (Plan.names ls.length k) (ls ++ ls') (roles.map (replicate ls.length .name ++ ·)) := by
  induction ls generalizing k with
  | nil =>
    have hroles : roles.map (replicate 0 Role.name ++ ·) = roles := by
      cases roles with
      | _ => rfl
    exact hroles.symm ▸ hk []
  | cons l ls ih =>
    have h :=
      Takes.part (ρ := .name) (k := fun i => Plan.names ls.length fun is => k (i :: is))
        (l := l) rfl fun i =>
      ih fun is => hk (i :: is)
    rwa [Option.map_map] at h

lemma takes_namesThenType (ls : List Look) :
    Takes (Plan.namesThenType ls.length) ls (namesThenType ls) := by
  refine .place fun mark => ?_
  rcases eq_nil_or_concat' ls with rfl | ⟨front, last, rfl⟩
  · exact .short
  · have h := takes_names (k := fun is => .part .expr fun t => .give (Field.mk mark is t)) [last]
      (fun is => .part rfl fun t => .give) front
    have hroles : namesThenType (front ++ [last]) =
        some (replicate front.length .name ++ [.expr]) := by
      cases front with
      | nil => rfl
      | cons l ls => simp [namesThenType]
    rw [hroles, length_append, length_singleton, Nat.add_sub_cancel]
    exact h

/-- The roles of the items of a list that does not end with an annotation. -/
def Role.bareParts (ρ : Role) (ls : List Look) : Option (List Role) :=
  match ρ with
  | .item | .stmt | .clause | .alternative => headedRoles ρ.signature ls
  | ρ => ρ.parts ls

/-- **A plan takes the items of a list in the roles of the table.** -/
theorem takes_plan {ρ : Role} (hρ : ρ.isRead = true) (ls : List Look) :
    Takes (plan ρ ls) ls (ρ.bareParts ls) := by
  cases ρ with
  | item => exact takes_headed takes_headItem ls
  | stmt => exact takes_headed takes_stmt ls
  | inline => exact takes_headed takes_stmt ls
  | clause => exact takes_headed takes_clause ls
  | alternative =>
    refine takes_headed (fun tag args => ?_) ls
    rw [Plan.alternative, Role.signature]
    split
    · exact takes_stmt tag args
    · exact takes_block _ tag args
  | block => exact takes_headed (takes_block id) ls
  | init =>
    refine takes_headed (fun tag args => ?_) ls
    rw [Plan.init, Role.signature]
    split
    · exact Suits.part rfl (fun _ => suits_ignored) args
    · exact .refuse
  | expr => exact takes_headed takes_expr ls
  | element => exact takes_headed takes_element ls
  | exprs least =>
    show Takes (Plan.exprs least ls) ls (if ls.length < least then none else _)
    rw [Plan.exprs]
    split
    · exact .refuse
    · exact .all rfl
  | param => exact takes_namesThenType ls
  | params => exact .all rfl
  | member =>
    show Takes (Plan.member ls) ls (Role.parts .member ls)
    rw [Plan.member, Role.parts]
    split
    next h =>
      cases ls with
      | nil => cases h
      | cons l ls =>
        cases h
        exact takes_headed
          (p := fun _ _ => .place fun mark => .part .expr fun t => .give (Field.mk mark [] t))
          (fun _ args => Suits.place (fun _ => .part rfl fun _ => suits_ignored) args)
          (.symbol "embed" :: ls)
    next =>
      split
      · exact .refuse
      · exact takes_namesThenType ls
  | name | path =>
    show Takes .refuse ls (headedRoles (fun _ _ => none) ls)
    rw [show headedRoles (fun _ _ => none) ls = none by rw [headedRoles.eq_def]; split <;> rfl]
    exact .refuse
  | names => exact .all rfl
  | _ => cases hρ

/-! ## Scripts -/

namespace Script

variable {s t u : Script}

@[simp] lemma none_join : join none s = none := rfl

@[simp] lemma join_none : join s none = none := by
  cases s with
  | _ => rfl

@[simp] lemma nil_join : join (some []) s = s := by
  cases s with
  | _ => rfl

@[simp] lemma join_nil : join s (some []) = s := by
  cases s with
  | none => rfl
  | some es => exact congrArg some (append_nil es)

lemma join_assoc : join (join s t) u = join s (join t u) := by
  cases s with
  | none => rfl
  | some es =>
    cases t with
    | none => rfl
    | some es' =>
      cases u with
      | none => rfl
      | some es'' => exact congrArg some (append_assoc es es' es'')

@[simp] lemma all_cons (s : Script) (ss : List Script) : all (s :: ss) = join s (all ss) := rfl

end Script

/-- The number of lines of a script. -/
def lineCount (es : List Sign) : Nat := es.count .line

/-- The messages of a script that begins on a line. -/
def noted (file : String) (line : Nat) : List Sign → List Expectation
  | [] => []
  | .line :: es => noted file (line + 1) es
  | .want message :: es => ⟨file, line, message⟩ :: noted file line es

lemma noted_append (file : String) (line : Nat) (es es' : List Sign) :
    noted file line (es ++ es') = noted file line es ++ noted file (line + lineCount es) es' := by
  induction es generalizing line with
  | nil => rfl
  | cons e es ih =>
    cases e with
    | line =>
      rw [cons_append, noted, noted, ih, lineCount, lineCount, count_cons_self]
      congr 2
      omega
    | want message =>
      rw [cons_append, noted, noted, ih, lineCount, lineCount,
        count_cons_of_ne (by simp), cons_append]

lemma noted_wants (file : String) (line : Nat) (messages : List String) (es : List Sign) :
    noted file line (messages.map .want ++ es) = messages.map (⟨file, line, ·⟩) ++
      noted file line es := by
  induction messages with
  | nil => rfl
  | cons message messages ih => exact congrArg (_ :: ·) ih

/-! ## Steps that follow a script -/

/-- What a script does to the cursor. -/
structure Played (es : List Sign) (c c' : Cursor) : Prop where
  file : c'.file = c.file
  line : c'.line = c.line + lineCount es
  expectations : c'.expectations = c.expectations ++ noted c.file c.line es

lemma Played.trans {es es' : List Sign} {c c' c'' : Cursor} (h : Played es c c')
    (h' : Played es' c' c'') :
    Played (es ++ es') c c'' where
  file := h'.file.trans h.file
  line := by rw [h'.line, h.line, lineCount, lineCount, lineCount, count_append, Nat.add_assoc]
  expectations := by
    rw [h'.expectations, h.expectations, h.file, h.line, noted_append, append_assoc]

/-- **A step of building follows a script.** -/
def Follows {α : Type} (x : Build α) : Script → Prop
  | none => ∀ c, ∃ e, x.run c = .error e
  | some es => ∀ c, ∃ a c', x.run c = .ok (a, c') ∧ Played es c c'

variable {α β : Type} {x : Build α} {f : α → Build β} {s t : Script}

lemma follows_pure (v : α) : Follows (pure v : Build α) (some []) :=
  fun c => ⟨v, c, rfl, rfl, rfl, (append_nil _).symm⟩

lemma follows_refuse (cause : Malformed) : Follows (refuse cause : Build α) none :=
  fun _ => ⟨_, rfl⟩

lemma follows_place : Follows place (some []) := fun _ => ⟨_, _, rfl, rfl, rfl, (append_nil _).symm⟩

lemma follows_nextLine : Follows nextLine (some [.line]) :=
  fun _ => ⟨_, _, rfl, rfl, rfl, (append_nil _).symm⟩

lemma follows_expect (message : String) :
    Follows (expect message) (some [.want message]) := fun _ =>
  ⟨_, _, rfl, rfl, rfl, rfl⟩

/-- Behind a step that is refused nothing comes. -/
lemma Follows.stop (hx : Follows x none) : Follows (x >>= f) none := by
  intro c
  obtain ⟨e, he⟩ := hx c
  exact ⟨e, by rw [StateT.run_bind, he]; rfl⟩

lemma Follows.bind (hx : Follows x s) (hf : ∀ v, Follows (f v) t) :
    Follows (x >>= f) (s.join t) := by
  cases s with
  | none => exact hx.stop
  | some es =>
    have hrun : ∀ c, ∃ v c', Played es c c' ∧ (x >>= f).run c = (f v).run c' := by
      intro c
      obtain ⟨v, c', hv, hplayed⟩ := hx c
      exact ⟨v, c', hplayed, by rw [StateT.run_bind, hv]; rfl⟩
    cases t with
    | none =>
      intro c
      obtain ⟨v, c', -, heq⟩ := hrun c
      obtain ⟨e, he⟩ := hf v c'
      exact ⟨e, heq.trans he⟩
    | some es' =>
      intro c
      obtain ⟨v, c', hplayed, heq⟩ := hrun c
      obtain ⟨w, c'', hw, hplayed'⟩ := hf v c'
      exact ⟨w, c'', heq.trans hw, hplayed.trans hplayed'⟩

/-- Where nothing is left to do but to put the parts together. -/
lemma Follows.give {g : α → Build β} (hx : Follows x s) (hg : ∀ v, Follows (g v) (some [])) :
    Follows (x >>= g) s := by
  have h := hx.bind hg
  rwa [Script.join_nil] at h

/-- Behind a step that is always taken. -/
lemma Follows.after (hx : Follows x (some [])) (hf : ∀ v, Follows (f v) t) :
    Follows (x >>= f) t := by
  have h := hx.bind hf
  rwa [Script.nil_join] at h

lemma follows_mapM {γ : Type} {g : γ → Build α} {h : γ → Script} (ys : List γ)
    (hg : ∀ y ∈ ys, Follows (g y) (h y)) :
    Follows (ys.mapM g) (Script.all (ys.map h)) := by
  induction ys with
  | nil => exact follows_pure _
  | cons y ys ih =>
    rw [mapM_cons]
    refine (hg y mem_cons_self).bind fun v => ?_
    exact (ih fun y hy => hg y (mem_cons_of_mem _ hy)).give fun vs => follows_pure _

lemma scriptAll_replicate (forms : List Form) (ρ : Role) :
    scriptAll forms (replicate forms.length ρ) = Script.all (forms.map (script · ρ)) := by
  induction forms with
  | nil => rfl
  | cons form forms ih => rw [length_cons, replicate_succ, scriptAll, ih, map_cons, Script.all_cons]

mutual

/-- Nothing is asked of what is ignored. -/
lemma script_ignored : (form : Form) → script form .ignored = some []
  | .symbol _ | .text _ | .integer _ | .real _ | .quoted _ | .brackets _ => rfl
  | .list forms => by
    rw [script, Role.parts, length_map]
    show Script.join (some []) (scriptAll forms _) = _
    rw [Script.nil_join, scriptAll_ignored forms]

lemma scriptAll_ignored :
    (forms : List Form) → scriptAll forms (replicate forms.length .ignored) = some []
  | [] => rfl
  | form :: forms => by
    rw [length_cons, replicate_succ, scriptAll, script_ignored form, scriptAll_ignored forms]
    rfl

end

lemma scriptAll_cons (roles : Option (List Role)) (ρ : Role) (form : Form) (forms : List Form) :
    (roles.map (ρ :: ·)).bind (scriptAll (form :: forms)) =
      (script form ρ).join (roles.bind (scriptAll forms)) := by
  cases roles with
  | none => exact Script.join_none.symm
  | some roles => rfl

/-- Where `_` does not stand for a statement. -/
lemma script_optionalInline {form : Form} (h : look form ≠ .symbol "_") :
    script form .optionalInline = script form .inline := by
  cases form with
  | symbol name =>
    have hname : (name == "_") = false := beq_false_of_ne fun heq => h (heq ▸ rfl)
    rw [script, script, Role.takesSymbol, hname]
    rfl
  | _ => rfl

lemma head_isBlank {forms : List Form} (h : (forms.map look).head? ≠ some (.symbol "_")) :
    ¬forms.head?.any Form.isBlank = true := by
  cases forms with
  | nil => exact Bool.false_ne_true
  | cons form forms => exact fun hblank => h (congrArg some (isSymbol_iff.mp hblank))

/-- **Plans follow the table**, if the forms they read do. -/
lemma follows_run {p : Plan α} {ls : List Look} {roles : Option (List Role)}
    (h : Takes p ls roles) {forms : List Form} (hls : forms.map look = ls)
    (hforms : ∀ form ∈ forms, ∀ ρ, ρ.isPart = true → Follows (read ρ form) (script form ρ)) :
    Follows (p.run forms) (roles.bind (scriptAll forms)) := by
  induction h generalizing forms with
  | refuse => exact follows_refuse _
  | give =>
    rw [← hls, length_map]
    show Follows _ (scriptAll forms _)
    rw [scriptAll_ignored]
    exact follows_pure _
  | place _ ih => exact follows_place.after fun m => ih m hls hforms
  | skip _ ih =>
    obtain ⟨form, forms, rfl, hl, hls⟩ := map_eq_cons_iff.mp hls
    rw [scriptAll_cons, form_of_look hl]
    exact Script.nil_join.symm ▸ ih hls fun form hform => hforms form (mem_cons_of_mem _ hform)
  | blank hρ _ ih =>
    obtain ⟨form, forms, rfl, hl, hls⟩ := map_eq_cons_iff.mp hls
    have hfollows := ih hls fun form hform => hforms form (mem_cons_of_mem _ hform)
    rw [scriptAll_cons, form_of_look hl]
    rcases hρ with rfl | rfl
    · exact Script.nil_join.symm ▸ hfollows
    · exact Script.nil_join.symm ▸ hfollows
  | other hne _ ih =>
    rw [Plan.run, if_neg (head_isBlank (hls ▸ hne))]
    exact ih hls hforms
  | part hρ _ ih =>
    obtain ⟨form, forms, rfl, -, hls⟩ := map_eq_cons_iff.mp hls
    rw [scriptAll_cons]
    exact (hforms form mem_cons_self _ hρ).bind fun v => ih v hls fun form hform => hforms form
      (mem_cons_of_mem _ hform)
  | inline hne _ ih =>
    obtain ⟨form, forms, rfl, hl, hls⟩ := map_eq_cons_iff.mp hls
    rw [scriptAll_cons, script_optionalInline (hl ▸ hne)]
    exact (hforms form mem_cons_self .inline rfl).bind fun v => ih v hls fun form hform =>
      hforms form (mem_cons_of_mem _ hform)
  | short =>
    rw [map_eq_nil_iff.mp hls]
    exact follows_refuse _
  | all hρ =>
    rw [← hls, length_map]
    show Follows _ (scriptAll forms _)
    rw [scriptAll_replicate]
    exact (follows_mapM forms fun form hform => hforms form hform _ hρ).give fun _ => follows_pure _

/-! ## Annotations -/

lemma headedScript_none (forms : List Form) (ls : List Look) :
    (headedRoles (fun _ _ => none) ls).bind (scriptAll forms) = none := by
  rw [headedRoles.eq_def]
  split
  · rfl
  · rfl

lemma script_message (form : Form) : script form .message = match form with
    | .text _ => some []
    | _ => none := by
  cases form with
  | list forms =>
    rw [script]
    exact (congrArg _ (headedScript_none forms _)).trans Script.join_none
  | _ => rfl

/-- Messages are recorded, and nothing else is a message. -/
lemma follows_messages (forms : List Form) : Follows (forms.forM fun
    | .text message => expect message
    | got =>
      refuse (.wantText got))
        (Script.join (some ((messages (.list (.symbol "want" :: forms))).map .want))
      (Script.all (forms.map (script · .message)))) := by
  induction forms with
  | nil => exact follows_pure _
  | cons form forms ih =>
    rw [map_cons, Script.all_cons, script_message]
    show Follows ((match form with
      | .text message => expect message
      | got => refuse (.wantText got)) >>= _) _
    split
    next message =>
      have hjoin : ∀ (es : List Sign) (s : Script), Script.join (some (.want message :: es)) s =
          Script.join (some [.want message]) (Script.join (some es) s) := by
        intro es s
        rw [← Script.join_assoc]
        rfl
      rw [Script.nil_join]
      show Follows _
        (Script.join
          (some (.want message :: (messages (.list (.symbol "want" :: forms))).map .want)) _)
      rw [hjoin]
      exact (follows_expect message).bind fun _ => ih
    next h =>
      rw [Script.none_join, Script.join_none]
      exact (follows_refuse _).stop

lemma length_rolesOf {ρs roles : List Role} {rest : Option Role} {n : Nat}
    (h : rolesOf ρs rest n = some roles) :
    roles.length = n := by
  induction n generalizing ρs roles with
  | zero =>
    cases ρs with
    | nil =>
      cases h
      rfl
    | cons ρ ρs => cases h
  | succ n ih =>
    cases ρs with
    | nil =>
      obtain ⟨ρ, -, h⟩ := Option.bind_eq_some_iff.mp h
      obtain ⟨roles', h', rfl⟩ := Option.map_eq_some_iff.mp h
      rw [length_cons, ih h']
    | cons ρ ρs =>
      obtain ⟨roles', h', rfl⟩ := Option.map_eq_some_iff.mp h
      rw [length_cons, ih h']

lemma length_headedRoles {signature : String → List Look → Option Signature}
    {ls : List Look} {roles : List Role}
    (h : headedRoles signature ls = some roles) : roles.length = ls.length := by
  rw [headedRoles.eq_def] at h
  split at h
  · obtain ⟨σ, -, h⟩ := Option.bind_eq_some_iff.mp h
    obtain ⟨roles', h', rfl⟩ := Option.map_eq_some_iff.mp h
    rw [length_cons, length_cons, length_rolesOf h']
  · cases h

/-- Annotations add nothing to a script but their messages. -/
lemma all_messages (forms : List Form) :
    Script.all (forms.map (script · .message)) = some [] ∨
    Script.all (forms.map (script · .message)) = none := by
  induction forms with
  | nil => exact .inl rfl
  | cons form forms ih =>
    rw [map_cons, Script.all_cons, script_message]
    split
    · rw [Script.nil_join]
      exact ih
    · exact .inr rfl

lemma scriptAll_append {forms forms' : List Form} {ρs ρs' : List Role}
    (h : forms.length = ρs.length) :
    scriptAll (forms ++ forms') (ρs ++ ρs') = (scriptAll forms ρs).join (scriptAll forms' ρs') := by
  induction forms generalizing ρs with
  | nil =>
    rw [length_nil, eq_comm, length_eq_zero_iff] at h
    subst h
    exact Script.nil_join.symm
  | cons form forms ih =>
    match ρs with
    | [] => cases h
    | ρ :: ρs =>
      rw [cons_append, cons_append, scriptAll, scriptAll, ih (Nat.succ.inj h), Script.join_assoc]

/-- The roles of the items of a form that gets a line. -/
lemma parts_lined {ρ : Role} {ls : List Look} (h : ρ.isLined ls = true) :
    ρ.parts ls = annotatedRoles ρ.bareParts ls := by
  cases ρ with
  | item | stmt | clause => rfl
  | alternative => exact if_pos h
  | _ => cases h

lemma parts_unlined {ρ : Role} {ls : List Look} (h : ρ.isLined ls = false) :
    ρ.parts ls = ρ.bareParts ls := by
  cases ρ with
  | item | stmt | clause => cases h
  | alternative =>
    exact if_neg (Bool.eq_false_iff.mp h)
  | _ => rfl

/-- What a form that ends with an annotation is made of. -/
lemma exists_annotation {forms : List Form} (h : isAnnotated (forms.map look) = true) :
    ∃ front notes, front ≠ [] ∧ forms = front ++ [.list (.symbol "want" :: notes)] := by
  obtain ⟨hlength, hlook⟩ := (Bool.and_eq_true _ _).mp h
  rcases eq_nil_or_concat' forms with rfl | ⟨front, last, rfl⟩
  · cases hlength
  · rw [map_append, map_singleton, getLast?_concat, beq_iff_eq, Option.some_inj] at hlook
    obtain ⟨notes, rfl⟩ := look_tagged.mp hlook
    refine ⟨front, notes, ?_, rfl⟩
    rintro rfl
    cases hlength

lemma isAnnotated_concat {ls : List Look} (hls : ls ≠ []) (l : Look) :
    isAnnotated (ls ++ [l]) = (l == .tagged "want") := by
  have hlength : 2 ≤ (ls ++ [l]).length := by
    have := length_pos_iff.mpr hls
    rw [length_append, length_singleton]
    omega
  rw [isAnnotated, getLast?_concat, decide_eq_true hlength, Bool.true_and]
  rfl

lemma length_bareParts {ρ : Role} {ls ls' : List Look} {roles : List Role}
    (hlined : ρ.isLined ls' = true)
    (h : ρ.bareParts ls = some roles) : roles.length = ls.length := by
  cases ρ with
  | item | stmt | clause | alternative => exact length_headedRoles h
  | _ => cases hlined

/-- The script of a form that gets a line and ends with an annotation. -/
lemma script_annotated {ρ : Role} {forms notes : List Form} (hforms : forms ≠ [])
    (hlined : ρ.isLined ((forms ++ [Form.list (.symbol "want" :: notes)]).map look) = true) :
    script (.list (forms ++ [.list (.symbol "want" :: notes)])) ρ =
      Script.join (some [.line])
        (Script.join (Script.join (some ((messages (.list (.symbol "want" :: notes))).map .want))
        (Script.all (notes.map (script · .message))))
          ((ρ.bareParts (forms.map look)).bind (scriptAll forms))) := by
  have hann : isAnnotated ((forms ++ [Form.list (.symbol "want" :: notes)]).map look) = true := by
    rw [map_append, map_singleton, isAnnotated_concat (by simpa using hforms)]
    rfl
  have hnote : ∀ b, script (.list (.symbol "want" :: notes)) (.trailer b) =
      Script.all (notes.map (script · .message)) := by
    intro b
    rw [script, ← scriptAll_replicate]
    show Script.join (some []) (scriptAll (.symbol "want" :: notes) (.keyword b :: replicate _ _)) =
      _
    rw [Script.nil_join, scriptAll, length_map]
    exact Script.nil_join
  have hparts :
    (annotatedRoles ρ.bareParts ((forms ++ [Form.list (.symbol "want" :: notes)]).map look)).bind
      (scriptAll (forms ++ [.list (.symbol "want" :: notes)])) =
        Script.join ((ρ.bareParts (forms.map look)).bind (scriptAll forms))
            (Script.all (notes.map (script · .message))) := by
    rw [annotatedRoles, if_pos hann, map_append, map_singleton, dropLast_concat]
    cases hroles : ρ.bareParts (forms.map look) with
    | none => rfl
    | some roles =>
      show scriptAll _ (roles ++ [.trailer _]) = (scriptAll forms roles).join _
      have hlength := length_bareParts hlined hroles
      rw [length_map] at hlength
      rw [scriptAll_append hlength.symm, scriptAll, hnote, scriptAll, Script.join_nil]
  rw [script, parts_lined hlined, hparts, lead, if_pos hlined, if_pos hann, getLast?_concat]
  rcases all_messages notes with h | h
  · rw [h, Script.join_nil, Script.join_nil, ← Script.join_assoc]
    rfl
  · rw [h, Script.join_none, Script.join_none, Script.join_none, Script.none_join, Script.join_none]

lemma Follows.congr {y : Build α} (h : Agree x y) (hy : Follows y s) : Follows x s := by
  cases s with
  | none =>
    intro c
    obtain ⟨e, he⟩ := hy c
    cases hx : x.run c with
    | error e' => exact ⟨e', rfl⟩
    | ok p =>
      have := h c
      rw [hx, he] at this
      cases this
  | some es =>
    intro c
    obtain ⟨a, c', hrun, hplayed⟩ := hy c
    exact ⟨a, c', h.ok_iff.mpr hrun, hplayed⟩

/-- A list follows its script, if its items do. -/
lemma follows_list {ρ : Role} (hρ : ρ.isRead = true) {forms : List Form}
    (hforms : ∀ form ∈ forms, ∀ ρ, ρ.isPart = true → Follows (read ρ form) (script form ρ)) :
    Follows (read ρ (.list forms)) (script (.list forms) ρ) := by
  refine .congr (read_list ρ forms) ?_
  rw [planned]
  split
  next hlined =>
    by_cases hann : isAnnotated (forms.map look) = true
    · obtain ⟨front, notes, hfront, rfl⟩ := exists_annotation hann
      have hbare : bare (front ++ [.list (.symbol "want" :: notes)]) =
        front := by rw [bare, if_pos hann, dropLast_concat]
      have hnote : note (front ++ [.list (.symbol "want" :: notes)]) = notes.forM fun
          | .text message => expect message
          | got => refuse (.wantText got) := by
        rewrite [note, hann, getLast?_concat]
        rfl
      rw [script_annotated hfront hlined, hbare, hnote]
      exact follows_nextLine.bind fun _ => (follows_messages notes).bind fun _ =>
        follows_run (takes_plan hρ _) rfl
        fun form hform => hforms form (mem_append_left _ hform)
    · rw [Bool.not_eq_true] at hann
      rw [script, lead, hlined, hann, parts_lined hlined, annotatedRoles, hann,
        bare, hann, note, hann]
      exact follows_nextLine.bind fun _ => (follows_pure ()).after fun _ => follows_run
        (takes_plan hρ _) rfl hforms
  next hlined =>
    rw [Bool.not_eq_true] at hlined
    rw [script, lead, hlined, parts_unlined hlined]
    exact Script.nil_join.symm ▸ follows_run (takes_plan hρ _) rfl hforms

/-! ## Atoms -/

lemma follows_plainIdent (form : Form) : Follows (plainIdent form) (script form .name) := by
  cases form with
  | symbol name =>
    show Follows (if name.toList.contains '.' then _ else _) (accepted !name.toList.contains '.')
    split
    next h =>
      rw [h]
      exact follows_refuse _
    next h =>
      rw [Bool.not_eq_true] at h
      rw [h]
      exact follows_place.give fun _ => follows_pure _
  | list forms =>
    rw [script]
    exact (congrArg _ (headedScript_none forms _)).trans Script.join_none ▸ follows_refuse _
  | _ => exact follows_refuse _

lemma follows_dottedName (name : String) :
    Follows (dottedName name) (accepted (Role.takesSymbol .expr name)) := by
  refine follows_place.after fun mark => ?_
  rw [Role.takesSymbol]
  split
  next h => exact absurd (map_eq_nil_iff.mp h) (splitOn_ne_nil _ _)
  next first rest h =>
    rw [h]
    split
    next h =>
      rw [h]
      exact follows_refuse _
    next h =>
      rw [Bool.not_eq_true] at h
      rw [h]
      exact follows_pure _

lemma follows_oneName {form : Form} (h : ∀ forms, form ≠ .list forms) :
    Follows (List.singleton <$> plainIdent form) (script form .names) := by
  have hname : script form .names = script form .name := by
    cases form with
    | list forms => exact absurd rfl (h forms)
    | _ => rfl
  rw [map_eq_pure_bind, hname]
  exact (follows_plainIdent form).give fun _ => follows_pure _

lemma follows_importOf (form : Form) : Follows (importOf form) (script form .path) := by
  cases form with
  | symbol path => exact follows_place.give fun _ => follows_pure _
  | text path => exact follows_place.give fun _ => follows_pure _
  | list forms =>
    rw [script]
    exact (congrArg _ (headedScript_none forms _)).trans Script.join_none ▸ follows_refuse _
  | _ => exact follows_refuse _

/-- An atom is accepted only where an atom can stand. -/
lemma follows_refuse_atom {form : Form} {ρ : Role} (cause : Malformed)
    (hform : ∀ forms, form ≠ .list forms)
    (hsymbol : ∀ name, ρ.takesSymbol name = false) (htext : ρ.takesText = false)
    (hnumber : ρ.takesNumber = false) :
    Follows (refuse cause : Build α) (script form ρ) := by
  have hscript : script form ρ = none := by
    have hignored : (ρ == .ignored) = false := by
      refine beq_false_of_ne ?_
      rintro rfl
      cases htext
    cases form with
    | symbol name => rw [script, hsymbol]; rfl
    | text value => rw [script, htext]; rfl
    | integer value => rw [script, hnumber]; rfl
    | real value => rw [script, hnumber]; rfl
    | list forms => exact absurd rfl (hform forms)
    | quoted form => rw [script, hignored]; rfl
    | brackets forms => rw [script, hignored]; rfl
  rw [hscript]
  exact follows_refuse cause

lemma follows_atom {form : Form} (hform : ∀ forms, form ≠ .list forms) {ρ : Role}
    (hρ : ρ.isRead = true) :
    Follows (read ρ form) (script form ρ) := by
  have hexpr : Follows form.reading.expr (script form .expr) := by
    cases form with
    | symbol name => exact follows_dottedName name
    | text | integer | real => exact follows_place.give fun _ => follows_pure _
    | list forms => exact absurd rfl (hform forms)
    | quoted | brackets => exact follows_refuse _
  have hreading : form.reading = .ofAtom form form.reading.expr := by
    cases form with
    | list forms => exact absurd rfl (hform forms)
    | _ => rfl
  cases ρ with
  | expr => exact hexpr
  | element =>
    cases form with
    | list forms => exact absurd rfl (hform forms)
    | _ => exact hexpr
  | name => exact follows_plainIdent form
  | names =>
    cases form with
    | list forms => exact absurd rfl (hform forms)
    | _ => exact follows_oneName hform
  | path => exact follows_importOf form
  | item =>
    cases form with
    | list forms => exact absurd rfl (hform forms)
    | _ => exact follows_refuse _
  | optionalInline | trailer | message | keyword | ignored => cases hρ
  | _ =>
    rw [read, hreading]
    exact follows_refuse_atom _ hform (fun _ => rfl) rfl rfl

/-- **Reading a form follows its script.** -/
theorem follows_read (form : Form) : ∀ ρ : Role, ρ.isRead = true →
    Follows (read ρ form) (script form ρ) := by
  induction form using Form.induction with
  | atom form hform => exact fun ρ hρ => follows_atom hform hρ
  | list forms ih =>
    exact fun ρ hρ => follows_list hρ fun form hform σ hσ => ih form hform σ
      (Role.isRead_of_isPart hσ)

/-- **A description is built by its script.** -/
lemma follows_items (forms : List Form) :
    Follows (forms.mapM itemOf) (Script.all (forms.map (script · .item))) :=
  follows_mapM forms fun form _ => follows_read form .item rfl

end Recast.Surface
