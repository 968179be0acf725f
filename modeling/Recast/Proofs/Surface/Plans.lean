import Recast.Proofs.Surface.Roles
import Mathlib.Tactic.SplitIfs
import Mathlib.Data.List.Basic

/-!
# Plans

Building is driven by the table of the surface syntax.

**Plans.**  What is done for a list in a role is a `Plan`: it goes over the items from left to
right, takes places, reads each item in a role, and puts together what was made.  The plan of a list
is known from its own role and from how its items look from outside (`plan`).

**Reading.**  `read ρ form` is the step of building that the reading of a form has at a position.
For a list it succeeds exactly if its plan does, and then does the same (`read_list`).  So
everything that is shown about plans holds of building, by an induction over forms alone.
-/

namespace Recast

open List hiding range

/-- Induction over forms, where nothing below an atom matters. -/
lemma Form.induction {P : Form → Prop} (atom : ∀ form, (∀ forms, form ≠ .list forms) → P form)
    (list : ∀ forms, (∀ form ∈ forms, P form) → P (.list forms)) : ∀ form, P form
  | .symbol _ | .text _ | .integer _ | .real _ | .quoted _ | .brackets _ => atom _ nofun
  | .list forms => list forms fun form hform =>
    have := sizeOf_lt_of_mem hform
    Form.induction atom list form
termination_by form => sizeOf form
decreasing_by simp; omega

namespace Surface

open Build

/-! ## Steps that agree -/

section Agree

variable {α β : Type} {x x' y : Build α} {f g : α → Build β}

/-- Two steps of building succeed together, and then do the same. -/
def Agree (x y : Build α) : Prop := ∀ c, (x.run c).toOption = (y.run c).toOption

/-- A step of building that is never taken. -/
def Fails (x : Build α) : Prop := ∀ c, (x.run c).toOption = none

lemma Agree.refl (x : Build α) : Agree x x := fun _ => rfl

lemma Agree.trans (h : Agree x x') (h' : Agree x' y) : Agree x y := fun c => (h c).trans (h' c)

lemma Agree.ok_iff (h : Agree x y) {c c' : Cursor} {a : α} : x.run c = .ok (a, c') ↔
    y.run c = .ok (a, c') := by
  have htoOption : ∀ (e : Except Refusal (α × Cursor)), e = .ok (a, c') ↔
      e.toOption = some (a, c') := by
    intro e
    cases e with
    | error => simp [Except.toOption]
    | ok => simp [Except.toOption]
  rw [htoOption, htoOption, h c]

lemma toOption_bind (x : Build α) (f : α → Build β) (c : Cursor) :
    ((x >>= f).run c).toOption = (x.run c).toOption.bind fun p => ((f p.1).run p.2).toOption := by
  rw [StateT.run_bind]
  cases x.run c with
  | _ => rfl

lemma Agree.bind (h : Agree x y) (hf : ∀ v, Agree (f v) (g v)) : Agree (x >>= f) (y >>= g) := by
  intro c
  rw [toOption_bind, toOption_bind, h c]
  exact congrArg _ (funext fun p => hf p.1 p.2)

lemma Agree.then (hf : ∀ v, Agree (f v) (g v)) : Agree (x >>= f) (x >>= g) := (Agree.refl x).bind hf

lemma fails_refuse (cause : Malformed) : Fails (refuse cause : Build α) := fun _ => rfl

lemma Fails.then (hf : ∀ v, Fails (f v)) : Fails (x >>= f) := by
  intro c
  rw [toOption_bind]
  cases (x.run c).toOption with
  | none => rfl
  | some p => exact hf p.1 p.2

lemma Fails.agree (h : Fails x) (h' : Fails y) : Agree x y := fun c => (h c).trans (h' c).symm

/-- What is refused at once agrees with what is refused in the end. -/
lemma Fails.refused {cause : Malformed} (h : Fails x) : Agree (refuse cause) x :=
  (fails_refuse cause).agree h

end Agree

/-! ## What is made of forms -/

/-- What is made of a form in a role. -/
def Role.Made : Role → Type
  | .item => Item
  | .clause => Clause
  | .block => Block
  | .exprs _ => List Node
  | .param | .member => Field
  | .params => List Field
  | .name => Ident
  | .names => List Ident
  | .path => Import
  | .stmt | .alternative | .inline | .init | .expr | .element => Node
  | _ => Unit

/-- A name, or a list of names. -/
def namesOf : Form → Build (List Ident)
  | .list forms => forms.mapM plainIdent
  | form => List.singleton <$> plainIdent form

/-- **Reading a form in a role.** -/
def read : (ρ : Role) → Form → Build ρ.Made
  | .item, form => itemOf form
  | .stmt, form => form.reading.stmt
  | .clause, form => form.reading.clause
  | .alternative, form => form.reading.alternative
  | .block, form => form.reading.block
  | .inline, form => form.reading.inlineStmt
  | .init, form => form.reading.init?.getD (refuse (.expectedList none form))
  | .expr, form => form.reading.expr
  | .element, form => form.reading.element
  | .exprs least, form => form.reading.exprs least
  | .param, form => form.reading.param
  | .params, form => form.reading.params
  | .member, form => form.reading.member
  | .name, form => plainIdent form
  | .names, form => namesOf form
  | .path, form => importOf form
  | .optionalInline, form | .trailer _, form | .message, form | .keyword _, form | .ignored, form =>
    refuse (.expectedList none form)

/-! ## Plans -/

/-- What is done for the items of a list, from left to right. -/
inductive Plan (α : Type) where
  /-- Nothing is left to do; items that are left are ignored. -/
  | give (a : α)
  | refuse
  | place (k : Mark → Plan α)
  /-- Passes over the next item. -/
  | skip (p : Plan α)
  /-- Passes over the next item if it is `_`. -/
  | blank (p q : Plan α)
  /-- Reads the next item. -/
  | part (ρ : Role) (k : ρ.Made → Plan α)
  /-- Reads all items that are left. -/
  | all (ρ : Role) (k : List ρ.Made → Plan α)

namespace Plan

variable {α : Type}

/-- The step of building that a plan describes. -/
def run : Plan α → List Form → Build α
  | .give a, _ => pure a
  | .refuse, forms => Build.refuse (.tooShort 0 forms)
  | .place k, forms => Build.place >>= fun m => (k m).run forms
  | .skip p, forms => p.run forms.tail
  | .blank p q, forms => if forms.head?.any Form.isBlank then p.run forms.tail else q.run forms
  | .part ρ k, form :: forms => read ρ form >>= fun v => (k v).run forms
  | .part _ _, [] => Build.refuse (.tooShort 1 [])
  | .all ρ k, forms => forms.mapM (read ρ) >>= fun vs => (k vs).run []

def one (make : Node → α) : Plan α := .part .expr fun x => .give (make x)

def two (make : Node → Node → α) : Plan α :=
  .part .expr fun x => .part .expr fun y => .give (make x y)

/-- A part for which `_` may stand. -/
def optional (q : (Node → Plan α) → Plan α) (k : Option Node → Plan α) : Plan α :=
  .blank (k none) (q fun x => k (some x))

/-- So many names. -/
def names : Nat → (List Ident → Plan α) → Plan α
  | 0, k => k []
  | n + 1, k => .part .name fun i => names n fun is => k (i :: is)

def namesThenType (n : Nat) : Plan Field :=
  .place fun mark => names (n - 1) fun is => .part .expr fun t => .give (.mk mark is t)

/-- The parameters and results of a function. -/
def funcType (k : FuncType → Plan α) : Plan α :=
  .place fun m => .part .params fun ps => .part .params fun rs => k (.mk m ps rs)

/-- Statements, with a place for the block they make. -/
def body (make : Block → α) : Plan α := .place fun m => .all .stmt fun ns => .give (make (.mk m ns))

def vars (mark : Mark) (make : Node → α) : Plan α := .part .names fun is =>
  .blank (.part .expr fun v => .all .expr fun vs => .give (make (.varSpec mark is none (v :: vs))))
    (.part .expr fun t => .all .expr fun vs => .give (make (.varSpec mark is (some t) vs)))

/-- The initial statement in front of other operands. -/
def initially (args : List Look) (k : Option Node → Plan α) : Plan α :=
  if args.head? = some (.tagged "init") then .part .init fun n => k (some n) else k none

/-- A form with a head. -/
def headed (p : String → List Look → Plan α) : List Look → Plan α
  | .symbol tag :: args => .skip (p tag args)
  | _ => .refuse

/-- Expressions and types, operators with two operands apart. -/
def headExpr (mark : Mark) : String → Plan Node
  | "sel" => .part .expr fun x => .part .name fun i => .give (.select mark x i)
  | "addr" => one (.unary mark "&")
  | "not" => one (.unary mark "!")
  | "neg" => one (.unary mark "-")
  | "star" => one (.star mark)
  | "ptr" => one (.star mark)
  | "paren" => one (.paren mark)
  | "call" => .part .expr fun fn => .all .expr fun xs => .give (.call mark fn xs)
  | "conv" =>
    .part .expr fun t => .place fun outer => .part .expr fun x =>
      .give (.call mark (.paren outer t) [x])
  | "index" => two (.index mark)
  | "lit" => optional (.part .expr) fun t => .all .element fun xs => .give (.composite mark t xs)
  | "func-lit" => funcType fun t => body (.funcLit mark t)
  | "slice" => one (.arrayType mark none)
  | "array" => two fun n t => .arrayType mark (some n) t
  | "struct" => .all .member fun fs => .give (.structType mark fs)
  | _ => .refuse

def expr (tag : String) (args : List Look) : Plan Node := .place fun mark =>
  if binaryOps.contains tag && args.length == 2 then two fun x y => .binary mark x tag y
    else headExpr mark tag

/-- What comes behind the initial statement of an `if`, of so many operands. -/
def branch (mark : Mark) (init : Option Node) (n : Nat) : Plan Node :=
  if n = 3 then .part .expr fun x => .part .block fun b => .part .alternative fun e =>
    .give (.ifStmt mark init x b (some e))
  else if n = 2 then .part .expr fun x => .part .block fun b => .give (.ifStmt mark init x b none)
  else .refuse

def loop (mark : Mark) (n : Nat) : Plan Node :=
  if n = 4 then optional (.part .inline) fun init => optional (.part .expr) fun x =>
    optional (.part .inline) fun post =>
    .part .block fun b => .give (.forStmt mark init x post b)
  else if n = 2 then optional (.part .expr) fun x => .part .block fun b =>
    .give (.forStmt mark none x none b)
  else if n = 1 then .part .block fun b => .give (.forStmt mark none none none b)
  else .refuse

def range (mark : Mark) : Plan Node :=
  optional (.part .expr) fun key => optional (.part .expr) fun value =>
  .part .expr fun x => .part .block fun b =>
    .give (.rangeStmt mark key value (if key.isSome || value.isSome then ":=" else "") x b)

def switch (mark : Mark) (args : List Look) : Plan Node := initially args fun init =>
  optional (.part .expr) fun tag => .all .clause fun cs => .give (.switch mark init tag cs)

def headStmt (mark : Mark) (args : List Look) : String → Plan Node
  | "define" => two fun x y => .assign mark [x] ":=" [y]
  | "assign" => two fun x y => .assign mark [x] "=" [y]
  | "define-multi" => assignAll ":="
  | "assign-multi" => assignAll "="
  | "var" => vars mark id
  | "expr" => one (.exprStmt mark)
  | "call" =>
    .place fun m => .part .expr fun fn => .all .expr fun xs =>
      .give (.exprStmt mark (.call m fn xs))
  | "return" => .all .expr fun xs => .give (.ret mark xs)
  | "break" => .give (.branch mark "break")
  | "continue" => .give (.branch mark "continue")
  | "inc" => one (.incDec mark · "++")
  | "dec" => one (.incDec mark · "--")
  | "block" => .all .stmt fun ns => .give (.block (.mk mark ns))
  | "if" => initially args fun init => branch mark init (args.length - (initRoles args).length)
  | "for" => loop mark args.length
  | "range" => range mark
  | "switch" => switch mark args
  | _ => .refuse
where
  assignAll (op : String) : Plan Node :=
    .part (.exprs 1) fun xs => .part .expr fun y => .all .expr fun ys =>
    .give (.assign mark xs op (y :: ys))

def stmt (tag : String) (args : List Look) : Plan Node := .place fun mark => headStmt mark args tag

def clause (tag : String) : Plan Clause := .place fun mark =>
  if tag = "default" then .all .stmt fun ns => .give (.mk mark none ns)
  else if tag = "case" then .part (.exprs 0) fun xs => .all .stmt fun ns =>
    .give (.mk mark (some xs) ns)
  else .refuse

def headItem : String → Plan Item
  | "package" => .part .name fun i => .give (.package i)
  | "import" => .all .path fun specs => .give (.imports specs)
  | "type" => declareType false
  | "alias" => declareType true
  | "var" => .place fun mark => vars mark .decl
  | "func" =>
    .place fun mark => .part .name fun i => funcType fun t => body fun b =>
      .decl (.funcDecl mark i t (some b))
  | _ => .refuse
where
  declareType (isAlias : Bool) : Plan Item :=
    .place fun mark => .part .name fun i => .part .expr fun t =>
    .give (.decl (.typeDecl mark i t isAlias))

def block (make : Block → α) (tag : String) : Plan α :=
  if tag = "block" then .body make else .refuse

/-- The last part of an `if`. -/
def alternative (tag : String) (args : List Look) : Plan Node :=
  if tag = "if" then stmt tag args else block .block tag

def init (tag : String) : Plan Node :=
  if tag = "init" then .part .inline fun n => .give n else .refuse

def element (tag : String) (args : List Look) : Plan Node :=
  if tag = "kv" then .place fun mark => two fun x y => .keyed mark x y else expr tag args

def exprs (least : Nat) (ls : List Look) : Plan (List Node) :=
  if ls.length < least then .refuse else .all .expr fun xs => .give xs

def member (ls : List Look) : Plan Field :=
  if ls.head? = some (.symbol "embed") then .skip
    (.place fun mark => .part .expr fun t => .give (.mk mark [] t))
  else if ls.length < 2 then .refuse
  else namesThenType ls.length

end Plan

/-- **The plan of a list in a role**, without the annotation at its end. -/
def plan : (ρ : Role) → List Look → Plan ρ.Made
  | .item, ls => .headed (fun tag _ => Plan.headItem tag) ls
  | .stmt, ls | .inline, ls => .headed Plan.stmt ls
  | .clause, ls => .headed (fun tag _ => Plan.clause tag) ls
  | .alternative, ls => .headed Plan.alternative ls
  | .block, ls => .headed (fun tag _ => Plan.block id tag) ls
  | .init, ls => .headed (fun tag _ => Plan.init tag) ls
  | .expr, ls => .headed Plan.expr ls
  | .element, ls => .headed Plan.element ls
  | .exprs least, ls => Plan.exprs least ls
  | .param, ls => Plan.namesThenType ls.length
  | .params, _ => .all .param fun fs => .give fs
  | .member, ls => Plan.member ls
  | .names, _ => .all .name fun is => .give is
  | .name, _ | .path, _ | .optionalInline, _ | .trailer _, _ | .message, _ | .keyword _, _
  | .ignored, _ => .refuse

/-- A list without the annotation at its end. -/
def bare (forms : List Form) : List Form :=
  if isAnnotated (forms.map look) then forms.dropLast else forms

/-- Records the messages of the annotation at the end of a list. -/
def note (forms : List Form) : Build Unit :=
  match isAnnotated (forms.map look), forms.getLast? with
  | true, some (.list (_ :: notes)) => notes.forM fun
    | .text message => expect message
    | got => refuse (.wantText got)
  | _, _ => pure ()

/-- What is done for a list in a role. -/
def planned (ρ : Role) (forms : List Form) : Build ρ.Made :=
  if ρ.isLined (forms.map look) then do
    nextLine
    note forms
    (plan ρ ((bare forms).map look)).run (bare forms)
  else (plan ρ (forms.map look)).run forms

/-! ## Forms and readings -/

mutual

lemma form_reading : (form : Form) → form.reading.form = form
  | .list forms => congrArg Form.list (formsOf_readings forms)
  | .symbol _ | .text _ | .integer _ | .real _ | .quoted _ | .brackets _ => rfl

lemma formsOf_readings : (forms : List Form) → formsOf (Form.readings forms) = forms
  | [] => rfl
  | form :: forms => congrArg₂ List.cons (form_reading form) (formsOf_readings forms)

end

lemma readings_eq (forms : List Form) : Form.readings forms = forms.map Form.reading := by
  induction forms with
  | nil => rfl
  | cons form forms ih => exact congrArg _ ih

lemma mapM_readings {α : Type} (f : Reading → Build α) (forms : List Form) :
    (Form.readings forms).mapM f = forms.mapM fun form => f form.reading := by
  induction forms with
  | nil => rfl
  | cons form forms ih => rw [Form.readings, mapM_cons, mapM_cons, ih]

lemma isSymbol_iff {name : String} {form : Form} : form.isSymbol name = true ↔
    look form = .symbol name := by
  cases form with
  | symbol s => exact beq_iff_eq.trans ⟨fun h => h ▸ rfl, fun h => by cases h; rfl⟩
  | list forms =>
    match forms with
    | [] => exact ⟨nofun, nofun⟩
    | first :: _ => cases first <;> exact ⟨nofun, nofun⟩
  | _ => exact ⟨nofun, nofun⟩

lemma form_of_look {name : String} {form : Form} (h : look form = .symbol name) :
    form = .symbol name := by
  cases form with
  | symbol s =>
    cases h
    rfl
  | list forms => cases isSymbol_iff.mpr h
  | _ => cases h

lemma look_tagged {tag : String} {form : Form} : look form = .tagged tag ↔
    ∃ forms, form = .list (.symbol tag :: forms) := by
  constructor
  · intro h
    cases form with
    | list forms =>
      match forms with
      | [] => cases h
      | .symbol _ :: rest =>
        cases h
        exact ⟨rest, rfl⟩
      | .text _ :: _ | .integer _ :: _ | .real _ :: _ | .list _ :: _ | .quoted _ :: _
      | .brackets _ :: _ => cases h
    | _ => cases h
  · rintro ⟨forms, rfl⟩
    rfl

/-- A form that is a symbol, or one that cannot be taken for one. -/
lemma symbol_or_not (form : Form) : (∃ tag, form = .symbol tag) ∨
    ∀ tag, look form ≠ .symbol tag := by
  by_cases h : ∃ tag, form = .symbol tag
  · exact .inl h
  · exact .inr fun tag hlook => h ⟨tag, form_of_look hlook⟩

/-- Detaching an annotation. -/
lemma stripWant_readings (forms : List Form) :
    stripWant (Form.readings forms) = (do note forms; return Form.readings (bare forms)) := by
  have hlast : (Form.readings forms).getLast?.map Reading.form = forms.getLast? := by
    rw [← getLast?_map, ← formsOf, formsOf_readings]
  rw [stripWant, hlast, note, bare]
  cases hann : isAnnotated (forms.map look) with
  | true =>
    rw [isAnnotated, length_map, getLast?_map, Bool.and_eq_true, decide_eq_true_eq, beq_iff_eq,
      Option.map_eq_some_iff] at hann
    obtain ⟨hlength, last, hget, hlook⟩ := hann
    obtain ⟨notes, rfl⟩ := look_tagged.mp hlook
    have hlong :
        ¬(decide ((Form.readings forms).length < 2) || !(Form.symbol "want").isSymbol "want") =
            true := by
      rw [readings_eq, length_map]
      simp only [Form.isSymbol, beq_self_eq_true, Bool.not_true, Bool.or_false, decide_eq_true_eq]
      omega
    rw [hget]
    dsimp only
    rewrite [if_neg hlong, if_pos rfl, readings_eq, readings_eq, map_dropLast]
    rfl
  | false =>
    split
    next first notes heq =>
      rw [if_pos]
      · exact (pure_bind _ _).symm
      · rw [isAnnotated, length_map, getLast?_map, heq, Bool.and_eq_false_iff] at hann
        rw [readings_eq, length_map, Bool.or_eq_true, decide_eq_true_eq]
        refine hann.imp (fun h => by simpa using h) fun h => ?_
        cases first with
        | symbol tag =>
          have hne : tag ≠ "want" := fun heq => by simp [heq, look] at h
          rw [Bool.not_eq_true']
          exact beq_false_of_ne hne
        | _ => rfl
    next => exact (pure_bind _ _).symm

/-! ## Names -/

variable {α : Type} {head : Form} {args : List Form}

lemma agree_names {k : List Ident → Plan α} (forms rest : List Form) :
    Agree (forms.mapM plainIdent >>= fun is => (k is).run rest)
      ((Plan.names forms.length k).run (forms ++ rest)) := by
  induction forms generalizing k with
  | nil =>
    rw [mapM_nil, pure_bind]
    exact .refl _
  | cons form forms ih =>
    rw [mapM_cons, bind_assoc]
    refine .then fun i => ?_
    simp only [bind_assoc, pure_bind]
    exact ih

/-- Names in front, and a type at the end. -/
lemma agree_namesAndType (head : Form) (args : List Form) :
    Agree (place >>= fun mark => namesAndType mark (Form.readings (head :: args)))
      ((Plan.namesThenType (head :: args).length).run (head :: args)) := by
  obtain ⟨names, type, heq⟩ := eq_nil_or_concat' (head :: args) |>.resolve_left (by simp)
  refine .then fun mark => ?_
  have hnames : formsOf (Form.readings names) = names := formsOf_readings names
  rw [heq, namesAndType, readings_eq, map_append, map_singleton, getLast?_concat, dropLast_concat,
    ← readings_eq, hnames, length_append, length_singleton, Nat.add_sub_cancel]
  exact agree_names (k := fun is => .part .expr fun t => .give (Field.mk mark is t)) names [type]

/-! ## Expressions and types -/

/-- A form with a head. -/
lemma agree_headed {g : String → List Reading → Build α} {p : String → List Look → Plan α}
    (hg : ∀ tag, head = .symbol tag →
      Agree (g tag (Form.readings args)) ((p tag (args.map look)).run args)) :
    Agree (do
      let (tag, args) ← headed (Form.readings (head :: args))
      g tag args) ((Plan.headed p ((head :: args).map look)).run (head :: args)) := by
  rcases symbol_or_not head with ⟨tag, rfl⟩ | h
  · exact hg tag rfl
  · have hrefuse : Plan.headed p ((head :: args).map look) = .refuse := by
      rw [map_cons]
      cases hl : look head with
      | symbol tag => exact absurd hl (h tag)
      | _ => rfl
    have hform : ∀ tag, head.reading.form ≠ .symbol tag :=
      fun tag heq => h tag (by rw [← form_reading head, heq]; rfl)
    rw [hrefuse, Form.readings, headed, symbolName.eq_def]
    split
    next name heq => exact absurd heq (hform name)
    next => exact .refl _

/-- What has one operand, and perhaps others. -/
lemma agree_part {g : Reading → List Reading → Build α} {ρ : Role}
    {k : ρ.Made → Plan α} {cause : Malformed}
    (hg : ∀ x rest, Agree (g x.reading (Form.readings rest))
      (read ρ x >>= fun v => (k v).run rest)) :
    Agree (match Form.readings (head :: args) with
      | _ :: x :: rest => g x rest
      | _ => refuse cause) ((Plan.part ρ k).run args) := by
  cases args with
  | nil => exact (fails_refuse _).refused
  | cons x rest => exact hg x rest

/-- What has two operands, and perhaps others. -/
lemma agree_parts {g : Reading → Reading → List Reading → Build α} {ρ σ : Role}
    {k : ρ.Made → σ.Made → Plan α} {cause : Malformed}
    (hg : ∀ x y rest, Agree (g x.reading y.reading (Form.readings rest))
      (read ρ x >>= fun v => read σ y >>= fun w => (k v w).run rest)) :
    Agree (match Form.readings (head :: args) with
      | _ :: x :: y :: rest => g x y rest
      | _ => refuse cause) ((Plan.part ρ fun v => .part σ (k v)).run args) := by
  match args with
  | [] => exact (fails_refuse _).refused
  | [x] => exact Fails.refused (.then fun _ => fails_refuse _)
  | x :: y :: rest => exact hg x y rest

lemma agree_optional {form : Form} {rest : List Form} {x : Build Node}
    {q : (Node → Plan α) → Plan α} {k : Option Node → Plan α}
    {f : Option Node → Build α} (hq : ∀ k, (q k).run (form :: rest) = x >>= fun v => (k v).run rest)
    (hf : ∀ o, Agree (f o) ((k o).run rest)) :
    Agree (optional form.reading x >>= f) ((Plan.optional q k).run (form :: rest)) := by
  show Agree _
    (if form.isBlank then (k none).run rest else (q fun v => k (some v)).run (form :: rest))
  rw [optional, form_reading, hq]
  split
  · rw [pure_bind]
    exact hf none
  · rw [map_eq_pure_bind, bind_assoc]
    refine .then fun v => ?_
    rw [pure_bind]
    exact hf (some v)

lemma agree_all {ρ : Role} {f : Reading → Build ρ.Made} (forms : List Form) (make : List ρ.Made → α)
    (hf : ∀ form, f form.reading = read ρ form) :
    Agree ((Form.readings forms).mapM f >>= fun vs => pure (make vs))
      ((Plan.all ρ fun vs => .give (make vs)).run forms) := by
  rw [mapM_readings]
  simp only [hf]
  exact .refl _

lemma agree_funcType {g : FuncType → Build α} {k : FuncType → Plan α}
    {params results : Form} {rest : List Form} (hg : ∀ t, Agree (g t) ((k t).run rest)) :
    Agree (funcTypeOf params.reading results.reading >>= g)
      ((Plan.funcType k).run (params :: results :: rest)) := by
  simp only [funcTypeOf, bind_assoc, pure_bind]
  exact .then fun m => .then fun ps => .then fun rs => hg _

lemma agree_body (make : Block → α) (forms : List Form) :
    Agree (bodyOf (Form.readings forms) >>= fun b => pure (make b))
      ((Plan.body make).run forms) := by
  simp only [bodyOf, bind_assoc, pure_bind]
  exact .then fun m => agree_all (ρ := .stmt) forms _ fun _ => rfl

lemma agree_headExpr (tag : String) (mark : Mark) :
    Agree (headExpr tag mark (Form.readings (head :: args)))
      ((Plan.headExpr mark tag).run args) := by
  rw [headExpr.eq_def]
  split
  case h_1 =>
    refine agree_parts fun x i rest => ?_
    rw [form_reading]
    exact .refl _
  case h_2 => exact agree_part fun x rest => .refl _
  case h_3 => exact agree_part fun x rest => .refl _
  case h_4 => exact agree_part fun x rest => .refl _
  case h_5 => exact agree_part fun x rest => .refl _
  case h_6 => exact agree_part fun x rest => .refl _
  case h_7 => exact agree_part fun x rest => .refl _
  case h_8 =>
    exact agree_part fun x rest => .then fun _ => agree_all (ρ := .expr) rest _ fun _ => rfl
  case h_9 =>
    match args with
    | [] => exact (fails_refuse _).refused
    | [x] => exact Fails.refused (.then fun _ => .then fun _ => fails_refuse _)
    | x :: y :: rest => exact .refl _
  case h_10 => exact agree_parts fun x y rest => .refl _
  case h_11 =>
    cases args with
    | nil => exact (fails_refuse _).refused
    | cons type elements =>
      exact agree_optional (q := .part .expr) (fun _ => rfl) fun _ =>
        agree_all (ρ := .element) elements _ fun _ => rfl
  case h_12 =>
    match args with
    | [] => exact Fails.refused (.then fun _ => fails_refuse _)
    | [x] => exact Fails.refused (.then fun _ => .then fun _ => fails_refuse _)
    | params :: results :: stmts => exact agree_funcType fun t => agree_body _ stmts
  case h_13 => exact agree_part fun x rest => .refl _
  case h_14 => exact agree_parts fun x y rest => .refl _
  case h_15 => exact agree_all (ρ := .member) args _ fun _ => rfl
  case h_16 =>
    have hrefuse : Plan.headExpr mark tag = .refuse := by
      rw [Plan.headExpr.eq_def]
      split <;> simp_all
    rw [hrefuse]
    exact (fails_refuse _).refused

/-- A list with this head as an expression. -/
def taggedExprOf (items : List Reading) (tag : String) (args : List Reading) : Build Node := do
  match binaryOps.contains tag, args with
  | true, [x, y] =>
    let mark ← place
    let x ← x.expr
    return .binary mark x tag (← y.expr)
  | _, _ => headExpr tag (← place) items

lemma exprOf_eq (items : List Reading) : exprOf items = (do
      let (tag, args) ← headed items
      taggedExprOf items tag args) := rfl

lemma agree_taggedExprOf (tag : String) :
    Agree (taggedExprOf (Form.readings (head :: args)) tag (Form.readings args))
      ((Plan.expr tag (args.map look)).run args) := by
  rw [taggedExprOf.eq_def, Plan.expr, length_map]
  split
  next x y hop hargs =>
    match args with
    | [x, y] =>
      cases hargs
      simp only [hop]
      exact .refl _
    | [] | [_] | _ :: _ :: _ :: _ => cases hargs
  next h =>
    refine .then fun mark => ?_
    dsimp only
    rw [if_neg]
    · exact agree_headExpr tag mark
    · intro hboth
      obtain ⟨hop, hlength⟩ := (Bool.and_eq_true _ _).mp hboth
      obtain ⟨x, y, rfl⟩ := length_eq_two.mp (beq_iff_eq.mp hlength)
      exact h x.reading y.reading hop rfl

lemma agree_exprOf : Agree (exprOf (Form.readings (head :: args)))
    ((plan .expr ((head :: args).map look)).run (head :: args)) := by
  rw [exprOf_eq]
  exact agree_headed fun tag _ => agree_taggedExprOf tag

/-! ## Statements -/

lemma agree_vars (head : Form) (args : List Form) (mark : Mark) (make : Node → α) :
    Agree (varOf mark (Form.readings (head :: args)) >>= fun n => pure (make n))
      ((Plan.vars mark make).run args) := by
  match args with
  | [] => exact Fails.agree (fun _ => rfl) (fails_refuse _)
  | [names] => exact Fails.agree (fun _ => rfl) (.then fun _ => fails_refuse _)
  | names :: type :: values =>
    have hrest : ∀ is, Agree ((do
        let type ← optional type.reading type.reading.expr
        let values ← (Form.readings values).mapM Reading.expr
        if type.isNone && values.isEmpty then refuse .bareVar
          else return Node.varSpec mark is type values) >>=
          fun n => pure (make n)) (Plan.run (.blank
            (.part .expr fun v => .all .expr fun vs =>
              .give (make (.varSpec mark is none (v :: vs))))
            (.part .expr fun t => .all .expr fun vs => .give (make (.varSpec mark is (some t) vs))))
            (type :: values)) := by
      intro is
      show Agree _ (if type.isBlank then (Plan.part .expr _).run values else _)
      rw [optional, form_reading]
      split
      · rw [pure_bind]
        cases values with
        | nil => exact Fails.agree (fun _ => rfl) (fails_refuse _)
        | cons v vs =>
          simp only [Form.readings, mapM_cons, bind_assoc, pure_bind, isEmpty_cons,
            Bool.and_false, Bool.false_eq_true, if_false]
          exact .then fun v => agree_all (ρ := .expr) vs _ fun _ => rfl
      · simp only [map_eq_pure_bind, bind_assoc, pure_bind, Option.isNone_some, Bool.false_and,
          Bool.false_eq_true, if_false]
        exact .then fun t => agree_all (ρ := .expr) values _ fun _ => rfl
    simp only [Form.readings, varOf, form_reading]
    cases names with
    | list forms =>
      rw [bind_assoc]
      exact .then hrest
    | _ =>
      rw [bind_assoc]
      exact .then hrest

lemma init?_reading (form : Form) :
    form.reading.init? = if look form = .tagged "init" then some (read .init form) else none := by
  have hnone : ∀ form : Form, form.reading.init? = none ∨
      form.reading.init? = some (read .init form) := by
    intro form
    rw [read]
    cases form.reading.init? with
    | none => exact .inl rfl
    | some x => exact .inr rfl
  split
  next h =>
    refine (hnone form).resolve_left ?_
    obtain ⟨forms, rfl⟩ := look_tagged.mp h
    exact nofun
  next h =>
    cases form with
    | list forms =>
      refine if_neg fun hinit => h ?_
      cases forms with
      | nil => cases hinit
      | cons first rest =>
        have hfirst : first.reading.form.isSymbol "init" = true := hinit
        rw [form_reading] at hfirst
        rw [form_of_look (isSymbol_iff.mp hfirst)]
        rfl
    | _ => rfl

/-- The initial statement of an `if` or a `switch`. -/
lemma agree_initially {g : Option Node → List Reading → Build α} {k : Option Node → Plan α}
    (hg : ∀ init, Agree (g init (Form.readings (args.drop (initRoles (args.map look)).length)))
      ((k init).run (args.drop (initRoles (args.map look)).length))) :
    Agree (do
      let (init, args) ← splitInit (Form.readings args)
      g init args) ((Plan.initially (args.map look) k).run args) := by
  cases args with
  | nil => exact hg none
  | cons first rest =>
    rw [Form.readings, splitInit, init?_reading, Plan.initially]
    simp only [initRoles, map_cons, head?_cons, Option.some_inj] at hg ⊢
    split at hg
    next h =>
      rw [if_pos h, if_pos h]
      show Agree
        ((read .init first >>= fun n => pure (some n, Form.readings rest)) >>= fun p => g p.1 p.2) _
      rw [bind_assoc]
      refine .then fun n => ?_
      rw [pure_bind]
      exact hg (some n)
    next h =>
      rw [if_neg h, if_neg h]
      exact hg none

/-- What comes behind the initial statement of an `if`. -/
def branchOf (mark : Mark) (init : Option Node) (args : List Reading) : Build Node := do
  match args with
  | [cond, body] => return .ifStmt mark init (← cond.expr) (← body.block) none
  | [cond, body, alternative] =>
    let cond ← cond.expr
    let body ← body.block
    return .ifStmt mark init cond body (some (← alternative.alternative))
  | _ => refuse .ifShape

lemma ifOf_eq (mark : Mark) (args : List Reading) : ifOf mark args = (do
      let (init, args) ← splitInit args
      branchOf mark init args) := rfl

lemma agree_branchOf (mark : Mark) (init : Option Node) (forms : List Form) :
    Agree (branchOf mark init (Form.readings forms))
      ((Plan.branch mark init forms.length).run forms) := by
  match forms with
  | [] | [_] | _ :: _ :: _ :: _ :: _ =>
    rw [Plan.branch, if_neg (by simp), if_neg (by simp)]
    exact (fails_refuse _).refused
  | [_, _] | [_, _, _] => exact .refl _

lemma agree_ifOf (mark : Mark) : Agree (ifOf mark (Form.readings args))
    ((Plan.headStmt mark (args.map look) "if").run args) := by
  rw [ifOf_eq]
  refine agree_initially (g := branchOf mark) (k := fun init => Plan.branch mark init _)
    fun init => ?_
  have hlength : (args.map look).length - (initRoles (args.map look)).length =
      (args.drop (initRoles (args.map look)).length).length := by rw [length_map, length_drop]
  rw [hlength]
  exact agree_branchOf mark init _

lemma agree_forOf (mark : Mark) :
    Agree (forOf mark (Form.readings args)) ((Plan.loop mark (args.map look).length).run args) := by
  rw [length_map]
  match args with
  | [] | [_, _, _] | _ :: _ :: _ :: _ :: _ :: _ =>
    rw [Plan.loop, if_neg (by simp), if_neg (by simp), if_neg (by simp)]
    exact (fails_refuse _).refused
  | [_] => exact .refl _
  | [cond, body] =>
    rw [Plan.loop, if_neg (by simp), if_pos (by simp)]
    refine agree_optional (q := .part .expr) (fun _ => rfl) fun _ => ?_
    exact .refl _
  | [init, cond, post, body] =>
    rw [Plan.loop, if_pos (by simp)]
    refine agree_optional (q := .part .inline) (fun _ => rfl) fun _ => ?_
    refine agree_optional (q := .part .expr) (fun _ => rfl) fun _ => ?_
    refine agree_optional (q := .part .inline) (fun _ => rfl) fun _ => ?_
    exact .refl _

/-- A plan that ends with a part cannot do without it. -/
lemma fails_optional {q : (Node → Plan α) → Plan α} {k : Option Node → Plan α} {forms : List Form}
    (hq : Fails ((q fun v => k (some v)).run forms)) (hk : Fails ((k none).run forms.tail)) :
    Fails ((Plan.optional q k).run forms) := by
  show Fails (if forms.head?.any Form.isBlank then (k none).run forms.tail else _)
  split
  · exact hk
  · exact hq

lemma agree_range (mark : Mark) : Agree (match Form.readings (head :: args) with
    | _ :: key :: value :: x :: body :: _ => do
      let key ← optional key key.expr
      let value ← optional value value.expr
      let op := if key.isSome || value.isSome then ":=" else ""
      let x ← x.expr
      return Node.rangeStmt mark key value op x (← body.block)
    | _ =>
      refuse (.tooShort 5 (formsOf (Form.readings (head :: args)))))
          ((Plan.range mark).run args) := by
  have hlast : ∀ {args : List Form} {f : Node → Block → Node}, args.length < 2 →
      Fails ((Plan.part .expr fun x => .part .block fun b => .give (f x b)).run args) := by
    intro args f h
    match args with
    | [] => exact fails_refuse _
    | [x] => exact .then fun _ => fails_refuse _
  have hvalue : ∀ {args : List Form} {f : Option Node → Node → Block → Node}, args.length < 3 →
      Fails
          ((Plan.optional (.part .expr) fun value => .part .expr fun x => .part .block fun b =>
              .give (f value x b)).run args) := by
    intro args f h
    refine fails_optional ?_ (hlast (by rw [length_tail]; omega))
    cases args with
    | nil => exact fails_refuse _
    | cons value args => exact .then fun _ => hlast (Nat.lt_of_succ_lt_succ h)
  have hkey : args.length < 4 → Fails ((Plan.range mark).run args) := by
    intro h
    refine fails_optional ?_ (hvalue (by rw [length_tail]; omega))
    cases args with
    | nil => exact fails_refuse _
    | cons value args => exact .then fun _ => hvalue (Nat.lt_of_succ_lt_succ h)
  match args with
  | [] | [_] | [_, _] | [_, _, _] => exact (hkey (by simp)).refused
  | key :: value :: x :: body :: rest =>
    refine agree_optional (q := .part .expr) (fun _ => rfl) fun _ => ?_
    refine agree_optional (q := .part .expr) (fun _ => rfl) fun _ => ?_
    exact .refl _

lemma agree_switch (mark : Mark) : Agree (do
      let (init, args) ← splitInit (Form.readings args)
      match args with
      | [] => refuse .switchShape
      | tag :: clauses =>
        let tag ← optional tag tag.expr
        return Node.switch mark init tag (← clauses.mapM Reading.clause))
            ((Plan.switch mark (args.map look)).run args) := by
  refine agree_initially (g := fun init args => match args with
    | [] => refuse .switchShape
    | tag :: clauses => do
      let tag ← optional tag tag.expr
      return Node.switch mark init tag (← clauses.mapM Reading.clause)) fun init => ?_
  cases args.drop (initRoles (args.map look)).length with
  | nil => exact (fails_refuse _).refused
  | cons tag clauses =>
    exact agree_optional (q := .part .expr) (fun _ => rfl) fun _ =>
      agree_all (ρ := .clause) clauses _ fun _ => rfl

lemma agree_headStmt (tag : String) (mark : Mark) (hhead : head = .symbol tag) :
    Agree (headStmt tag mark (Form.readings (head :: args)))
      ((Plan.headStmt mark (args.map look) tag).run args) := by
  have hassignAll : ∀ op, Agree (headStmt.assignAllOf mark (Form.readings (head :: args)) op)
      ((Plan.headStmt.assignAll mark op).run args) := by
    refine fun op => agree_parts fun xs y rest => .then fun xs => ?_
    simp only [mapM_cons, bind_assoc, pure_bind]
    exact .then fun y => agree_all (ρ := .expr) rest _ fun _ => rfl
  rw [headStmt.eq_def]
  split
  case h_1 => exact agree_parts fun x y rest => .refl _
  case h_2 => exact agree_parts fun x y rest => .refl _
  case h_3 => exact hassignAll ":="
  case h_4 => exact hassignAll "="
  case h_5 =>
    have h := agree_vars head args mark id
    rwa [bind_pure_comp, id_map] at h
  case h_6 => exact agree_part fun x rest => .refl _
  case h_7 =>
    refine (agree_exprOf.bind fun _ => .refl _).trans ?_
    rw [hhead]
    show Agree ((place >>= fun m => (Plan.headExpr m "call").run args) >>= fun n =>
      pure (Node.exprStmt mark n)) _
    rw [bind_assoc]
    refine .then fun m => ?_
    cases args with
    | nil => exact Fails.agree (fun _ => rfl) (fails_refuse _)
    | cons fn rest =>
      simp only [Plan.headExpr, Plan.run, bind_assoc, pure_bind]
      exact .refl _
  case h_8 => exact agree_all (ρ := .expr) args _ fun _ => rfl
  case h_9 => exact .refl _
  case h_10 => exact .refl _
  case h_11 => exact agree_part fun x rest => .refl _
  case h_12 => exact agree_part fun x rest => .refl _
  case h_13 => exact agree_all (ρ := .stmt) args _ fun _ => rfl
  case h_14 => exact agree_ifOf mark
  case h_15 => exact agree_forOf mark
  case h_16 => exact agree_range mark
  case h_17 => exact agree_switch mark
  case h_18 =>
    have hrefuse : Plan.headStmt mark (args.map look) tag = .refuse := by
      rw [Plan.headStmt.eq_def]
      split <;> simp_all
    rw [hrefuse]
    exact (fails_refuse _).refused

lemma agree_inlineStmtOf :
    Agree (inlineStmtOf (Form.readings (head :: args)))
      ((plan .inline ((head :: args).map look)).run (head :: args)) :=
  agree_headed (g := fun tag _ => do headStmt tag (← place) (Form.readings (head :: args)))
    fun tag htag =>
    .then fun mark => agree_headStmt tag mark htag

/-- Two plans that differ in one head. -/
lemma agree_headed_of_ne {p q : String → List Look → Plan α} (tag : String)
    (h : ∀ tag' ls, tag' ≠ tag → p tag' ls = q tag' ls) (hne : head ≠ .symbol tag) :
    Agree ((Plan.headed p ((head :: args).map look)).run (head :: args))
      ((Plan.headed q ((head :: args).map look)).run (head :: args)) := by
  rcases symbol_or_not head with ⟨tag', rfl⟩ | hlook
  · show Agree ((p tag' _).run args) ((q tag' _).run args)
    rw [h tag' _ (by rintro rfl; exact hne rfl)]
    exact .refl _
  · rw [map_cons]
    cases hl : look head with
    | symbol tag' => exact absurd hl (hlook tag')
    | _ => exact .refl _

/-- Forms with one head that are built in their own way. -/
lemma agree_tagged {x y : Build α} {tag : String} {p : Plan α} {q : String → List Look → Plan α}
    (hx : head = .symbol tag → Agree x (p.run args))
    (hy : head ≠ .symbol tag →
      Agree y ((Plan.headed q ((head :: args).map look)).run (head :: args))) :
    Agree (if head.reading.form.isSymbol tag then x else y)
      ((Plan.headed (fun tag' ls => if tag' = tag then p else q tag' ls)
        ((head :: args).map look)).run (head :: args)) := by
  rw [form_reading]
  split
  next h =>
    obtain rfl := form_of_look (isSymbol_iff.mp h)
    show Agree x ((if tag = tag then p else _).run args)
    rw [if_pos rfl]
    exact hx rfl
  next h =>
    have hne : head ≠ .symbol tag := fun heq => h (isSymbol_iff.mpr (by rw [heq]; rfl))
    exact (hy hne).trans (agree_headed_of_ne tag (fun tag' ls hne => (if_neg hne).symm) hne)

lemma fails_headed {p : String → List Look → Plan α} (hp : ∀ tag ls, p tag ls = .refuse)
    (ls : List Look) (forms : List Form) :
    Fails ((Plan.headed p ls).run forms) := by
  rw [Plan.headed.eq_def]
  split
  · rw [hp]
    exact fails_refuse _
  · exact fails_refuse _

/-- A block, and what is made of it. -/
lemma agree_blockOf (head : Form) (args : List Form) (make : Block → α) :
    Agree (blockOf (Form.readings (head :: args)) >>= fun b => pure (make b))
    ((Plan.headed (fun tag _ => Plan.block make tag) ((head :: args).map look)).run
      (head :: args)) := by
  have hif : (blockOf (Form.readings (head :: args)) >>= fun b => pure (make b)) =
      if head.reading.form.isSymbol "block" then bodyOf (Form.readings args) >>=
        fun b => pure (make b)
      else refuse (.expectedTag "block" (formsOf (Form.readings (head :: args)))) := by
    show (if head.reading.form.isSymbol "block" then _ else _) >>= _ = _
    split
    · rfl
    · rfl
  rw [hif]
  exact agree_tagged (q := fun _ _ => .refuse) (fun _ => agree_body make args) fun _ =>
    (fails_headed (fun _ _ => rfl) _ _).refused

/-- A case of a switch without its annotation. -/
def bareClauseOf (items : List Reading) : Build Clause := do
  let mark ← place
  match items with
  | [] => refuse (.tooShort 1 [])
  | head :: rest =>
    if head.form.isSymbol "default" then return .mk mark none (← rest.mapM Reading.stmt)
    else
      match rest with
      | [] => refuse (.tooShort 2 (formsOf items))
      | guards :: stmts =>
        if head.form.isSymbol "case" then
          let guards ← guards.exprs 0
          return .mk mark (some guards) (← stmts.mapM Reading.stmt)
        else refuse (.expectedTag "case" (formsOf items))

lemma agree_bareClauseOf :
    Agree (bareClauseOf (Form.readings (head :: args)))
      ((plan .clause ((head :: args).map look)).run (head :: args)) := by
  rcases symbol_or_not head with ⟨tag, rfl⟩ | hlook
  · refine .then fun mark => ?_
    show Agree (if tag == "default" then _ else _)
      ((if tag = "default" then _ else _ : Plan Clause).run args)
    by_cases hdefault : tag = "default"
    · rw [if_pos hdefault, if_pos (beq_iff_eq.mpr hdefault)]
      exact agree_all (ρ := .stmt) args _ fun _ => rfl
    · rw [if_neg hdefault, if_neg fun h => hdefault (beq_iff_eq.mp h)]
      by_cases hcase : tag = "case"
      · subst hcase
        cases args with
        | nil => exact (fails_refuse _).refused
        | cons guards stmts => exact .then fun _ => agree_all (ρ := .stmt) stmts _ fun _ => rfl
      · rw [if_neg hcase]
        cases args with
        | nil => exact (fails_refuse _).refused
        | cons guards stmts =>
          show Agree (if tag == "case" then _ else _) _
          rw [if_neg fun h => hcase (beq_iff_eq.mp h)]
          exact (fails_refuse _).refused
  · have hno : ∀ tag, head.reading.form.isSymbol tag = false := by
      intro tag
      rw [form_reading, Bool.eq_false_iff]
      exact fun h => hlook tag (isSymbol_iff.mp h)
    have hplan : plan .clause ((head :: args).map look) = .refuse := by
      rw [map_cons, plan]
      cases hl : look head with
      | symbol tag => exact absurd hl (hlook tag)
      | _ => rfl
    rw [hplan]
    refine Fails.agree (.then fun mark => ?_) (fails_refuse _)
    show Fails (if head.reading.form.isSymbol "default" then _ else _)
    rw [hno, if_neg Bool.false_ne_true]
    cases args with
    | nil => exact fails_refuse _
    | cons guards stmts =>
      show Fails (if head.reading.form.isSymbol "case" then _ else _)
      rw [hno, if_neg Bool.false_ne_true]
      exact fails_refuse _

/-! ## Top level -/

lemma agree_headItem (tag : String) :
    Agree (headItem tag (Form.readings (head :: args))) ((Plan.headItem tag).run args) := by
  have htype : ∀ isAlias, Agree (headItem.typeOf (Form.readings (head :: args)) isAlias)
      ((Plan.headItem.declareType isAlias).run args) := by
    intro isAlias
    match args with
    | [] => exact Fails.refused (.then fun _ => fails_refuse _)
    | [name] => exact Fails.refused (.then fun _ => .then fun _ => fails_refuse _)
    | name :: type :: rest =>
      simp only [headItem.typeOf, Form.readings, form_reading]
      exact .refl _
  rw [headItem.eq_def]
  split
  case h_1 =>
    refine agree_part fun x rest => ?_
    rw [form_reading]
    exact .refl _
  case h_2 =>
    show Agree ((formsOf (Form.readings args)).mapM importOf >>= _) _
    rw [formsOf_readings]
    exact .refl _
  case h_3 => exact htype false
  case h_4 => exact htype true
  case h_5 => exact .then fun mark => agree_vars _ _ mark Item.decl
  case h_6 =>
    match args with
    | [] => exact Fails.refused (.then fun _ => fails_refuse _)
    | [name] => exact Fails.refused (.then fun _ => .then fun _ => .then fun _ => fails_refuse _)
    | [name, params] =>
      exact Fails.refused
        (.then fun _ => .then fun _ => .then fun _ => .then fun _ => fails_refuse _)
    | name :: params :: results :: stmts =>
      simp only [Form.readings, form_reading]
      exact .then fun mark => .then fun name => agree_funcType fun t => agree_body _ stmts
  case h_7 =>
    have hrefuse : Plan.headItem tag = .refuse := by
      rw [Plan.headItem.eq_def]
      split <;> simp_all
    rw [hrefuse]
    exact (fails_refuse _).refused

/-! ## All roles -/

/-- Forms that get a line. -/
lemma agree_lined {g : List Reading → Build α} {p : List Look → Plan α}
    (hg : ∀ args, Agree (g (Form.readings (head :: args)))
      ((p ((head :: args).map look)).run (head :: args))) :
    Agree (do
      nextLine
      g (← stripWant (Form.readings (head :: args)))) (do
      nextLine
      note (head :: args)
      (p ((bare (head :: args)).map look)).run (bare (head :: args))) := by
  have hbare : ∃ args', bare (head :: args) = head :: args' := by
    rw [bare]
    split
    next h =>
      cases args with
      | nil => cases h
      | cons arg args => exact ⟨_, rfl⟩
    next => exact ⟨args, rfl⟩
  obtain ⟨args', heq⟩ := hbare
  rw [stripWant_readings, heq]
  simp only [bind_assoc, pure_bind]
  exact .then fun _ => .then fun _ => hg args'

lemma agree_mapM {ρ : Role} {f : Reading → Build ρ.Made} (forms : List Form)
    (hf : ∀ form, f form.reading = read ρ form) :
    Agree ((Form.readings forms).mapM f) ((Plan.all ρ fun vs => .give vs).run forms) := by
  have h := agree_all forms id hf
  rwa [bind_pure_comp, id_map] at h

lemma agree_alternativeOf :
    Agree (alternativeOf (Form.readings (head :: args))) (planned .alternative (head :: args)) := by
  show Agree (if head.reading.form.isSymbol "if" then stmtOf (Form.readings (head :: args))
    else do return .block (← blockOf (Form.readings (head :: args)))) _
  rw [form_reading]
  split
  next h =>
    obtain rfl := form_of_look (isSymbol_iff.mp h)
    exact agree_lined (g := inlineStmtOf) (p := plan .alternative) fun args => agree_inlineStmtOf
  next h =>
    have hne : look head ≠ .symbol "if" := fun hif => h (isSymbol_iff.mpr hif)
    have hlined : Role.isLined .alternative ((head :: args).map look) = false :=
      beq_false_of_ne fun heq => hne (Option.some_inj.mp heq)
    rw [planned, hlined]
    refine (agree_blockOf head args Node.block).trans
      (agree_headed_of_ne "if" (fun tag' ls hne => ?_) fun heq => hne (heq ▸ rfl))
    exact (if_neg hne).symm

lemma agree_initOf :
    Agree (read .init (.list (head :: args)))
      ((plan .init ((head :: args).map look)).run (head :: args)) := by
  by_cases h : head = .symbol "init"
  · subst h
    refine agree_part (g := fun x _ => x.inlineStmt) fun x rest => ?_
    show Agree x.reading.inlineStmt (x.reading.inlineStmt >>= pure)
    rw [bind_pure]
    exact .refl _
  · have hlook : look (.list (head :: args)) ≠ .tagged "init" := by
      intro hlook
      obtain ⟨forms, heq⟩ := look_tagged.mp hlook
      cases heq
      exact h rfl
    rw [read, init?_reading, if_neg hlook]
    refine Agree.trans (fails_headed (fun _ _ => rfl) _ _).refused
      (agree_headed_of_ne (p := fun _ _ => .refuse) "init" (fun _ _ hne => ?_) h)
    exact (if_neg hne).symm

lemma agree_elementOf :
    Agree (elementOf (Form.readings (head :: args)))
      ((plan .element ((head :: args).map look)).run (head :: args)) := by
  refine agree_tagged (fun _ => ?_) fun _ => agree_exprOf
  match args with
  | [] => exact Fails.refused (.then fun _ => fails_refuse _)
  | [x] => exact Fails.refused (.then fun _ => .then fun _ => fails_refuse _)
  | x :: y :: rest => exact .refl _

lemma agree_memberOf :
    Agree (memberOf (Form.readings (head :: args)))
      ((plan .member ((head :: args).map look)).run (head :: args)) := by
  show Agree _ ((Plan.member ((head :: args).map look)).run (head :: args))
  rw [Plan.member, map_cons, head?_cons]
  simp only [Option.some_inj]
  cases args with
  | nil =>
    split
    · exact Fails.agree (.then fun _ => fails_refuse _) (.then fun _ => fails_refuse _)
    · exact Fails.agree (.then fun _ => fails_refuse _) (fails_refuse _)
  | cons type rest =>
    show Agree (place >>= fun mark => if head.reading.form.isSymbol "embed" then _ else _) _
    rw [form_reading]
    by_cases h : look head = .symbol "embed"
    · simp only [if_pos h, if_pos (isSymbol_iff.mpr h)]
      exact .refl _
    · simp only [if_neg h, if_neg fun h' => h (isSymbol_iff.mp h')]
      rw [if_neg (by simp), length_cons, length_map]
      exact agree_namesAndType head (type :: rest)

/-- **A list is read by its plan.** -/
theorem read_list (ρ : Role) (forms : List Form) :
    Agree (read ρ (.list forms)) (planned ρ forms) := by
  have hlength : (forms.map look).length =
    (Form.readings forms).length := by rw [readings_eq, length_map, length_map]
  cases ρ with
  | exprs least =>
    show Agree (if (Form.readings forms).length < least then _ else _)
      ((Plan.exprs least (forms.map look)).run forms)
    rw [Plan.exprs, hlength]
    split
    · exact (fails_refuse _).refused
    · exact agree_mapM (ρ := .expr) (f := Reading.expr) forms fun _ => rfl
  | params => exact agree_mapM (ρ := .param) (f := Reading.param) forms fun _ => rfl
  | names =>
    show Agree (forms.mapM plainIdent) (forms.mapM plainIdent >>= pure)
    rw [bind_pure]
    exact .refl _
  | init =>
    cases forms with
    | nil => exact (fails_refuse _).refused
    | cons head args => exact agree_initOf
  | param =>
    show Agree (paramOf (Form.readings forms))
      ((Plan.namesThenType (forms.map look).length).run forms)
    rw [length_map]
    cases forms with
    | nil => exact Fails.refused (.then fun _ => fails_refuse _)
    | cons head args => exact agree_namesAndType head args
  | item =>
    cases forms with
    | nil => exact Fails.refused (.then fun _ => .then fun _ => fails_refuse _)
    | cons head args =>
      exact agree_lined (g := fun items => do
        let (tag, _) ← headed items
        headItem tag items) (p := plan .item) fun args => agree_headed
          (g := fun tag _ => headItem tag (Form.readings (head :: args)))
          fun tag _ => agree_headItem tag
  | stmt =>
    cases forms with
    | nil => exact Fails.refused (.then fun _ => .then fun _ => fails_refuse _)
    | cons head args =>
      exact agree_lined (g := inlineStmtOf) (p := plan .stmt) fun args => agree_inlineStmtOf
  | clause =>
    cases forms with
    | nil => exact Fails.refused (.then fun _ => .then fun _ => fails_refuse _)
    | cons head args =>
      exact agree_lined (g := bareClauseOf) (p := plan .clause) fun args => agree_bareClauseOf
  | block =>
    cases forms with
    | nil => exact (fails_refuse _).refused
    | cons head args =>
      have h := agree_blockOf head args id
      rwa [bind_pure_comp, id_map] at h
  | alternative =>
    cases forms with
    | nil => exact (fails_refuse _).refused
    | cons head args => exact agree_alternativeOf
  | inline =>
    cases forms with
    | nil => exact (fails_refuse _).refused
    | cons head args => exact agree_inlineStmtOf
  | expr =>
    cases forms with
    | nil => exact (fails_refuse _).refused
    | cons head args => exact agree_exprOf
  | element =>
    cases forms with
    | nil => exact (fails_refuse _).refused
    | cons head args => exact agree_elementOf
  | member =>
    cases forms with
    | nil => exact (fails_refuse _).refused
    | cons head args => exact agree_memberOf
  | _ => exact (fails_refuse _).refused

end Surface

end Recast
