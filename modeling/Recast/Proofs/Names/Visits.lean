import Recast.Proofs.Names.Lexical
import Recast.Proofs.Syntax.Regularity

/-!
# Visits

What the resolver does with a tree, said once: which steps it takes, in which order and in which
scopes, and which nodes and events they belong to.  Whatever is to be shown of all expressions and
statements is shown of these steps.

**Evaluation.**  An expression is evaluated and then the type that it has is recorded (`evaluate`,
`record`).

**Visits.**  A computation visits some trees if it is put together from the steps of `Visits`.  A
visit is indexed by the trees and by the word that is read on the way, and it gives a scope to go on
with.  In a strict visit of a tree every expression gets a type, and only one.

* `visits_expr`, `visits_stmt` — the resolver visits expressions and statements.
* `evaluates` — what happens before the type of an expression is recorded.
-/

namespace Recast

open List hiding get
open Resolve hiding bind

/-! ## Evaluation -/

namespace Resolve

variable (complete : Nat → Resolve Ty) (scope : Scope) (expected : Option Ty)

/-- Works out the type of an expression, without recording it. -/
def evaluate : Node → Resolve Ty
  | .ident i => identType complete scope i
  | .literal _ .int _ => return .basic .untypedInt
  | .literal _ .float _ => return .basic .untypedFloat
  | .literal _ _ _ => return .basic .untypedString
  | .select m base name => do
    match ← packageOf? scope base with
    | some (package, b) => memberType m package b name
    | none => fieldType m (← expr complete scope none base) name
  | .star m x => do
    let t ← expr complete scope none x
    if ← isType x then
      denotesType m
      pointerTo t
    else return (t.pointee? (← underlyings)).getD .invalid
  | .unary _ op x => do
    let t ← expr complete scope none x
    if op == "&" then pointerTo t
    else if op == "!" then return .basic (if t.isUntyped then .untypedBool else .bool)
    else return t
  | .binary _ x op y => do
    let t ← expr complete scope none x
    let u ← expr complete scope none y
    if ["==", "!=", "<", "<=", ">", ">=", "&&", "||"].contains op then return .basic .untypedBool
    else return if t.isUntyped then u else t
  | .paren m x => do
    let t ← expr complete scope expected x
    if ← isType x then denotesType m
    return t
  | .call _ fn args => do
    let t ← expr complete scope none fn
    if ← isType fn then
      let _ ← exprs complete scope (some t) args
      return t
    else callType fn t (← exprs complete scope none args)
  | .index _ x i => do
    let t ← expr complete scope none x
    let u := t.underlying (← underlyings)
    let _ ← expr complete scope none i
    return indexed (u.target (← underlyings))
  | .composite _ type elements => do
    let t ← literalType complete scope expected type
    elementTypes complete scope (t.underlying (← underlyings)) 0 elements
    return t
  | .keyed _ key value => do
    let _ ← expr complete scope none key
    expr complete scope expected value
  | .funcLit _ type body => do
    let (t, inner) ← signature complete scope.nested type
    blockStmts complete inner body
    return t
  | .arrayType m length elem => do
    denotesType m
    let t ← asType elem (← expr complete scope none elem)
    match length with
    | none => return .slice (← serial) (some t)
    | some length =>
      let _ ← expr complete scope none length
      let n ← arrayLength length
      return .array (← serial) (some t) n
  | .structType m fields => do
    denotesType m
    let members ← structMembers complete scope fields
    return .struct (← serial) members
  | .funcType (.mk m params results) => do
    denotesType m
    let (ps, scope) ← fieldTypes complete scope.nested params
    let (rs, _) ← fieldTypes complete scope results
    return .func (← serial) (ps.map some) (rs.map some)
  | n => unresolved ("expression kind " ++ n.kind) n.loc

/-- Records the type of an expression.  That of a function type is recorded twice, once as a
signature. -/
def record : Node → Ty → Resolve Ty
  | .funcType type, t => do typed type.mark (← typed type.mark t)
  | n, t => typed n.mark t

/-- **Expressions are evaluated, and then their types are recorded.** -/
lemma expr_eq (n : Node) :
    expr complete scope expected n = evaluate complete scope expected n >>= record n := by
  cases n with
  | literal m kind value =>
    cases kind with
    | _ => rfl
  | select m base name =>
    rw [expr, evaluate, bind_assoc]
    refine bind_congr fun package? => ?_
    cases package? with
    | none => rfl
    | some p => rfl
  | star m x =>
    rw [expr, evaluate, bind_assoc]
    refine bind_congr fun t => ?_
    rw [bind_assoc]
    refine bind_congr fun isType => ?_
    cases isType with
    | _ => rfl
  | unary m op x =>
    rw [expr, evaluate, bind_assoc]
    refine bind_congr fun t => ?_
    split
    · rfl
    · split
      · rfl
      · rfl
  | binary m x op y =>
    rw [expr, evaluate, bind_assoc]
    refine bind_congr fun t => ?_
    rw [bind_assoc]
    refine bind_congr fun u => ?_
    split
    · rfl
    · rfl
  | paren m x =>
    rw [expr, evaluate, bind_assoc]
    refine bind_congr fun t => ?_
    rw [bind_assoc]
    refine bind_congr fun isType => ?_
    cases isType with
    | _ => rfl
  | call m fn args =>
    rw [expr, evaluate, bind_assoc]
    refine bind_congr fun t => ?_
    rw [bind_assoc]
    refine bind_congr fun isType => ?_
    cases isType with
    | _ => rfl
  | arrayType m length elem =>
    cases length with
    | _ => rfl
  | funcType type =>
    cases type with
    | mk m params results => rfl
  | _ => rfl

end Resolve

namespace Ledger

/-! ## Nodes that need a type -/

/-- An expression or a type that is no plain identifier. -/
def needsType : Node → Bool
  | .ident _ => false
  | n => n.isExpression

/-- The numbers of the nodes of some trees that need a type. -/
def needed (ns : List Node) : List Nat := ((preorderAll ns).filter needsType).map Node.id

@[grind =] lemma needed_nil : needed [] = [] := by
  rw [needed, preorderAll]
  rfl

@[grind =] lemma needed_append (ns ms : List Node) :
    needed (ns ++ ms) = needed ns ++ needed ms := by
  rw [needed, preorderAll_append, filter_append, map_append]
  rfl

@[grind =] lemma mem_needed_cons {k : Nat} {n : Node} {ns : List Node} :
    k ∈ needed (n :: ns) ↔ (needsType n = true ∧ k = n.id) ∨
    k ∈ needed n.children ∨ k ∈ needed ns := by
  rw [needed, preorderAll, filter_cons, preorderAll_append, filter_append, needed, needed]
  split
  · rename_i hn
    simp [hn]
  · rename_i hn
    simp [hn]

@[grind =] lemma needed_idents (is : List Ident) : needed (is.map .ident) = [] := by
  induction is with
  | nil => exact needed_nil
  | cons i is ih =>
    refine eq_nil_iff_forall_not_mem.mpr fun k hk => ?_
    rw [map_cons, mem_needed_cons, ih, Node.children, needed_nil] at hk
    simp [needsType] at hk

end Ledger

namespace Lexical

open Ledger (needed needsType)
open Regular (Operand Statement)

variable {α β : Type} {x y : Resolve α} {f : α → Resolve β}

/-! ## Steps that record nothing -/

/-- A computation that changes nothing but the log and the counters. -/
def Still (x : Resolve α) : Prop :=
  ∀ r, ∃ n k log, (x.run r).2 = { r with unresolved := n, nextSerial := k, log := log }

lemma still_pure (a : α) : Still (pure a : Resolve α) := fun _ => ⟨_, _, _, rfl⟩

lemma Still.bind (hx : Still x) (hf : ∀ a, Still (f a)) : Still (x >>= f) := by
  intro r
  obtain ⟨n, k, log, h⟩ := hx r
  obtain ⟨n', k', log', h'⟩ := hf (x.run r).1 (x.run r).2
  refine ⟨n', k', log', ?_⟩
  show ((f (x.run r).1).run (x.run r).2).2 = _
  rw [h', h]

lemma still_ite {c : Prop} [Decidable c] (hx : Still x) (hy : Still y) :
    Still (if c then x else y) := by
  split
  · exact hx
  · exact hy

lemma still_get : Still (get : Resolve Resolver) := fun _ => ⟨_, _, _, rfl⟩

lemma still_note (text : String) : Still (note text) := fun _ => ⟨_, _, _, rfl⟩

lemma still_serial : Still serial := fun _ => ⟨_, _, _, rfl⟩

lemma still_underlyings : Still underlyings := fun _ => ⟨_, _, _, rfl⟩

lemma still_isType (n : Node) : Still (isType n) := fun _ => ⟨_, _, _, rfl⟩

lemma still_bindingAt (b : Nat) : Still (bindingAt b) := fun _ => ⟨_, _, _, rfl⟩

lemma still_pointerTo (t : Ty) : Still (pointerTo t) := fun _ => ⟨_, _, _, rfl⟩

lemma still_unresolved (what : String) (loc : Loc) : Still (unresolved what loc) :=
  fun _ => ⟨_, _, _, rfl⟩

lemma still_asType (n : Node) (t : Ty) : Still (asType n t) :=
  (still_isType n).bind fun _ => still_ite (still_pure _)
    ((still_note _).bind fun _ => still_pure _)

lemma still_checkAssignable (loc : Loc) (v t : Ty) : Still (checkAssignable loc v t) :=
  still_underlyings.bind fun _ => still_ite (still_note _) (still_pure _)

lemma still_builtinResult (name : String) (args : List Ty) : Still (builtinResult name args) := by
  rw [builtinResult.eq_def]
  split
  all_goals first | exact still_pure _ | exact still_pointerTo _

lemma still_callee? (fn : Node) : Still (callee? fn) := by
  refine still_get.bind fun _ => ?_
  split
  all_goals exact still_pure _

lemma still_callType (fn : Node) (t : Ty) (args : List Ty) : Still (callType fn t args) := by
  have hresult : Still (callType.resultOf t) := by
    refine still_underlyings.bind fun _ => ?_
    split
    all_goals exact still_pure _
  refine (still_callee? fn).bind fun b? => ?_
  cases b? with
  | none => exact hresult
  | some b => exact (still_bindingAt b).bind fun _ => still_ite (still_builtinResult _ _) hresult

lemma still_valueTypes (targets values : List Node) (types : List Ty) :
    Still (valueTypes targets values types) := by
  dsimp only [valueTypes]
  generalize (if (types.length == targets.length) = true then types
    else replicate targets.length .invalid) = apart
  split
  · refine still_ite (still_pure _) (still_get.bind fun _ => still_underlyings.bind fun _ => ?_)
    split
    all_goals exact still_pure _
  · exact still_pure _

lemma still_packageOf? (scope : Scope) (base : Node) : Still (packageOf? scope base) := by
  rw [packageOf?.eq_def]
  split
  · split
    · exact still_pure _
    · exact (still_bindingAt _).bind fun _ => still_pure _
  · exact still_pure _

/-! ## Nodes -/

attribute [local simp] Node.mark Node.id Node.children FuncType.mark preorderAll exprWord
  optionWord elementsWord

/-- The numbers of the nodes of some trees. -/
def ids (ns : List Node) : List Nat := (preorderAll ns).map Node.id

@[grind =] lemma ids_nil : ids [] = [] := by
  rw [ids, preorderAll]
  rfl

@[grind =] lemma ids_append (ns ms : List Node) : ids (ns ++ ms) = ids ns ++ ids ms := by
  rw [ids, preorderAll_append, map_append]
  rfl

@[grind =] lemma ids_cons (n : Node) (ns : List Node) :
    ids (n :: ns) = n.id :: (ids n.children ++ ids ns) := by
  rw [ids, preorderAll, map_cons, preorderAll_append, map_append]
  rfl

lemma ids_perm {ns ms : List Node} (h : ns.Perm ms) : (ids ns).Perm (ids ms) := by
  induction h with
  | nil => exact .rfl
  | cons n _ ih =>
    rw [ids_cons, ids_cons]
    exact (ih.append_left _).cons _
  | swap n m ns =>
    have happend : ∀ n m : Node, ids (n :: m :: ns) = ids [n] ++ ids [m] ++ ids ns := fun n m => by
      rw [← ids_append, ← ids_append]
      rfl
    rw [happend, happend]
    exact perm_append_comm.append_right _
  | trans _ _ ih ih' => exact ih.trans ih'

lemma mem_ids_of_mem {m : Node} {ns : List Node} {k : Nat} (h : m ∈ ns) (hk : k ∈ ids [m]) :
    k ∈ ids ns := by
  obtain ⟨before, behind, rfl⟩ := append_of_mem h
  have hcons : ids (m :: behind) = ids [m] ++ ids behind := ids_append [m] behind
  rw [ids_append, hcons]
  exact mem_append_right _ (mem_append_left _ hk)

lemma mem_ids_flatMap {α : Type} {g : α → List Node} {x : α} {xs : List α} {k : Nat} (h : x ∈ xs)
    (hk : k ∈ ids (g x)) :
    k ∈ ids (xs.flatMap g) := by
  obtain ⟨before, behind, rfl⟩ := append_of_mem h
  rw [flatMap_append, flatMap_cons, ids_append, ids_append]
  exact mem_append_right _ (mem_append_left _ hk)

/-! ## Visits -/

/-- The key of an element whose literal is of a type that stands for `u`. -/
def keyOf (complete : Nat → Resolve Ty) (scope : Scope) (m : Mark) (u : Ty) (key : Node) :
    Resolve Ty :=
  match u, key with
  | .struct .., .ident key => keyType m u key
  | u, key => do
    let _ ← expr complete scope none key
    pure (u.elem?.getD .invalid)

/-- The number of an expression, if it is of a kind that may denote a type. -/
def marks : Node → List Nat
  | .ident i => [i.mark.id]
  | .select m (.ident _) _ | .star m _ | .paren m _ | .arrayType m _ _ | .structType m _ => [m.id]
  | .funcType type => [type.mark.id]
  | _ => []

/-- **A computation visits some trees**, given how declarations are completed.  It begins in a scope
and reads a word, and may give a scope to go on with.  The nodes that may be marked as types besides
are the own ones.  In a literal, its number and what its type stands for are known. -/
inductive Visits (strict : Prop) : List Nat → Option (Nat × Ty) → Scope → List Node →
    List Event → {α : Type} →
    ((Nat → Resolve Ty) → Resolve α) → Option (α → Scope) → Prop
  | still {own literal s} {α : Type} {x : Resolve α} {out : α → Scope} (h : Still x)
    (hout : ∀ r, out (x.run r).1 = s) :
    Visits strict own literal s [] [] (fun _ => x) (some out)
  | mark {own literal s} {m : Mark} (h : m.id ∈ own) :
    Visits strict own literal s [] [] (fun _ => denotesType m) (some fun _ => s)
  | length {own literal s} {n : Node} (h : strict → n.isLegible = true) :
    Visits strict own literal s [] [] (fun _ => arrayLength n) (some fun _ => s)
  | define {own literal s} (i : Ident) (t : Ty) :
    Visits strict own literal s [.ident i] [unlessBlank .declare i]
      (fun _ => define i t s) (some id)
  /-- On the left of `:=`, where a blank defines nothing. -/
  | target {own literal s} (i : Ident) (t : Ty) :
    Visits strict own literal s [.ident i] [unlessBlank .define i]
      (fun _ => if i.name == "_" then pure s else defineOrReuse i t s) (some id)
  | field {own literal s} (m : Mark) (t : Ty) (name : Ident) :
    Visits strict own literal s [.ident name] [] (fun _ => fieldType m t name) (some fun _ => s)
  | use {own literal s} (i : Ident) :
    Visits strict own literal s [.ident i] [unlessBlank .use i]
      (fun complete => do typed i.mark (← identType complete s i)) (some fun _ => s)
  /-- A name behind a plain identifier, which may be that of a package. -/
  | member {own literal s} (m : Mark) (i name : Ident) (expected : Option Ty) :
    Visits strict own literal s [.select m (.ident i) name] [baseEvent i]
      (fun complete => expr complete s expected (.select m (.ident i) name)) (some fun _ => s)
  | key {own s l u} (m : Mark) (key : Ident) :
    Visits strict own (some (l, u)) s [.ident key] [.key l key]
      (fun complete => keyOf complete s m u (.ident key))
      (some fun _ => s)
  /-- The type of a literal is recorded behind its elements. -/
  | composite {own literal s m type ns w v} {t : (Nat → Resolve Ty) → Resolve Ty}
      {x : Ty → (Nat → Resolve Ty) → Resolve Unit}
      (ht : Visits strict [] none s type.toList w t (some fun _ => s))
      (hx : ∀ u, Visits strict [] (some (m.id, u)) s ns v (x u) (some fun _ => s)) :
    Visits strict own literal s [.composite m type ns] (w ++ v) (fun complete => do
      let t ← t complete
      x (t.underlying (← underlyings)) complete
      typed m t) (some fun _ => s)
  /-- The type of an expression is recorded behind its parts. -/
  | node {own literal s ns n w} {x : (Nat → Resolve Ty) → Resolve Ty}
      (hx : Visits strict (marks n) literal s ns w x (some fun _ => s))
      (hparts : ns.Perm n.children)
      (hn : strict → n.isFuncType = false) :
    Visits strict own literal s [n] w (fun complete => x complete >>= record n) (some fun _ => s)
  /-- The type of a function is recorded when its parameters are declared. -/
  | signed {own literal s ns m params results w} {x : (Nat → Resolve Ty) → Resolve (Ty × Scope)}
      (hx : Visits strict [m.id] literal s ns w x (some Prod.snd))
      (hparts : ns.Perm (Node.funcType (.mk m params results)).children) :
    Visits strict own literal s [.funcType (.mk m params results)] w (fun complete => do
      let p ← x complete
      let t ← typed m p.1
      return (t, p.2)) (some Prod.snd)
  /-- A node that needs no type. -/
  | whole {own literal s ns n w} {α : Type} {x : (Nat → Resolve Ty) → Resolve α}
      {after : Option (α → Scope)}
      (hx : Visits strict own literal s ns w x after) (hparts : ns.Perm n.children)
      (hn : strict → needsType n = false) :
    Visits strict own literal s [n] w x after
  /-- Trees that need no visit. -/
  | more {own literal s ns ms w} {α : Type} {x : (Nat → Resolve Ty) → Resolve α}
      {after : Option (α → Scope)}
      (hx : Visits strict own literal s ns w x after) (hms : strict → needed ms = []) :
    Visits strict own literal s (ns ++ ms) w x after
  | bind {own literal s ns ms w v} {α β : Type} {x : (Nat → Resolve Ty) → Resolve α}
      {f : (Nat → Resolve Ty) → α → Resolve β} {out : α → Scope} {after : Option (β → Scope)}
      (hx : Visits strict own literal s ns w x (some out))
      (hf : ∀ a, Visits strict own literal (out a) ms v (fun complete => f complete a) after) :
    Visits strict own literal s (ns ++ ms) (w ++ v)
      (fun complete => x complete >>= f complete) after
  | forget {own literal s ns w} {α : Type} {x : (Nat → Resolve Ty) → Resolve α} {out : α → Scope}
      (hx : Visits strict own literal s ns w x (some out)) : Visits strict own literal s ns w x none
  /-- A scope of its own. -/
  | bracketed {own literal s ns w} {α : Type} {x : (Nat → Resolve Ty) → Resolve α} {out : α → Scope}
      (hx : Visits strict own literal s.nested ns w x none)
      (hout : ∀ complete r, out ((x complete).run r).1 = s) :
    Visits strict own literal s ns (bracketed w) x (some out)

/-! ## Rules -/

section Rules

variable {strict : Prop} {own : List Nat} {literal : Option (Nat × Ty)} {s : Scope}
  {ns ms : List Node} {w : List Event}
  {X Y : (Nat → Resolve Ty) → Resolve α} {F : (Nat → Resolve Ty) → α → Resolve β}
  {out : α → Scope} {out' : β → Scope} {after : Option (α → Scope)} {after' : Option (β → Scope)}

/-- A step that records nothing comes first. -/
lemma Visits.afterStill (hx : Still x)
    (hf : ∀ a, Visits strict own literal s ns w (fun complete => F complete a) after') :
    Visits strict own literal s ns w (fun complete => x >>= F complete) after' :=
  Visits.bind (.still hx fun _ => rfl) hf

/-- A node is marked as a type first. -/
lemma Visits.marked {m : Mark} {F : (Nat → Resolve Ty) → Unit → Resolve β} (hm : m.id ∈ own)
    (hf : Visits strict own literal s ns w (fun complete => F complete ()) after') :
    Visits strict own literal s ns w (fun complete => denotesType m >>= F complete) after' :=
  Visits.bind (.mark hm) fun _ => hf

/-- A step that belongs to no other tree comes last. -/
lemma Visits.andThen (hx : Visits strict own literal s ns w X (some out))
    (hf : ∀ a, Visits strict own literal (out a) [] [] (fun complete => F complete a) after') :
    Visits strict own literal s ns w (fun complete => X complete >>= F complete) after' := by
  have h := hx.bind hf
  rwa [append_nil, append_nil] at h

lemma Visits.finish (hx : Visits strict own literal s ns w X (some out)) (hf : ∀ a, Still (f a))
    (hout : ∀ a r, out' ((f a).run r).1 = out a) :
    Visits strict own literal s ns w (fun complete => X complete >>= f) (some out') :=
  hx.andThen fun a => .still (hf a) (hout a)

/-- The same where there is no scope to go on with. -/
lemma Visits.close (hx : Visits strict own literal s ns w X (some out)) (hf : ∀ a, Still (f a)) :
    Visits strict own literal s ns w (fun complete => X complete >>= f) none :=
  hx.andThen fun a => by
    have h : Visits strict own literal (out a) [] [] (fun _ => f a) (some fun _ => out a) :=
      .still (hf a) fun _ => rfl
    exact h.forget

/-- A computation after which the scope of before is used again. -/
lemma Visits.andReturn (hx : Visits strict own literal s ns w X (some fun _ => s)) :
    Visits strict own literal s ns w (fun complete => do let _ ← X complete; return s) (some id) :=
  hx.finish (fun _ => still_pure s) fun _ _ => rfl

lemma Visits.ite {c : Prop} [Decidable c] (hx : Visits strict own literal s ns w X after)
    (hy : Visits strict own literal s ns w Y after) :
    Visits strict own literal s ns w
      (fun complete => if c then X complete else Y complete) after := by
  split
  · exact hx
  · exact hy

lemma visits_pure {a : α} (ha : out a = s) :
    Visits strict own literal s [] [] (fun _ => pure a) (some out) :=
  .still (still_pure a) fun _ => ha

/-- A value is checked on the way. -/
lemma Visits.checked {c : Prop} [Decidable c] (loc : Loc) (t u : Ty)
    (h : Visits strict own literal s ns w X after) :
    Visits strict own literal s ns w
      (fun complete => if c then do checkAssignable loc t u; X complete else X complete) after :=
  .ite (.afterStill (still_checkAssignable loc t u) fun _ => h) h

/-- Identifiers are declared from left to right. -/
lemma visits_defineAll (t : Ty) (is : List Ident) (s : Scope) :
    Visits strict own literal s (is.map .ident) (is.map (unlessBlank .declare))
      (fun _ => defineAll t is s) (some id) := by
  induction is generalizing s with
  | nil => exact visits_pure rfl
  | cons i is ih => exact (Visits.define i t).bind ih

lemma visits_declareNames (loc : Loc) (declared : Option Ty) (values : List Ty)
    {pairs : List (Ident × Ty)} {is : List Ident} (hpairs : pairs.map Prod.fst = is) (s : Scope) :
    Visits strict own literal s (is.map .ident) (is.map (unlessBlank .declare))
      (fun _ => declareNames loc declared values pairs s) (some id) := by
  subst hpairs
  induction pairs generalizing s with
  | nil => exact visits_pure rfl
  | cons p pairs ih =>
    cases declared with
    | some t => exact .checked _ _ _ ((Visits.define p.1 t).bind ih)
    | none => exact (Visits.define p.1 _).bind ih

end Rules

/-! ## Evaluation of expressions -/

/-- What is visited before the type of an expression is recorded. -/
inductive Parts (strict : Prop) (s : Scope) :
    Node → List Event → ((Nat → Resolve Ty) → Resolve Ty) → Prop
  | ident (i : Ident) : Parts strict s (.ident i) [unlessBlank .use i] fun complete =>
    identType complete s i
  | member (m : Mark) (i name : Ident) (expected : Option Ty) : Parts strict s
      (.select m (.ident i) name) [baseEvent i]
      fun complete => evaluate complete s expected (.select m (.ident i) name)
  | composite {m type ns w v} {t : (Nat → Resolve Ty) → Resolve Ty}
      {x : Ty → (Nat → Resolve Ty) → Resolve Unit}
      (ht : Visits strict [] none s type.toList w t (some fun _ => s))
      (hx : ∀ u, Visits strict [] (some (m.id, u)) s ns v (x u) (some fun _ => s)) :
    Parts strict s (.composite m type ns) (w ++ v) fun complete => do
      let t ← t complete
      x (t.underlying (← underlyings)) complete
      return t
  | node {ns n w} {x : (Nat → Resolve Ty) → Resolve Ty}
      (hx : ∀ {l}, Visits strict (marks n) l s ns w x (some fun _ => s))
      (hparts : ns.Perm n.children) (hn : strict → n.isFuncType = false) : Parts strict s n w x

section Trees

variable {strict : Prop} {own : List Nat} {literal : Option (Nat × Ty)} {s : Scope}
  {expected : Option Ty} {m bm : Mark}
  {n c v z : Node} {ns targets values : List Node} {names : List Ident}
  {fs params results : List Field} {type : FuncType} {w : List Event} {u : Ty} {i : Nat}

lemma Parts.visits {x : (Nat → Resolve Ty) → Resolve Ty} (h : Parts strict s n w x) :
    Visits strict own literal s [n] w (fun complete => x complete >>= record n)
      (some fun _ => s) := by
  cases h with
  | ident i => exact .use i
  | member m i name expected =>
    have h : Visits strict own literal s _ _ _ _ := .member m i name expected
    simp only [expr_eq] at h
    exact h
  | composite ht hx => exact .composite ht hx
  | node hx hparts hn => exact .node hx hparts hn

/-- The resolver evaluates an expression. -/
def Evaluates (strict : Prop) (s : Scope) (expected : Option Ty) (n : Node) : Prop :=
  Parts strict s n (exprWord n) fun complete => evaluate complete s expected n

/-- The resolver visits an expression. -/
def VisitsExpr (strict : Prop) (s : Scope) (expected : Option Ty) (n : Node) : Prop :=
  ∀ {own : List Nat}
  {literal : Option (Nat × Ty)}, Visits strict own literal s [n] (exprWord n)
    (fun complete => expr complete s expected n) (some fun _ => s)

lemma Evaluates.expr (h : Evaluates strict s expected n) : VisitsExpr strict s expected n := by
  intro own literal
  have hvisits : Visits strict own literal s _ _ _ _ := h.visits
  simp only [← expr_eq] at hvisits
  exact hvisits

/-! ### Operators -/

lemma evaluates_select {name : Ident} (hv : VisitsExpr strict s none v) :
    Evaluates strict s expected (.select m v name) := by
  have h : ∀ {own l}, Visits strict own l s [v, .ident name] (exprWord v) (fun complete => do
      fieldType m (← expr complete s none v) name) (some fun _ => s) := by
    intro own l
    rw [← append_nil (exprWord v)]
    exact hv.bind fun t => .field m t name
  cases v with
  | ident i => exact .member m i name expected
  | _ => exact .node h .rfl fun _ => rfl

lemma evaluates_star (hv : VisitsExpr strict s none v) :
    Evaluates strict s expected (.star m v) := by
  refine .node (hv.andThen fun t => .afterStill (still_isType v) fun _ => .ite ?_ ?_) .rfl
    fun _ => rfl
  · exact .marked mem_cons_self (.still (still_pointerTo t) fun _ => rfl)
  · exact .still (still_underlyings.bind fun _ => still_pure _) fun _ => rfl

lemma evaluates_unary {op : String} (hv : VisitsExpr strict s none v) :
    Evaluates strict s expected (.unary m op v) :=
  .node
    (hv.finish (fun t => still_ite (still_pointerTo t) (still_ite (still_pure _) (still_pure _)))
      fun _ _ => rfl) .rfl
    fun _ => rfl

lemma evaluates_binary {op : String} (hv : VisitsExpr strict s none v)
    (hz : VisitsExpr strict s none z) :
    Evaluates strict s expected (.binary m v op z) :=
  .node (hv.bind fun _ => hz.finish (fun _ => still_ite (still_pure _) (still_pure _)) fun _ _ =>
    rfl) .rfl fun _ => rfl

lemma evaluates_paren (hv : VisitsExpr strict s expected v) :
    Evaluates strict s expected (.paren m v) := by
  refine .node (hv.andThen fun t => .afterStill (still_isType v) fun _ => .ite ?_ (visits_pure rfl))
    .rfl fun _ => rfl
  exact .marked mem_cons_self (visits_pure rfl)

/-- The resolver visits expressions. -/
def VisitsExprs (strict : Prop) (s : Scope) (expected : Option Ty) (ns : List Node) : Prop :=
  ∀ {own : List Nat}
  {literal : Option (Nat × Ty)}, Visits strict own literal s ns (exprsWord ns)
    (fun complete => exprs complete s expected ns) (some fun _ => s)

lemma evaluates_call (hv : VisitsExpr strict s none v)
    (hns : ∀ expected, VisitsExprs strict s expected ns) :
    Evaluates strict s expected (.call m v ns) := by
  refine .node (hv.bind fun t => .afterStill (still_isType v) fun _ => .ite ?_ ?_) .rfl fun _ => rfl
  · exact (hns (some t)).finish (fun _ => still_pure t) fun _ _ => rfl
  · exact (hns none).finish (fun ts => still_callType v t ts) fun _ _ => rfl

lemma evaluates_index (hv : VisitsExpr strict s none v) (hz : VisitsExpr strict s none z) :
    Evaluates strict s expected (.index m v z) :=
  .node (hv.bind fun _ => .afterStill still_underlyings fun _ =>
    hz.finish (fun _ => still_underlyings.bind fun _ => still_pure _) fun _ _ => rfl) .rfl
      fun _ => rfl

lemma evaluates_keyed (hv : VisitsExpr strict s none v) (hz : VisitsExpr strict s expected z) :
    Evaluates strict s expected (.keyed m v z) :=
  .node (hv.bind fun _ => hz) .rfl fun _ => rfl

/-- Nodes that are no expressions. -/
lemma evaluates_other (hn : ¬strict) (hword : exprWord n = [])
    (heq : ∀ complete, evaluate complete s expected n =
      unresolved ("expression kind " ++ n.kind) n.loc) :
    Evaluates strict s expected n := by
  rw [Evaluates, hword, funext heq]
  exact .node (.more (.still (still_unresolved _ _) fun _ => rfl) fun h => absurd h hn)
    .rfl fun h => absurd h hn

lemma visitsExprs_cons (hn : VisitsExpr strict s expected n)
    (hns : VisitsExprs strict s expected ns) :
    VisitsExprs strict s expected (n :: ns) :=
  hn.bind fun _ => hns.finish (fun _ => still_pure _) fun _ _ => rfl

/-! ### Literals -/

/-- The resolver visits an expression that may be missing, in any of three places. -/
structure VisitsOption (strict : Prop) (s : Scope) (o : Option Node) : Prop where
  expr : ∀ {own literal}, Visits strict own literal s o.toList (optionWord o)
    (fun complete => exprOption complete s o) (some fun _ => s)
  declared : ∀ {own literal}, Visits strict own literal s o.toList (optionWord o)
    (fun complete => declaredType complete s o) (some fun _ => s)
  literal : ∀ {own literal} expected, Visits strict own literal s o.toList (optionWord o)
    (fun complete => literalType complete s expected o) (some fun _ => s)

lemma visitsOption_none : VisitsOption strict s none where
  expr := visits_pure rfl
  declared := visits_pure rfl
  literal _ :=
    (Visits.still still_underlyings fun _ => rfl).finish (fun _ => still_pure _) fun _ _ => rfl

lemma visitsOption_some (hv : VisitsExpr strict s none v) : VisitsOption strict s (some v) where
  expr := hv.finish (fun _ => still_pure _) fun _ _ => rfl
  declared := hv.finish (fun t => (still_asType v t).bind fun _ => still_pure _) fun _ _ => rfl
  literal _ := hv.finish (fun t => still_asType v t) fun _ _ => rfl

/-- The resolver visits the elements of a literal. -/
def VisitsElements (strict : Prop) (s : Scope) (l : Nat) (u : Ty) (ns : List Node) : Prop :=
  ∀ (i : Nat) {own : List Nat}, Visits strict own (some (l, u)) s ns (elementsWord l ns)
    (fun complete => elementTypes complete s u i ns)
    (some fun _ => s)

lemma elementTypes_keyed (complete : Nat → Resolve Ty) :
    elementTypes complete s u i (.keyed m v z :: ns) = (do
    let t ← keyOf complete s m u v
    let v ← expr complete s (some t) z
    let _ ← typed m v
    elementTypes complete s u (i + 1) ns) := by
  cases u with
  | struct serial fields =>
    cases v with
    | _ => rfl
  | _ => rfl

lemma elementsWord_keyed {l : Nat} (hkey : ∀ key, v ≠ .ident key) :
    elementsWord l (.keyed m v z :: ns) = exprWord v ++ (exprWord z ++ elementsWord l ns) := by
  rw [elementsWord, exprWord, append_assoc]
  rintro mark key value heq
  cases heq
  exact hkey key rfl

/-- The key of an element is looked up, unless it names a field. -/
lemma visits_key {l : Nat} (own : List Nat) (hv : VisitsExpr strict s none v) :
    ∃ w, (∀ ns, elementsWord l (.keyed m v z :: ns) =
    w ++ (exprWord z ++ elementsWord l ns)) ∧
    Visits strict own (some (l, u)) s [v] w (fun complete => keyOf complete s m u v)
      (some fun _ => s) := by
  have hexpr : Visits strict own (some (l, u)) s [v] (exprWord v) (fun complete => do
      let _ ← expr complete s none v
      pure (u.elem?.getD .invalid)) (some fun _ => s) :=
        hv.finish (fun _ => still_pure _) fun _ _ => rfl
  cases v with
  | ident key => exact ⟨[.key l key], fun _ => by rw [elementsWord]; rfl, .key m key⟩
  | _ =>
    refine ⟨_, fun _ => elementsWord_keyed (by simp), ?_⟩
    cases u with
    | _ => exact hexpr

lemma visitsElements_keyed {l : Nat} (hv : VisitsExpr strict s none v)
    (hz : ∀ expected, VisitsExpr strict s expected z)
    (hns : VisitsElements strict s l u ns) : VisitsElements strict s l u (.keyed m v z :: ns) := by
  intro i own
  obtain ⟨w, hword, hkey⟩ := visits_key [] hv
  have hn : Visits strict own (some (l, u)) s [.keyed m v z] (w ++ exprWord z) (fun complete => (do
      let t ← keyOf complete s m u v
      expr complete s (some t) z) >>= record (.keyed m v z)) (some fun _ => s) :=
    .node (hkey.bind fun t => hz (some t)) .rfl fun _ => rfl
  rw [funext elementTypes_keyed, hword, ← append_assoc]
  exact hn.bind fun _ => hns (i + 1)

lemma visitsElements_cons {l : Nat} (hkeyed : ∀ m key value, n ≠ .keyed m key value)
    (hn : ∀ expected, VisitsExpr strict s expected n) (hns : VisitsElements strict s l u ns) :
    VisitsElements strict s l u (n :: ns) := by
  intro i own
  have h : Visits strict own (some (l, u)) s (n :: ns) (exprWord n ++ elementsWord l ns)
      (fun complete => do
      let _ ← expr complete s (some (elementType u i)) n
      elementTypes complete s u (i + 1) ns) (some fun _ => s) := (hn _).bind fun _ => hns (i + 1)
  cases n with
  | keyed m key value => exact absurd rfl (hkeyed m key value)
  | _ => exact h

lemma evaluates_composite {o : Option Node} (ho : VisitsOption strict s o)
    (hns : ∀ u, VisitsElements strict s m.id u ns) :
    Evaluates strict s expected (.composite m o ns) :=
  .composite (ho.literal expected) fun u => hns u 0

/-! ### Types -/

lemma evaluates_slice (hv : VisitsExpr strict s none v) :
    Evaluates strict s expected (.arrayType m none v) := by
  rw [Evaluates, exprWord, optionWord, append_nil]
  exact .node (.marked mem_cons_self (hv.finish (fun t => (still_asType v t).bind fun _ =>
    still_serial.bind fun _ => still_pure _) fun _ _ => rfl)) .rfl fun _ => rfl

lemma evaluates_array (hlegible : strict → z.isLegible = true) (hv : VisitsExpr strict s none v)
    (hz : VisitsExpr strict s none z) : Evaluates strict s expected (.arrayType m (some z) v) := by
  refine .node (.marked mem_cons_self ?_) (Perm.swap z v []) fun _ => rfl
  exact hv.bind fun t => .afterStill (still_asType v t) fun _ => hz.andThen fun _ =>
    (Visits.length hlegible).finish
    (fun _ => still_serial.bind fun _ => still_pure _) fun _ _ => rfl

/-- The resolver visits the members of a struct type, whose names are declared in no scope. -/
def VisitsMembers (strict : Prop) (s : Scope) (fs : List Field) : Prop :=
  ∀ {own : List Nat} {literal : Option (Nat × Ty)},
  Visits strict own literal s (fs.map .field) (membersWord fs)
    (fun complete => structMembers complete s fs)
    (some fun _ => s)

lemma visitsMembers_cons (hv : VisitsExpr strict s none v) (hfs : VisitsMembers strict s fs) :
    VisitsMembers strict s (.mk m names v :: fs) := by
  intro own literal
  have h : Visits strict own literal s [.field (.mk m names v)] _ _ _ :=
    .whole (.more hv fun _ => Ledger.needed_idents names) perm_append_comm fun _ => rfl
  exact h.bind fun t => .afterStill (still_asType v t) fun _ =>
    .afterStill still_underlyings fun _ =>
    hfs.finish (fun _ => still_pure _) fun _ _ => rfl

lemma evaluates_struct (hfs : VisitsMembers strict s fs) :
    Evaluates strict s expected (.structType m fs) :=
  .node
    (.marked mem_cons_self
      (hfs.finish (fun _ => still_serial.bind fun _ => still_pure _) fun _ _ => rfl)) .rfl
    fun _ => rfl

/-- The resolver visits parameters, and declares them. -/
def VisitsFields (strict : Prop) (s : Scope) (fs : List Field) : Prop :=
  ∀ {own : List Nat} {literal : Option (Nat × Ty)},
  Visits strict own literal s (fs.map .field) (fieldsWord fs)
    (fun complete => fieldTypes complete s fs)
    (some Prod.snd)

lemma visitsFields_cons (hv : VisitsExpr strict s none v) (hfs : ∀ s, VisitsFields strict s fs) :
    VisitsFields strict s (.mk m names v :: fs) := by
  intro own literal
  have h : Visits strict own literal s [.field (.mk m names v)] _ (fun complete => do
      let t ← expr complete s none v
      let t ← asType v t
      let s ← defineAll t names s
      return (t, s)) (some Prod.snd) :=
    .whole
      (hv.bind fun t => .afterStill (still_asType v t) fun t => (visits_defineAll t names s).finish
      (fun _ => still_pure _) fun _ _ => rfl) perm_append_comm fun _ => rfl
  rw [fieldsWord, ← append_assoc]
  exact h.bind fun p => (hfs p.2).finish
    (fun q => still_pure (replicate (max 1 names.length) p.1 ++ q.1, q.2))
    fun _ _ => rfl

/-- The resolver visits a signature. -/
def VisitsSignature (strict : Prop) (s : Scope) (type : FuncType) : Prop :=
  ∀ {own : List Nat} {literal : Option (Nat × Ty)},
  Visits strict own literal s [.funcType type] (signatureWord type)
    (fun complete => signature complete s type)
    (some Prod.snd)

lemma visitsSignature (hparams : ∀ s, VisitsFields strict s params)
    (hresults : ∀ s, VisitsFields strict s results) :
    VisitsSignature strict s (.mk m params results) := by
  intro own literal
  have h : Visits strict [m.id] literal s _ _ (fun complete => do
      denotesType m
      let p ← fieldTypes complete s params
      let q ← fieldTypes complete p.2 results
      return (Ty.func (← serial) (p.1.map some) (q.1.map some), q.2)) (some Prod.snd) :=
    .marked mem_cons_self ((hparams s).bind fun p => (hresults p.2).finish
      (fun _ => still_serial.bind fun _ => still_pure _) fun _ _ => rfl)
  exact .signed h .rfl

/-- The type of a function: its parameters have a scope of their own. -/
lemma evaluates_funcType (hstrict : ¬strict) (hparams : ∀ s, VisitsFields strict s params)
    (hresults : ∀ s, VisitsFields strict s results) :
    Evaluates strict s expected (.funcType (.mk m params results)) := by
  refine .node (.bracketed ?_ fun _ _ => rfl) .rfl fun h => absurd h hstrict
  exact .marked mem_cons_self ((hparams s.nested).bind fun p => (hresults p.2).close fun _ =>
    still_serial.bind fun _ => still_pure _)

/-! ## Statements -/

/-- The resolver visits a statement. -/
def VisitsStmt (strict : Prop) (s : Scope) (n : Node) : Prop :=
  ∀ {own : List Nat} {literal : Option (Nat × Ty)},
  Visits strict own literal s [n] (stmtWord n) (fun complete => stmt complete s n) (some id)

/-- The resolver visits statements. -/
def VisitsStmts (strict : Prop) (s : Scope) (ns : List Node) : Prop :=
  ∀ {own : List Nat} {literal : Option (Nat × Ty)},
  Visits strict own literal s ns (stmtsWord ns) (fun complete => stmts complete s ns) (some id)

/-- The resolver visits a statement that may be missing. -/
def VisitsStmtOption (strict : Prop) (s : Scope) (o : Option Node) : Prop :=
  ∀ {own : List Nat} {literal : Option (Nat × Ty)},
  Visits strict own literal s o.toList (stmtOptionWord o)
    (fun complete => stmtOption complete s o) (some id)

/-- A block in a scope of its own. -/
lemma visits_block (hns : ∀ s, VisitsStmts strict s ns) :
    Visits strict own literal s [.block (.mk bm ns)]
    (bracketed (stmtsWord ns)) (fun complete => blockStmts complete s.nested (.mk bm ns))
    (some fun _ => s) :=
  .bracketed (.whole ((hns s.nested).close fun _ => still_pure ()) .rfl fun _ => rfl) fun _ _ => rfl

/-- A function literal: its parameters and its body have one scope. -/
lemma evaluates_funcLit (htype : ∀ s, VisitsSignature strict s type)
    (hns : ∀ s, VisitsStmts strict s ns) :
    Evaluates strict s expected (.funcLit m type (.mk bm ns)) := by
  refine .node (.bracketed ?_ fun _ _ => rfl) .rfl fun _ => rfl
  exact (htype s.nested).bind fun p => .whole ((hns p.2).close fun _ => still_pure p.1) .rfl
    fun _ => rfl

lemma visitsStmt_expr (hv : VisitsExpr strict s none v) : VisitsStmt strict s (.exprStmt m v) :=
  .whole hv.andReturn .rfl fun _ => rfl

lemma visitsStmt_incDec {op : String} (hv : VisitsExpr strict s none v) :
    VisitsStmt strict s (.incDec m v op) :=
  .whole hv.andReturn .rfl fun _ => rfl

lemma visitsStmt_ret (hns : VisitsExprs strict s none ns) : VisitsStmt strict s (.ret m ns) :=
  .whole hns.andReturn .rfl fun _ => rfl

/-- Nodes that are no statements. -/
lemma visitsStmt_other (hn : ¬strict) (hword : stmtWord n = [])
    (heq : ∀ complete, stmt complete s n = (do
      let _ ← unresolved ("statement kind " ++ n.kind) n.loc
      return s)) : VisitsStmt strict s n := by
  intro own literal
  rw [hword, funext heq]
  exact .whole (.more (.still ((still_unresolved _ _).bind fun _ => still_pure s) fun _ => rfl)
    fun h => absurd h hn) .rfl
    fun h => absurd h hn

/-! ### Assignments and declarations -/

/-- The resolver visits the targets of an assignment. -/
def VisitsTargets (strict : Prop) (s : Scope) (isDefine : Bool) (loc : Loc) (types : List Ty)
    (ns : List Node) : Prop :=
  ∀ {own : List Nat} {literal : Option (Nat × Ty)}, Visits strict own literal s ns
    (targetsWord isDefine ns)
    (fun complete => assignTargets complete s isDefine loc types ns) (some id)

lemma visitsTargets_cons {isDefine : Bool} {loc : Loc} {types : List Ty}
    (hn : VisitsExpr strict s none n)
    (hns : ∀ s, VisitsTargets strict s isDefine loc types.tail ns) :
    VisitsTargets strict s isDefine loc types (n :: ns) := by
  intro own literal
  have h : Visits strict own literal s (n :: ns) (exprWord n ++ targetsWord isDefine ns)
      (fun complete => do
      let target ← expr complete s none n
      if !target.isInvalid && !(types.headD .invalid).isInvalid then
        checkAssignable loc (types.headD .invalid) target
      assignTargets complete s isDefine loc types.tail ns) (some id) :=
    hn.bind fun _ => .checked _ _ _ (hns s)
  cases n with
  | ident i =>
    cases isDefine with
    | true =>
      have heq : ∀ complete, assignTargets complete s true loc types (.ident i :: ns) =
          (if i.name == "_" then pure s else defineOrReuse i (types.headD .invalid) s) >>= fun s =>
            assignTargets complete s true loc types.tail ns := by
        intro complete
        rw [assignTargets, if_pos rfl]
        split
        · rfl
        · rfl
      rw [funext heq]
      exact (Visits.target i (types.headD .invalid)).bind fun s => hns s
    | false => exact h
  | _ => exact h

lemma visitsStmt_assign {op : String} (hvalues : VisitsExprs strict s none values)
    (htargets : ∀ types, VisitsTargets strict s (op == ":=") m.loc types targets) :
    VisitsStmt strict s (.assign m targets op values) :=
  .whole (hvalues.bind fun ts => .afterStill (still_valueTypes targets values ts)
    fun types => htargets types)
    perm_append_comm fun _ => rfl

lemma visitsStmt_varSpec {o : Option Node} (ho : VisitsOption strict s o)
    (hvalues : ∀ expected, VisitsExprs strict s expected values) :
    VisitsStmt strict s (.varSpec m names o values) := by
  refine .whole (ho.declared.bind fun declared => (hvalues declared).bind fun vs =>
    visits_declareNames m.loc declared vs (map_fst_zip (Nat.le_of_eq ?_)) s) ?_ fun _ => rfl
  · split
    · rename_i h
      exact (beq_iff_eq.mp h).symm
    · exact length_replicate.symm
  · rw [Node.children, append_assoc, ← append_assoc]
    exact perm_append_comm

/-! ### Compound statements

A compound statement gives the scope back in which it began, whatever its own scopes were. -/

section Compound

variable {init guard post orElse key value : Option Node} {clauses : List Clause} {op : String}

lemma visitsStmt_block (hns : ∀ s, VisitsStmts strict s ns) :
    VisitsStmt strict s (.block (.mk bm ns)) :=
  (visits_block hns).andReturn

lemma visitsStmt_if (hinit : ∀ s, VisitsStmtOption strict s init)
    (hv : ∀ s, VisitsExpr strict s none v)
    (hns : ∀ s, VisitsStmts strict s ns) (horElse : ∀ s, VisitsStmtOption strict s orElse) :
    VisitsStmt strict s (.ifStmt m init v (.mk bm ns) orElse) := by
  refine .bracketed (.whole ((hinit s.nested).bind fun inner => (hv inner).bind fun _ =>
    (visits_block hns).bind fun _ => (horElse inner).close fun _ => still_pure s) ?_ fun _ => rfl)
      fun _ _ => rfl
  simp

lemma visitsStmt_for (hinit : ∀ s, VisitsStmtOption strict s init)
    (hguard : ∀ s, VisitsOption strict s guard)
    (hpost : ∀ s, VisitsStmtOption strict s post) (hns : ∀ s, VisitsStmts strict s ns) :
    VisitsStmt strict s (.forStmt m init guard post (.mk bm ns)) := by
  refine .bracketed
    (.whole ((hinit s.nested).bind fun inner => (hguard inner).expr.bind fun _ =>
      (hpost inner).bind fun inner =>
    (visits_block hns).close fun _ => still_pure s) ?_ fun _ => rfl) fun _ _ => rfl
  simp

/-- The resolver visits the key or the value of a range. -/
def VisitsRange (strict : Prop) (s : Scope) (isDefine : Bool) (t : Ty) (o : Option Node) : Prop :=
  ∀ {own : List Nat}
  {literal : Option (Nat × Ty)}, Visits strict own literal s o.toList (rangeWord isDefine o)
    (fun complete => rangeTarget complete s isDefine t o) (some id)

lemma visitsRange_some {isDefine : Bool} {t : Ty} (hv : VisitsExpr strict s none v) :
    VisitsRange strict s isDefine t (some v) := by
  intro own literal
  have h : Visits strict own literal s _ _ _ _ := hv.andReturn
  cases v with
  | ident i =>
    cases isDefine with
    | true => exact .define i t
    | false => exact h
  | _ => exact h

lemma visitsStmt_range (hv : VisitsExpr strict s none v)
    (hkey : ∀ s t, VisitsRange strict s (op == ":=") t key)
    (hvalue : ∀ s t, VisitsRange strict s (op == ":=") t value)
    (hns : ∀ s, VisitsStmts strict s ns) :
    VisitsStmt strict s (.rangeStmt m key value op v (.mk bm ns)) := by
  intro own literal
  have hparts : (v :: (key.toList ++ value.toList ++ [.block (.mk bm ns)])).Perm
    (key.toList ++ value.toList ++ [v, .block (.mk bm ns)]) := perm_middle.symm
  refine .whole (hv.bind fun t => .afterStill still_underlyings fun env => .bracketed
    ((hkey s.nested (rangeTypes env t).1).bind fun inner =>
      (hvalue inner (rangeTypes env t).2).bind fun _ =>
      (visits_block hns).close fun _ => still_pure s) fun _ _ => rfl) ?_ fun _ => rfl
  simpa [Node.children] using hparts

/-- The resolver visits the cases of a switch. -/
def VisitsClauses (strict : Prop) (s : Scope) (clauses : List Clause) : Prop := ∀ {own : List Nat}
  {literal : Option (Nat × Ty)}, Visits strict own literal s
  (clauses.map .clause) (clausesWord clauses)
    (fun complete => clauseStmts complete s clauses) (some fun _ => s)

/-- The resolver visits the guards of a case. -/
def VisitsGuards (strict : Prop) (s : Scope) (guards : Option (List Node)) : Prop :=
  ∀ {own : List Nat}
  {literal : Option (Nat × Ty)}, Visits strict own literal s (guards.getD []) (guardsWord guards)
    (fun complete => guardTypes complete s guards) (some fun _ => s)

lemma visitsClauses_cons {guards : Option (List Node)} (hguards : VisitsGuards strict s guards)
    (hns : VisitsStmts strict s.nested ns) (hclauses : VisitsClauses strict s clauses) :
    VisitsClauses strict s (.mk m guards ns :: clauses) := by
  intro own literal
  have h : Visits strict own literal s [.clause (.mk m guards ns)] _ (fun complete => do
      guardTypes complete s guards
      let _ ← stmts complete s.nested ns) (some fun _ => s) :=
    .whole (hguards.bind fun _ => .bracketed (hns.close fun _ => still_pure ()) fun _ _ => rfl) .rfl
      fun _ => rfl
  rw [clausesWord, ← append_assoc]
  exact h.bind fun _ => hclauses

lemma visitsStmt_switch (hinit : ∀ s, VisitsStmtOption strict s init)
    (hguard : ∀ s, VisitsOption strict s guard) (hclauses : ∀ s, VisitsClauses strict s clauses) :
    VisitsStmt strict s (.switch m init guard clauses) := by
  refine .bracketed (.whole ((hinit s.nested).bind fun inner => (hguard inner).expr.bind fun _ =>
    (hclauses inner).close fun _ => still_pure s) ?_ fun _ => rfl) fun _ _ => rfl
  simp

end Compound

/-! ## The induction -/

lemma operand_part (h : strict → Operand n) (hc : c ∈ n.operandParts) :
    strict → Operand c := fun hs =>
  (h hs).2.operandParts hc

mutual

/-- **The resolver evaluates every expression.** -/
lemma evaluates : (n : Node) → (strict → Operand n) → ∀ s expected, Evaluates strict s expected n
  | .ident i, _, _, _ => .ident i
  | .literal _ kind _, _, _, _ => by
    cases kind with
    | _ => exact .node (visits_pure rfl) .rfl fun _ => rfl
  | .select _ base _, h, s, _ =>
    evaluates_select (evaluates base (operand_part h mem_cons_self) s none).expr
  | .star _ x, h, s, _ => evaluates_star (evaluates x (operand_part h mem_cons_self) s none).expr
  | .unary _ _ x, h, s, _ =>
    evaluates_unary (evaluates x (operand_part h mem_cons_self) s none).expr
  | .binary _ x _ y, h, s, _ =>
    evaluates_binary (evaluates x (operand_part h mem_cons_self) s none).expr
      (evaluates y (operand_part h (mem_cons_of_mem _ mem_cons_self)) s none).expr
  | .paren _ x, h, s, expected =>
    evaluates_paren (evaluates x (operand_part h mem_cons_self) s expected).expr
  | .call _ fn args, h, s, _ =>
    evaluates_call (evaluates fn (operand_part h mem_cons_self) s none).expr
      (visits_exprs args (fun _ hc => operand_part h (mem_cons_of_mem _ hc)) s)
  | .index _ x y, h, s, _ =>
    evaluates_index (evaluates x (operand_part h mem_cons_self) s none).expr
      (evaluates y (operand_part h (mem_cons_of_mem _ mem_cons_self)) s none).expr
  | .composite m type elements, h, s, _ =>
    evaluates_composite
      (visits_option type
        (fun _ hc => operand_part h (mem_append_left _ (Option.mem_toList.mpr hc))) s)
      fun u => visits_elements elements
        (fun _ hc => operand_part h (mem_append_right _ hc)) s m.id u
  | .keyed _ x y, h, s, expected =>
    evaluates_keyed (evaluates x (operand_part h mem_cons_self) s none).expr
      (evaluates y (operand_part h (mem_cons_of_mem _ mem_cons_self)) s expected).expr
  | .funcLit _ type (.mk _ body), h, _, _ =>
    evaluates_funcLit (visits_signature type fun hs => (h hs).2.child mem_cons_self)
      (visits_stmts body fun _ hc hs =>
        ((h hs).2.child (mem_cons_of_mem _ mem_cons_self)).statementParts hc)
  | .arrayType _ none elem, h, s, _ =>
    evaluates_slice (evaluates elem (operand_part h mem_cons_self) s none).expr
  | .arrayType _ (some length) elem, h, s, _ =>
    evaluates_array (fun hs => (operand_part h mem_cons_self hs).2.legible)
      (evaluates elem (operand_part h (mem_cons_of_mem _ mem_cons_self)) s none).expr
      (evaluates length (operand_part h mem_cons_self) s none).expr
  | .structType _ fields, h, s, _ =>
    evaluates_struct (visits_members fields (fun _ hf hs => (h hs).2.child (mem_map_of_mem hf)) s)
  | .funcType (.mk _ params results), h, _, _ =>
    evaluates_funcType (fun hs => nomatch (h hs).1)
      (visits_fields params fun _ hf hs => (h hs).2.child (mem_append_left _ (mem_map_of_mem hf)))
      (visits_fields results fun _ hf hs => (h hs).2.child (mem_append_right _ (mem_map_of_mem hf)))
  | .field _, h, _, _ | .assign .., h, _, _ | .varSpec .., h, _, _
  | .exprStmt .., h, _, _ | .incDec .., h, _, _
  | .ret .., h, _, _ | .branch .., h, _, _ | .block _, h, _, _ | .ifStmt .., h, _, _
  | .forStmt .., h, _, _
  | .rangeStmt .., h, _, _ | .clause _, h, _, _ | .switch .., h, _, _ | .importSpec _, h, _, _
  | .typeDecl .., h, _, _
  | .funcDecl .., h, _, _ | .file .., h, _, _ =>
    evaluates_other (fun hs => nomatch (h hs).1) rfl fun _ => rfl

lemma visits_exprs : (ns : List Node) → (∀ n ∈ ns, strict → Operand n) →
    ∀ s expected, VisitsExprs strict s expected ns
  | [], _, _, _ => visits_pure rfl
  | n :: ns, h, s, expected => visitsExprs_cons (evaluates n (h n mem_cons_self) s expected).expr
      (visits_exprs ns (fun _ hc => h _ (mem_cons_of_mem _ hc)) s expected)

lemma visits_option : (o : Option Node) → (∀ n ∈ o, strict → Operand n) →
    ∀ s, VisitsOption strict s o
  | none, _, _ => visitsOption_none
  | some n, h, s => visitsOption_some (evaluates n (h n rfl) s none).expr

lemma visits_guards : (o : Option (List Node)) → (∀ n ∈ o.getD [], strict → Operand n) →
    ∀ s, VisitsGuards strict s o
  | none, _, _ => visits_pure rfl
  | some ns, h, s => (visits_exprs ns h s none).finish (fun _ => still_pure _) fun _ _ => rfl

lemma visits_elements : (ns : List Node) → (∀ n ∈ ns, strict → Operand n) →
    ∀ s l u, VisitsElements strict s l u ns
  | [], _, _, _, _ => fun _ => visits_pure rfl
  | n :: ns, h, s, l, u => by
    have hn := h n mem_cons_self
    have hns := visits_elements ns (fun _ hc => h _ (mem_cons_of_mem _ hc)) s l u
    have hexpr := evaluates n hn s
    cases n with
    | keyed m key value =>
      exact visitsElements_keyed (evaluates key (operand_part hn mem_cons_self) s none).expr
        (fun expected =>
          (evaluates value (operand_part hn (mem_cons_of_mem _ mem_cons_self)) s expected).expr) hns
    | _ => exact visitsElements_cons (by simp) (fun expected => (hexpr expected).expr) hns

lemma visits_members : (fs : List Field) → (∀ f ∈ fs, strict → (Node.field f).Regular) →
    ∀ s, VisitsMembers strict s fs
  | [], _, _ => visits_pure rfl
  | .mk _ _ type :: fs, h, s =>
    visitsMembers_cons
      (evaluates type (fun hs => (h _ mem_cons_self hs).operandParts mem_cons_self) s none).expr
      (visits_members fs (fun _ hf => h _ (mem_cons_of_mem _ hf)) s)

lemma visits_signature : (t : FuncType) → (strict → (Node.funcType t).Regular) →
    ∀ s, VisitsSignature strict s t
  | .mk _ params results, h, _ => by
    have hparams :=
      visits_fields params fun _ hf hs => (h hs).child (mem_append_left _ (mem_map_of_mem hf))
    have hresults :=
      visits_fields results fun _ hf hs => (h hs).child (mem_append_right _ (mem_map_of_mem hf))
    exact visitsSignature hparams hresults

lemma visits_fields : (fs : List Field) → (∀ f ∈ fs, strict → (Node.field f).Regular) →
    ∀ s, VisitsFields strict s fs
  | [], _, _ => visits_pure rfl
  | .mk _ _ type :: fs, h, s =>
    visitsFields_cons
      (evaluates type (fun hs => (h _ mem_cons_self hs).operandParts mem_cons_self) s none).expr
      (visits_fields fs fun _ hf => h _ (mem_cons_of_mem _ hf))

/-- **The resolver visits every statement.** -/
lemma visits_stmt : (n : Node) → (strict → Statement n) → ∀ s, VisitsStmt strict s n
  | .assign m targets op values, h, s =>
    visitsStmt_assign
      (visits_exprs values (fun _ hc hs => (h hs).2.operandParts (mem_append_right _ hc)) s none)
      fun types => visits_targets targets
        (fun _ hc hs => (h hs).2.operandParts (mem_append_left _ hc)) s (op == ":=")
        m.loc types
  | .varSpec _ _ type values, h, s =>
    visitsStmt_varSpec (visits_option type (fun _ hc hs => (h hs).2.operandParts
        (mem_append_left _ (Option.mem_toList.mpr hc))) s)
      (visits_exprs values (fun _ hc hs => (h hs).2.operandParts (mem_append_right _ hc)) s)
  | .exprStmt _ x, h, s =>
    visitsStmt_expr (evaluates x (fun hs => (h hs).2.operandParts mem_cons_self) s none).expr
  | .incDec _ x _, h, s =>
    visitsStmt_incDec (evaluates x (fun hs => (h hs).2.operandParts mem_cons_self) s none).expr
  | .ret _ results, h, s =>
    visitsStmt_ret (visits_exprs results (fun _ hc hs => (h hs).2.operandParts hc) s none)
  | .branch .., _, _ => .whole (visits_pure rfl) .rfl fun _ => rfl
  | .block (.mk _ body), h, _ =>
    visitsStmt_block (visits_stmts body fun _ hc hs => (h hs).2.statementParts hc)
  | .ifStmt _ init cond (.mk m body) orElse, h, _ =>
    visitsStmt_if
      (visits_stmtOption init fun _ hc hs => (h hs).2.statementParts
        (mem_append_left _ (Option.mem_toList.mpr hc)))
      (fun s => (evaluates cond (fun hs => (h hs).2.operandParts mem_cons_self) s none).expr)
      (visits_stmts body fun _ hc hs =>
        ((h hs).2.child (c := .block (.mk m body)) (by simp)).statementParts hc)
      (visits_stmtOption orElse fun _ hc hs => (h hs).2.statementParts
        (mem_append_right _ (Option.mem_toList.mpr hc)))
  | .forStmt _ init cond post (.mk m body), h, _ =>
    visitsStmt_for
      (visits_stmtOption init fun _ hc hs => (h hs).2.statementParts
        (mem_append_left _ (Option.mem_toList.mpr hc)))
      (visits_option cond fun _ hc hs => (h hs).2.operandParts (Option.mem_toList.mpr hc))
      (visits_stmtOption post fun _ hc hs => (h hs).2.statementParts
        (mem_append_right _ (Option.mem_toList.mpr hc)))
      (visits_stmts body fun _ hc hs =>
        ((h hs).2.child (c := .block (.mk m body)) (by simp)).statementParts hc)
  | .rangeStmt _ key value op x (.mk m body), h, s =>
    visitsStmt_range
      (evaluates x (fun hs => (h hs).2.operandParts (mem_append_right _ mem_cons_self)) s none).expr
      (fun s => visits_range key (fun _ hc hs => (h hs).2.operandParts
        (mem_append_left _ (mem_append_left _ (Option.mem_toList.mpr hc)))) s (op == ":="))
      (fun s => visits_range value (fun _ hc hs => (h hs).2.operandParts
        (mem_append_left _ (mem_append_right _ (Option.mem_toList.mpr hc)))) s (op == ":="))
      (visits_stmts body fun _ hc hs =>
        ((h hs).2.child (c := .block (.mk m body)) (by simp)).statementParts hc)
  | .switch _ init tag clauses, h, _ =>
    visitsStmt_switch
      (visits_stmtOption init fun _ hc hs => (h hs).2.statementParts (Option.mem_toList.mpr hc))
      (visits_option tag fun _ hc hs => (h hs).2.operandParts (Option.mem_toList.mpr hc))
      (visits_clauses clauses fun _ hc hs => (h hs).2.child
        (mem_append_right _ (mem_map_of_mem hc)))
  | .ident _, h, _ | .literal .., h, _ | .composite .., h, _ | .keyed .., h, _
  | .select .., h, _ | .star .., h, _
  | .unary .., h, _ | .binary .., h, _ | .paren .., h, _ | .call .., h, _
  | .index .., h, _ | .funcLit .., h, _
  | .arrayType .., h, _ | .structType .., h, _ | .funcType _, h, _
  | .field _, h, _ | .clause _, h, _
  | .importSpec _, h, _ | .typeDecl .., h, _ | .funcDecl .., h, _ | .file .., h, _ =>
    visitsStmt_other (fun hs => nomatch (h hs).1) rfl fun _ => rfl

lemma visits_stmts : (ns : List Node) → (∀ n ∈ ns, strict → Statement n) →
    ∀ s, VisitsStmts strict s ns
  | [], _, _ => visits_pure rfl
  | n :: ns, h, s => Visits.bind (visits_stmt n (h n mem_cons_self) s) fun s =>
      visits_stmts ns (fun _ hc => h _ (mem_cons_of_mem _ hc)) s

lemma visits_stmtOption : (o : Option Node) → (∀ n ∈ o, strict → Statement n) →
    ∀ s, VisitsStmtOption strict s o
  | none, _, _ => visits_pure rfl
  | some n, h, s => visits_stmt n (h n rfl) s

lemma visits_targets : (ns : List Node) → (∀ n ∈ ns, strict → Operand n) → ∀ s isDefine loc types,
    VisitsTargets strict s isDefine loc types ns
  | [], _, _, _, _, _ => visits_pure rfl
  | n :: ns, h, s, isDefine, loc, types =>
    visitsTargets_cons (evaluates n (h n mem_cons_self) s none).expr fun s =>
      visits_targets ns (fun _ hc => h _ (mem_cons_of_mem _ hc)) s isDefine loc types.tail

lemma visits_range : (o : Option Node) → (∀ n ∈ o, strict → Operand n) →
    ∀ s isDefine t, VisitsRange strict s isDefine t o
  | none, _, _, _, _ => visits_pure rfl
  | some n, h, s, _, _ => visitsRange_some (evaluates n (h n rfl) s none).expr

lemma visits_clauses : (cs : List Clause) → (∀ c ∈ cs, strict → (Node.clause c).Regular) →
    ∀ s, VisitsClauses strict s cs
  | [], _, _ => visits_pure rfl
  | .mk _ guards body :: cs, h, s =>
    visitsClauses_cons
      (visits_guards guards (fun _ hc hs => (h _ mem_cons_self hs).operandParts hc) s)
      (visits_stmts body (fun _ hc hs => (h _ mem_cons_self hs).statementParts hc) s.nested)
      (visits_clauses cs (fun _ hc => h _ (mem_cons_of_mem _ hc)) s)

end

lemma visits_expr (n : Node) (h : strict → Operand n) (s : Scope) (expected : Option Ty) :
    VisitsExpr strict s expected n :=
  (evaluates n h s expected).expr

end Trees

end Lexical

end Recast
