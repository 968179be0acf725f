import Recast.Proofs.Syntax.Numbering
import Recast.Syntax.Spelling

/-!
# Relabeling a tree

A tree in which the nodes have other numbers and identifiers are spelled anew.  Nothing else
changes: a relabeled tree has the places, the kinds and the parts that it had, and so the walk
through it is the relabeled walk (`preorderAll_relabel`).

* `Node.relabel` — the relabeled node.
* `identifiers` — the identifiers of some trees, in pre-order.
* `Node.spelled_relabel` — without new spellings, a relabeled node is written as before.
-/

namespace Recast

open List

/-- New numbers for nodes and new spellings for identifiers. -/
structure Relabeling where
  number : Nat → Nat
  spell : Ident → String

/-- A mark with its new number. -/
def Mark.relabel (ρ : Relabeling) (m : Mark) : Mark := ⟨ρ.number m.id, m.loc⟩

/-- An identifier with its new number and its new spelling. -/
def Ident.relabel (ρ : Relabeling) (i : Ident) : Ident := ⟨i.mark.relabel ρ, ρ.spell i⟩

def Import.relabel (ρ : Relabeling) (i : Import) : Import := ⟨i.mark.relabel ρ, i.path⟩

mutual

/-- A node relabeled with everything below it. -/
def Node.relabel (ρ : Relabeling) : Node → Node
  | .ident i => .ident (i.relabel ρ)
  | .literal m kind value => .literal (m.relabel ρ) kind value
  | .composite m type elements =>
    .composite (m.relabel ρ) (relabelOption ρ type) (relabelAll ρ elements)
  | .keyed m key value => .keyed (m.relabel ρ) (key.relabel ρ) (value.relabel ρ)
  | .select m base name => .select (m.relabel ρ) (base.relabel ρ) (name.relabel ρ)
  | .star m x => .star (m.relabel ρ) (x.relabel ρ)
  | .unary m op x => .unary (m.relabel ρ) op (x.relabel ρ)
  | .binary m x op y => .binary (m.relabel ρ) (x.relabel ρ) op (y.relabel ρ)
  | .paren m x => .paren (m.relabel ρ) (x.relabel ρ)
  | .call m fn args => .call (m.relabel ρ) (fn.relabel ρ) (relabelAll ρ args)
  | .index m x i => .index (m.relabel ρ) (x.relabel ρ) (i.relabel ρ)
  | .funcLit m type body => .funcLit (m.relabel ρ) (type.relabel ρ) (body.relabel ρ)
  | .arrayType m length elem => .arrayType (m.relabel ρ) (relabelOption ρ length) (elem.relabel ρ)
  | .structType m fields => .structType (m.relabel ρ) (relabelFields ρ fields)
  | .funcType type => .funcType (type.relabel ρ)
  | .field field => .field (field.relabel ρ)
  | .assign m targets op values =>
    .assign (m.relabel ρ) (relabelAll ρ targets) op (relabelAll ρ values)
  | .varSpec m names type values =>
    .varSpec (m.relabel ρ) (names.map (Ident.relabel ρ))
      (relabelOption ρ type) (relabelAll ρ values)
  | .exprStmt m x => .exprStmt (m.relabel ρ) (x.relabel ρ)
  | .incDec m x op => .incDec (m.relabel ρ) (x.relabel ρ) op
  | .ret m results => .ret (m.relabel ρ) (relabelAll ρ results)
  | .branch m word => .branch (m.relabel ρ) word
  | .block block => .block (block.relabel ρ)
  | .ifStmt m init cond body orElse =>
    .ifStmt (m.relabel ρ) (relabelOption ρ init) (cond.relabel ρ) (body.relabel ρ)
      (relabelOption ρ orElse)
  | .forStmt m init cond post body =>
    .forStmt (m.relabel ρ) (relabelOption ρ init) (relabelOption ρ cond)
      (relabelOption ρ post) (body.relabel ρ)
  | .rangeStmt m key value op x body =>
    .rangeStmt (m.relabel ρ) (relabelOption ρ key) (relabelOption ρ value) op
      (x.relabel ρ) (body.relabel ρ)
  | .clause clause => .clause (clause.relabel ρ)
  | .switch m init tag clauses =>
    .switch (m.relabel ρ) (relabelOption ρ init) (relabelOption ρ tag) (relabelClauses ρ clauses)
  | .importSpec spec => .importSpec (spec.relabel ρ)
  | .typeDecl m name type isAlias =>
    .typeDecl (m.relabel ρ) (name.relabel ρ) (type.relabel ρ) isAlias
  | .funcDecl m name type body =>
    .funcDecl (m.relabel ρ) (name.relabel ρ) (type.relabel ρ) (relabelBody ρ body)
  | .file m package imports decls =>
    .file (m.relabel ρ) (package.relabel ρ) (imports.map (Import.relabel ρ)) (relabelAll ρ decls)

def Field.relabel (ρ : Relabeling) : Field → Field
  | .mk m names type => .mk (m.relabel ρ) (names.map (Ident.relabel ρ)) (type.relabel ρ)

def FuncType.relabel (ρ : Relabeling) : FuncType → FuncType
  | .mk m params results => .mk (m.relabel ρ) (relabelFields ρ params) (relabelFields ρ results)

def Block.relabel (ρ : Relabeling) : Block → Block
  | .mk m stmts => .mk (m.relabel ρ) (relabelAll ρ stmts)

def Clause.relabel (ρ : Relabeling) : Clause → Clause
  | .mk m guards body => .mk (m.relabel ρ) (relabelGuards ρ guards) (relabelAll ρ body)

def relabelAll (ρ : Relabeling) : List Node → List Node
  | [] => []
  | n :: ns => n.relabel ρ :: relabelAll ρ ns

def relabelOption (ρ : Relabeling) : Option Node → Option Node
  | none => none
  | some n => some (n.relabel ρ)

def relabelFields (ρ : Relabeling) : List Field → List Field
  | [] => []
  | f :: fs => f.relabel ρ :: relabelFields ρ fs

def relabelClauses (ρ : Relabeling) : List Clause → List Clause
  | [] => []
  | c :: cs => c.relabel ρ :: relabelClauses ρ cs

def relabelGuards (ρ : Relabeling) : Option (List Node) → Option (List Node)
  | none => none
  | some ns => some (relabelAll ρ ns)

def relabelBody (ρ : Relabeling) : Option Block → Option Block
  | none => none
  | some b => some (b.relabel ρ)

end

/-- A relabeled unit. -/
def File.relabel (ρ : Relabeling) (f : File) : File :=
  ⟨f.mark.relabel ρ, f.package.relabel ρ, f.imports.map (Import.relabel ρ), relabelAll ρ f.decls⟩

variable (ρ : Relabeling)

/-! ## Lists -/

lemma relabelAll_eq (ns : List Node) : relabelAll ρ ns = ns.map (Node.relabel ρ) := by
  induction ns with
  | nil => rfl
  | cons n ns ih => rw [relabelAll, ih, map_cons]

lemma relabelFields_eq (fs : List Field) : relabelFields ρ fs = fs.map (Field.relabel ρ) := by
  induction fs with
  | nil => rfl
  | cons f fs ih => rw [relabelFields, ih, map_cons]

lemma relabelClauses_eq (cs : List Clause) : relabelClauses ρ cs = cs.map (Clause.relabel ρ) := by
  induction cs with
  | nil => rfl
  | cons c cs ih => rw [relabelClauses, ih, map_cons]

lemma length_relabelAll (ns : List Node) : (relabelAll ρ ns).length = ns.length := by
  rw [relabelAll_eq, length_map]

/-! ## Marks and parts -/

namespace Node

@[simp] lemma mark_relabel (n : Node) : (n.relabel ρ).mark = n.mark.relabel ρ := by
  cases n with
  | funcType t => cases t; rfl
  | field f => cases f; rfl
  | block b => cases b; rfl
  | clause c => cases c; rfl
  | _ => rfl

@[simp] lemma id_relabel (n : Node) : (n.relabel ρ).id = ρ.number n.id := by
  rw [id, mark_relabel, Mark.relabel, id]

@[simp] lemma loc_relabel (n : Node) : (n.relabel ρ).loc = n.loc := by
  rw [loc, mark_relabel, Mark.relabel, loc]

@[simp] lemma kind_relabel (n : Node) : (n.relabel ρ).kind = n.kind := by
  cases n <;> rfl

lemma isFunction_relabel (n : Node) : (n.relabel ρ).isFunction = n.isFunction := by
  cases n <;> rfl

lemma children_relabel (n : Node) : (n.relabel ρ).children = n.children.map (Node.relabel ρ) := by
  have hoption : ∀ n : Option Node, (relabelOption ρ n).toList =
    n.toList.map (Node.relabel ρ) := by rintro (_ | _) <;> rfl
  cases n with
  | funcType x | field x | block x =>
    cases x
    simp [relabel, FuncType.relabel, Field.relabel, Block.relabel, children, relabelFields_eq,
      relabelAll_eq, Function.comp_def]
  | clause c =>
    obtain ⟨m, guards, body⟩ := c
    cases guards <;> simp [relabel, Clause.relabel, children, relabelGuards, relabelAll_eq]
  | funcDecl m name type body => cases body <;> simp [relabel, children, relabelBody]
  | _ =>
    simp [relabel, children, hoption, relabelAll_eq, relabelFields_eq,
      relabelClauses_eq, Function.comp_def]

end Node

/-- A walk through a relabeled tree visits the relabeled nodes. -/
lemma preorderAll_relabel (ns : List Node) :
    preorderAll (ns.map (Node.relabel ρ)) = (preorderAll ns).map (Node.relabel ρ) := by
  induction ns using preorderAll.induct with
  | case1 => simp [preorderAll]
  | case2 n ns ih =>
    rw [map_cons, preorderAll, preorderAll, Node.children_relabel, ← map_append, ih, map_cons]

/-! ## Identifiers -/

/-- The identifier that a node is. -/
def Node.ident? : Node → Option Ident
  | .ident i => some i
  | _ => none

/-- The identifiers of some trees, in pre-order. -/
def identifiers (ns : List Node) : List Ident := (preorderAll ns).filterMap Node.ident?

@[grind =] lemma identifiers_nil : identifiers [] = [] := by
  rw [identifiers, preorderAll]
  rfl

@[grind =] lemma identifiers_append (ns ms : List Node) :
    identifiers (ns ++ ms) = identifiers ns ++ identifiers ms := by
  rw [identifiers, preorderAll_append, filterMap_append]
  rfl

@[grind =] lemma identifiers_cons (n : Node) (ns : List Node) :
    identifiers (n :: ns) = n.ident?.toList ++ (identifiers n.children ++ identifiers ns) := by
  rw [identifiers, preorderAll, preorderAll_append, filterMap_cons, filterMap_append]
  cases n.ident? <;> rfl

@[grind =] lemma identifiers_map_ident (is : List Ident) : identifiers (is.map .ident) = is := by
  induction is with
  | nil => exact identifiers_nil
  | cons i is ih =>
    rw [map_cons, identifiers_cons, ih]
    simp [Node.ident?, Node.children, identifiers_nil]

/-! ## Text -/

section Text

variable {ρ}

lemma Ident.name_relabel (hplain : ρ.spell = Ident.name) (i : Ident) :
    (i.relabel ρ).name = i.name := congrFun hplain i

lemma Node.isQualified_relabel (hplain : ρ.spell = Ident.name) (package name : String) (n : Node) :
    (n.relabel ρ).isQualified package name = n.isQualified package name := by
  cases n with
  | select m base sel =>
    cases base <;> simp [Node.relabel, Node.isQualified, Ident.name_relabel hplain]
  | _ => rfl

section

-- What every case below rewrites with.
attribute [local simp] Node.relabel Node.spelled relabelAll relabelOption relabelFields
  Field.relabel spelledAll spelledOption
  spelledFields Ident.name_relabel

mutual

/-- With the spelling of identifiers a node keeps its text. -/
theorem Node.spelled_relabel (hplain : ρ.spell = Ident.name) :
    (n : Node) → (n.relabel ρ).spelled = n.spelled
  | .ident i => Ident.name_relabel hplain i
  | .literal _ kind _ => by cases kind <;> rfl
  | .select _ x _ | .star _ x | .unary _ _ x
  | .paren _ x => by simp [x.spelled_relabel hplain, hplain]
  | .binary _ x _ y | .index _ x y
  | .keyed _ x y => by simp [x.spelled_relabel hplain, y.spelled_relabel hplain]
  | .call _ fn args => by simp [fn.spelled_relabel hplain, spelledAll_relabel hplain args]
  | .composite _ type elements => by
    simp [spelledOption_relabel hplain type, spelledAll_relabel hplain elements]
  | .arrayType _ length elem => by
    simp [spelledOption_relabel hplain length, elem.spelled_relabel hplain]
  | .structType _ fields => by simp [spelledFields_relabel hplain fields]
  | .funcLit .. | .funcType _ | .field _
  | .assign .. | .varSpec .. | .exprStmt .. | .incDec .. | .ret .. | .branch ..
  | .block _ | .ifStmt .. | .forStmt .. | .rangeStmt .. | .clause _
  | .switch .. | .importSpec _ | .typeDecl ..
  | .funcDecl .. | .file .. => rfl

theorem spelledAll_relabel (hplain : ρ.spell = Ident.name) :
    (ns : List Node) → spelledAll (relabelAll ρ ns) = spelledAll ns
  | [] => rfl
  | n :: ns => by simp [n.spelled_relabel hplain, spelledAll_relabel hplain ns]

theorem spelledOption_relabel (hplain : ρ.spell = Ident.name) :
    (n : Option Node) → spelledOption (relabelOption ρ n) = spelledOption n
  | none => rfl
  | some n => n.spelled_relabel hplain

theorem spelledFields_relabel (hplain : ρ.spell = Ident.name) :
    (fs : List Field) → spelledFields (relabelFields ρ fs) = spelledFields fs
  | [] => rfl
  | .mk _ names type :: fs => by
    simp [type.spelled_relabel hplain, spelledFields_relabel hplain fs, Function.comp_def, hplain]

end

end

end Text

end Recast
