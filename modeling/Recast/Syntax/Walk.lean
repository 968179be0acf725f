import Recast.Syntax.Node

/-!
# Walking a syntax tree

A tree is walked in pre-order: a node, then its children in source order.  The walk keeps its own
stack of nodes still to visit.  Where the nodes above matter, each node is kept with them, so that a
visit knows what encloses it.

* `Node.preorder` — every node below and including one.
* `Node.walk` — the same, each with the nodes above it, and if so wanted only nodes of some kinds.
* `Node.enclosingFunction` — the innermost function among the nodes above.
* `File.numbered` — the tree with each node numbered by its position in the walk.
-/

namespace Recast

/-! ## Size

Every step of the walk replaces a node by its children, which together are smaller. -/

/-- The sizes of nodes, added up. -/
noncomputable def totalSize : List Node → Nat
  | [] => 0
  | n :: ns => sizeOf n + totalSize ns

@[simp] theorem totalSize_nil : totalSize [] = 0 := rfl

@[simp] theorem totalSize_cons (n : Node) (ns : List Node) :
    totalSize (n :: ns) = sizeOf n + totalSize ns := rfl

@[simp] theorem totalSize_append (ns ms : List Node) :
    totalSize (ns ++ ms) = totalSize ns + totalSize ms := by
  induction ns with
  | nil => simp
  | cons n ns ih => simp [ih, Nat.add_assoc]

theorem totalSize_le (ns : List Node) : totalSize ns ≤ sizeOf ns := by
  induction ns with
  | nil => simp
  | cons n ns ih => simpa using by omega

theorem totalSize_toList (n : Option Node) : totalSize n.toList < sizeOf n := by
  cases n <;> simp

/-- Parts with a type of their own are no smaller than the nodes they stand for. -/
theorem totalSize_map {α : Type} [SizeOf α] (make : α → Node)
    (h : ∀ a, sizeOf (make a) ≤ 1 + sizeOf a) (as : List α) :
    totalSize (as.map make) ≤ sizeOf as := by
  induction as with
  | nil => simp
  | cons a as ih =>
    have := h a
    simp
    omega

theorem totalSize_guards (gs : Option (List Node)) : totalSize (gs.getD []) < sizeOf gs := by
  cases gs with
  | none => simp
  | some gs =>
    have := totalSize_le gs
    simp
    omega

theorem totalSize_body (b : Option Block) : totalSize (b.toList.map Node.block) ≤ sizeOf b := by
  cases b <;> simp

theorem two_le_sizeOf_mark (m : Mark) : 2 ≤ sizeOf m := by
  obtain ⟨id, loc⟩ := m
  cases loc
  simp
  omega

/-- The children of a node are together smaller than the node. -/
theorem Node.totalSize_children (n : Node) : totalSize n.children < sizeOf n := by
  have hmark := two_le_sizeOf_mark
  have hfields := totalSize_map Node.field (by simp)
  have hidents := totalSize_map Node.ident (by simp)
  have hclauses := totalSize_map Node.clause (by simp)
  have himports := totalSize_map Node.importSpec (by simp)
  have hlist := totalSize_le
  have hoption := totalSize_toList
  cases n with
  | funcType type | field type | block type | clause type =>
    obtain ⟨m, _⟩ := type
    simp [children]
    grind [totalSize_guards]
  | funcDecl m name type body =>
    have hbody := totalSize_body body
    simp [children]
    grind
  | _ => simp [children] <;> grind

/-! ## The walk -/

/-- A node met on a walk, with the nodes above it, innermost first. -/
structure Visit where
  node : Node
  above : List Node

/-- All nodes on the stack and everything below them: a node is taken off, and its children take its
place. -/
def preorderAll : List Node → List Node
  | [] => []
  | n :: ns => n :: preorderAll (n.children ++ ns)
termination_by ns => totalSize ns
decreasing_by
  have := n.totalSize_children
  rw [totalSize_append, totalSize]
  omega

/-- The same with the nodes above.  All nodes are gone through, and a visit is made of those to
keep. -/
def Visit.unfold (keep : Node → Bool) (stack : List Visit) : List Visit :=
  match stack with
  | [] => []
  | v :: stack =>
    (if keep v.node then [v] else []) ++
      unfold keep (v.node.children.map (⟨·, v.node :: v.above⟩) ++ stack)
termination_by totalSize (stack.map Visit.node)
decreasing_by
  have hnodes :
      (v.node.children.map (⟨·, v.node :: v.above⟩ : Node → Visit)).map Visit.node =
      v.node.children := by
    rw [List.map_map]
    exact List.map_id _
  have := v.node.totalSize_children
  rw [List.map_append, totalSize_append, hnodes, List.map_cons, totalSize]
  omega

namespace Node

/-- All nodes of a tree, in pre-order. -/
def preorder (root : Node) : List Node := preorderAll [root]

/-- The visits of the walk from a node, to all nodes or to those of some kinds. -/
def walk (root : Node) (keep : Node → Bool := fun _ => true) : List Visit :=
  Visit.unfold keep [⟨root, []⟩]

/-- All functions of a tree, in pre-order. -/
def functions (root : Node) : List Node := root.preorder.filter isFunction

/-- The innermost function among the nodes above one. -/
def enclosingFunction (above : List Node) : Option Node := above.find? isFunction

end Node

/-! ## Numbering -/

/-- Takes the next number for a mark. -/
def Mark.numbered (m : Mark) : StateM Nat Mark := fun n => ({ m with id := n }, n + 1)

def Ident.numbered (i : Ident) : StateM Nat Ident := do
  return { i with mark := ← i.mark.numbered }

def Import.numbered (i : Import) : StateM Nat Import := do
  return { i with mark := ← i.mark.numbered }

/-- Numbers identifiers from left to right. -/
def Ident.numberAll : List Ident → StateM Nat (List Ident)
  | [] => return []
  | i :: is => do return (← i.numbered) :: (← numberAll is)

/-- Numbers imports from left to right. -/
def Import.numberAll : List Import → StateM Nat (List Import)
  | [] => return []
  | i :: is => do return (← i.numbered) :: (← numberAll is)

mutual

/-- Numbers a node and everything below it, in pre-order. -/
def Node.numbered : Node → StateM Nat Node
  | .ident i => do return .ident (← i.numbered)
  | .literal m kind value => do return .literal (← m.numbered) kind value
  | .composite m type elements => do
    return .composite (← m.numbered) (← numberOption type) (← numberNodes elements)
  | .keyed m key value => do return .keyed (← m.numbered) (← key.numbered) (← value.numbered)
  | .select m base name => do return .select (← m.numbered) (← base.numbered) (← name.numbered)
  | .star m x => do return .star (← m.numbered) (← x.numbered)
  | .unary m op x => do return .unary (← m.numbered) op (← x.numbered)
  | .binary m x op y => do return .binary (← m.numbered) (← x.numbered) op (← y.numbered)
  | .paren m x => do return .paren (← m.numbered) (← x.numbered)
  | .call m fn args => do return .call (← m.numbered) (← fn.numbered) (← numberNodes args)
  | .index m x i => do return .index (← m.numbered) (← x.numbered) (← i.numbered)
  | .funcLit m type body => do return .funcLit (← m.numbered) (← type.numbered) (← body.numbered)
  | .arrayType m length elem => do
    return .arrayType (← m.numbered) (← numberOption length) (← elem.numbered)
  | .structType m fields => do return .structType (← m.numbered) (← numberFields fields)
  | .funcType type => do return .funcType (← type.numbered)
  | .field field => do return .field (← field.numbered)
  | .assign m targets op values => do
    return .assign (← m.numbered) (← numberNodes targets) op (← numberNodes values)
  | .varSpec m names type values => do
    return .varSpec (← m.numbered) (← Ident.numberAll names) (← numberOption type)
      (← numberNodes values)
  | .exprStmt m x => do return .exprStmt (← m.numbered) (← x.numbered)
  | .incDec m x op => do return .incDec (← m.numbered) (← x.numbered) op
  | .ret m results => do return .ret (← m.numbered) (← numberNodes results)
  | .branch m word => do return .branch (← m.numbered) word
  | .block block => do return .block (← block.numbered)
  | .ifStmt m init cond body orElse => do
    return .ifStmt (← m.numbered) (← numberOption init) (← cond.numbered) (← body.numbered)
      (← numberOption orElse)
  | .forStmt m init cond post body => do
    return .forStmt (← m.numbered) (← numberOption init) (← numberOption cond) (← numberOption post)
      (← body.numbered)
  | .rangeStmt m key value op x body => do
    return .rangeStmt (← m.numbered) (← numberOption key) (← numberOption value) op (← x.numbered)
      (← body.numbered)
  | .clause clause => do return .clause (← clause.numbered)
  | .switch m init tag clauses => do
    return .switch (← m.numbered) (← numberOption init) (← numberOption tag)
      (← numberClauses clauses)
  | .importSpec spec => do return .importSpec (← spec.numbered)
  | .typeDecl m name type isAlias => do
    return .typeDecl (← m.numbered) (← name.numbered) (← type.numbered) isAlias
  | .funcDecl m name type body => do
    return .funcDecl (← m.numbered) (← name.numbered) (← type.numbered) (← numberBody body)
  | .file m package imports decls => do
    return .file (← m.numbered) (← package.numbered)
      (← Import.numberAll imports) (← numberNodes decls)

def Field.numbered : Field → StateM Nat Field
  | .mk m names type => do return .mk (← m.numbered) (← Ident.numberAll names) (← type.numbered)

def FuncType.numbered : FuncType → StateM Nat FuncType
  | .mk m params results => do
    return .mk (← m.numbered) (← numberFields params) (← numberFields results)

def Block.numbered : Block → StateM Nat Block
  | .mk m stmts => do return .mk (← m.numbered) (← numberNodes stmts)

def Clause.numbered : Clause → StateM Nat Clause
  | .mk m guards body => do return .mk (← m.numbered) (← numberGuards guards) (← numberNodes body)

def numberNodes : List Node → StateM Nat (List Node)
  | [] => return []
  | n :: ns => do return (← n.numbered) :: (← numberNodes ns)

def numberOption : Option Node → StateM Nat (Option Node)
  | none => return none
  | some n => do return some (← n.numbered)

def numberFields : List Field → StateM Nat (List Field)
  | [] => return []
  | f :: fs => do return (← f.numbered) :: (← numberFields fs)

def numberClauses : List Clause → StateM Nat (List Clause)
  | [] => return []
  | c :: cs => do return (← c.numbered) :: (← numberClauses cs)

def numberGuards : Option (List Node) → StateM Nat (Option (List Node))
  | none => return none
  | some ns => do return some (← numberNodes ns)

def numberBody : Option Block → StateM Nat (Option Block)
  | none => return none
  | some b => do return some (← b.numbered)

end

/-- The tree with each node numbered by its position in the walk from the root. -/
def File.numbered (f : File) : File :=
  let work : StateM Nat File := do
    return ⟨← f.mark.numbered, ← f.package.numbered, ← Import.numberAll f.imports,
      ← numberNodes f.decls⟩
  (work.run 0).1

end Recast
