import Recast.Proofs.Flow.Behaviour
import Recast.Proofs.Syntax.Numbering

/-!
# Straight code

In code without branches there is only one execution.  `Straight stmts ts e` says that the
statements are such code, that `ts` are the nodes that run and that they end with `e`; what stands
behind a return does not run.  `Straight.begins_iff` is what makes that definition right.
-/

namespace Recast.Flow

open List
open Behaviour

/-- The body of a function is one of its children. -/
lemma block_mem_children {fn : Node} {body : Block} (h : fn.functionBody = some body) :
    .block body ∈ fn.children := by
  cases fn with
  | funcLit m type b =>
    obtain rfl : b = body := Option.some.inj h
    simp [Node.children]
  | funcDecl m name type b =>
    obtain rfl : b = some body := h
    simp [Node.children]
  | _ => cases h

/-- A statement that does nothing but run. -/
def Simple : Node → Prop
  | .block _ => False
  | .ret _ _ => False
  | .branch _ _ => False
  | .ifStmt _ _ _ _ _ => False
  | .forStmt _ _ _ _ _ => False
  | .rangeStmt _ _ _ _ _ _ => False
  | .switch _ _ _ _ => False
  | _ => True

/-- **Straight code.**  Statements without branches, the nodes that run, and how they end. -/
inductive Straight : List Node → List Node → Ending → Prop where
  | nil : Straight [] [] .through
  | simple {n ns ts e} : Simple n → Straight ns ts e → Straight (n :: ns) (n :: ts) e
  | ret {m results ns} : Straight (.ret m results :: ns) [.ret m results] .halted
  | block {m stmts ns ts ts' e} : Straight stmts ts .through → Straight ns ts' e →
      Straight (.block (.mk m stmts) :: ns) (ts ++ ts') e
  | dead {m stmts ns ts} : Straight stmts ts .halted →
      Straight (.block (.mk m stmts) :: ns) ts .halted

lemma ofStmt_of_simple {n : Node} (h : Simple n) : ofStmt n = emit n := by
  rw [ofStmt]
  all_goals
    intros
    subst_vars
    exact h

/-- A behaviour with one execution: it goes through `ts` and ends with `e`. -/
def Line (B : Behaviour) (ts : List Node) (e : Ending) : Prop :=
  ∀ t e', B t e' ↔ t <+: ts ∧ e' = .running ∨ t = ts ∧ e' = e

lemma line_stop (e : Ending) : Line (stop e) [] e := by
  intro t e'
  rw [prefix_nil, stop]
  constructor
  · rintro ⟨rfl, rfl | rfl⟩
    · exact Or.inr ⟨rfl, rfl⟩
    · exact Or.inl ⟨rfl, rfl⟩
  · rintro (⟨rfl, rfl⟩ | ⟨rfl, rfl⟩)
    · exact ⟨rfl, Or.inr rfl⟩
    · exact ⟨rfl, Or.inl rfl⟩

variable {A B : Behaviour} {ts ts' : List Node} {e : Ending}

lemma Line.emit {n : Node} (h : Line B ts e) : Line ((emit n).seq B) (n :: ts) e := by
  intro t e'
  constructor
  · rintro (⟨⟨rfl, rfl⟩ | ⟨rfl, rfl⟩, he⟩ | ⟨u, v, rfl, ⟨-, hu⟩ | ⟨rfl, -⟩, hv⟩)
    · exact Or.inl ⟨ nil_prefix, rfl⟩
    · exact absurd rfl he
    · cases hu
    · rcases (h v e').mp hv with ⟨hbegin, rfl⟩ | ⟨rfl, rfl⟩
      · exact Or.inl ⟨(prefix_cons_inj n).mpr hbegin, rfl⟩
      · exact Or.inr ⟨rfl, rfl⟩
  · rintro (⟨hbegin, rfl⟩ | ⟨rfl, rfl⟩)
    · rcases prefix_cons_iff.mp hbegin with rfl | ⟨v, rfl, hv⟩
      · exact Or.inl ⟨Or.inl ⟨rfl, rfl⟩, by decide⟩
      · exact Or.inr ⟨[n], v, rfl, Or.inr ⟨rfl, rfl⟩, (h v _).mpr (Or.inl ⟨hv, rfl⟩)⟩
    · exact Or.inr ⟨[n], ts, rfl, Or.inr ⟨rfl, rfl⟩, (h ts _).mpr (Or.inr ⟨rfl, rfl⟩)⟩

lemma Line.seq (hA : Line A ts .through) (hB : Line B ts' e) : Line (A.seq B) (ts ++ ts') e := by
  intro t e'
  constructor
  · rintro (⟨ht, he⟩ | ⟨u, v, rfl, hu, hv⟩)
    · rcases (hA t e').mp ht with ⟨hbegin, rfl⟩ | ⟨rfl, rfl⟩
      · exact Or.inl ⟨hbegin.trans (prefix_append ts ts'), rfl⟩
      · exact absurd rfl he
    · rcases (hA u _).mp hu with ⟨-, hrun⟩ | ⟨rfl, -⟩
      · cases hrun
      · rcases (hB v e').mp hv with ⟨hbegin, rfl⟩ | ⟨rfl, rfl⟩
        · exact Or.inl ⟨(prefix_append_right_inj u).mpr hbegin, rfl⟩
        · exact Or.inr ⟨rfl, rfl⟩
  · rintro (⟨hbegin, rfl⟩ | ⟨rfl, rfl⟩)
    · rcases prefix_or_prefix_of_prefix hbegin (prefix_append ts ts') with hle | ⟨v, rfl⟩
      · exact Or.inl ⟨(hA t _).mpr (Or.inl ⟨hle, rfl⟩), by decide⟩
      · have hv : v <+: ts' := (prefix_append_right_inj ts).mp hbegin
        exact Or.inr
          ⟨ts, v, rfl, (hA ts _).mpr (Or.inr ⟨rfl, rfl⟩), (hB v _).mpr (Or.inl ⟨hv, rfl⟩)⟩
    · exact Or.inr
        ⟨ts, ts', rfl, (hA ts _).mpr (Or.inr ⟨rfl, rfl⟩), (hB ts' _).mpr (Or.inr ⟨rfl, rfl⟩)⟩

/-- What never comes to its end is not followed by anything. -/
lemma Line.dead (hA : Line A ts .halted) : Line (A.seq B) ts .halted := by
  intro t e'
  rw [← hA t e']
  constructor
  · rintro (⟨ht, -⟩ | ⟨u, v, rfl, hu, hv⟩)
    · exact ht
    · rcases (hA u _).mp hu with ⟨-, h⟩ | ⟨-, h⟩
      · cases h
      · cases h
  · intro ht
    refine Or.inl ⟨ht, ?_⟩
    rintro rfl
    rcases (hA t _).mp ht with ⟨-, h⟩ | ⟨-, h⟩
    · cases h
    · cases h

/-- Straight code has one execution. -/
lemma Straight.line {stmts : List Node} (h : Straight stmts ts e) : Line (ofStmts stmts) ts e := by
  induction h with
  | nil =>
    rw [ofStmts]
    exact line_stop _
  | simple hn _ ih =>
    rw [ofStmts, ofStmt_of_simple hn]
    exact ih.emit
  | ret =>
    rw [ofStmts, ofStmt]
    exact (line_stop _).emit.dead
  | block _ _ ih ih' =>
    rw [ofStmts, ofStmt]
    exact ih.seq ih'
  | dead _ ih =>
    rw [ofStmts, ofStmt]
    exact ih.dead

/-- The executions of straight code begin with the first nodes that run. -/
lemma Straight.begins_iff {fn : Node} {m : Mark} {stmts : List Node}
    (hbody : fn.functionBody = some (.mk m stmts))
    (h : Straight stmts ts e) (t : List Node) : Begins fn t ↔ t <+: ts := by
  have hline : Line (Behaviour.ofFunction fn) ts e := by
    rw [Behaviour.ofFunction, hbody]
    exact h.line
  constructor
  · rintro ⟨e', he⟩
    rcases (hline t e').mp he with ⟨hbegin, -⟩ | ⟨rfl, -⟩
    · exact hbegin
    · exact prefix_refl _
  · intro hbegin
    exact ⟨.running, (hline t _).mpr (Or.inl ⟨hbegin, rfl⟩)⟩

/-- The nodes that run stand in the code in this order. -/
lemma Straight.sublist {stmts : List Node} (h : Straight stmts ts e) :
    ts.Sublist (preorderAll stmts) := by
  induction h with
  | nil => exact nil_sublist _
  | simple _ _ ih =>
    rw [preorderAll, preorderAll_append]
    exact (ih.trans (sublist_append_right _ _)).cons_cons _
  | ret =>
    rw [preorderAll]
    exact (nil_sublist _).cons_cons _
  | block _ _ ih ih' =>
    rw [preorderAll, preorderAll_append]
    exact (ih.append ih').cons _
  | dead _ ih =>
    rw [preorderAll, preorderAll_append]
    exact (ih.trans (sublist_append_left _ _)).cons _

/-- In a numbered tree, no node runs twice in straight code. -/
lemma Straight.nodup {f : File} {fn : Node} {m : Mark} {stmts : List Node}
    (hfn : fn ∈ f.numbered.node.preorder)
    (hbody : fn.functionBody = some (.mk m stmts)) (h : Straight stmts ts e) : ts.Nodup := by
  have hblock := Node.mem_preorder_of_child hfn (block_mem_children hbody)
  have hsub : ts.Sublist f.numbered.node.preorder := by
    rw [Node.preorder_eq] at hblock ⊢
    exact h.sublist.trans ((sublist_cons_self _ _).trans (sublist_preorderAll hblock))
  exact hsub.nodup (Nodup.of_map _ f.nodup_map_id_preorder)

end Recast.Flow
