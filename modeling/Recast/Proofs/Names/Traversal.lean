import Recast.Proofs.Names.Occurrences

/-!
# The resolver reads its words

Expressions, types and statements: the resolver reads the word of every node.  It visits the node,
and each step of a visit reads what the visit says.

* `Visits.reads` — what is visited is read.
-/

namespace Recast.Lexical

open List
open Resolve hiding bind

variable {α : Type} {strict : Prop} {own : List Nat} {literal : Option (Nat × Ty)}
  {s scope : Scope} {ns : List Node}
  {w : List Event} {x : (Nat → Resolve Ty) → Resolve α} {after : Option (α → Scope)}
  {bg : Background} {cond : Prop}

/-- A visit concerns the innermost scope only. -/
lemma Visits.stays (h : Visits strict own literal s ns w x after) : Stays w := by
  induction h with
  | still | mark | length | field => exact keeps_nil.stays
  | define i => exact stays_declare i
  | target i => exact stays_define i
  | use i => exact (keeps_use i).stays
  | member m i name => exact (keeps_exprWord (.select m (.ident i) name)).stays
  | key => exact Keeps.stays fun _ => rfl
  | composite _ _ iht ihx => exact iht.append (ihx .invalid)
  | node _ _ _ ih | signed _ _ ih | whole _ _ _ ih | more _ _ ih | forget _ ih => exact ih
  | @bind _ _ _ _ _ _ _ _ _ x _ _ _ _ _ ihx ihf =>
    exact ihx.append (ihf ((x fun _ => pure .invalid).run { file := "" }).1)
  | bracketed _ _ ih => exact ih.bracketed.stays

/-- What was foretold about the literal in which a visit is, if it is in one. -/
def Background.AgreesAt (bg : Background) : Option (Nat × Ty) → Prop
  | none => True
  | some (l, u) => bg.Agrees l u

/-- A visit that gives a scope to go on with shows the environment in it. -/
def Visited : Option (α → Scope) → Env → Info → α → Prop
  | some out => Showing out
  | none => fun _ _ _ => True

section

variable {T : List Nat} {y : Resolve α} {out : α → Scope} {post : Env → Info → α → Prop}

/-- A computation that always gives the same scope. -/
lemma Reads.giving (hy : Reads bg cond s T w y (Showing fun _ => scope))
    (hout : ∀ r, out (y.run r).1 = scope) :
    Reads bg cond s T w y (Showing out) where
  ids := hy.ids
  step σ r hclear hready hs := by
    obtain ⟨hstep, hs'⟩ := hy.step σ r hclear hready hs
    refine ⟨hstep, ?_⟩
    rw [Showing, hout]
    exact hs'

lemma Reads.forget (hy : Reads bg cond s T w y post) : Reads bg cond s T w y fun _ _ _ => True :=
  ⟨hy.ids, fun σ r hclear hready hs => ⟨(hy.step σ r hclear hready hs).1, trivial⟩⟩

end

lemma count_ids_perm {ms : List Node} (h : ns.Perm ms) (k : Nat) :
    (ids ns).count k = (ids ms).count k :=
  (ids_perm h).count_eq k

lemma ids_ident (i : Ident) : ids [.ident i] = [i.mark.id] := by
  rw [ids_cons, Node.children, ids_nil]
  rfl

/-- To record a type concerns the node only, even if it is recorded twice. -/
lemma records_record (n : Node) (t : Ty) : Records [n.id] (record n t) := by
  cases n with
  | funcType type =>
    exact ((records_typed type.mark t).bind fun t => records_typed type.mark t).mono
      (by simp [Node.id, Node.mark])
  | _ => exact records_typed _ t

/-- On the left of `:=`, where a blank defines nothing. -/
lemma reads_target (i : Ident) (t : Ty) : Reads bg cond s [i.mark.id] [unlessBlank .define i]
    (if i.name == "_" then pure s else defineOrReuse i t s) (Showing id) := by
  rw [unlessBlank]
  split
  · refine ((silent_pure s).records.mono (by simp)).reads (ids_of_singleton rfl) ?_
    intro σ r _ hready hs
    exact ⟨fun _ => ⟨hready.bindingOf? mem_cons_self, trivial⟩, hs⟩
  · rename_i hi
    exact reads_defineOrReuse hi t

/-- **Literals.**  By the time a literal has its type, what was foretold about it is known to fit
its elements. -/
lemma reads_composite {m : Mark} {T U : List Nat} {v : List Event} {t : Resolve Ty}
    {y : Ty → Resolve Unit} (ht : Reads bg True s T w t (Showing fun _ => s))
    (hy : ∀ u, Reads bg (bg.Agrees m.id u) s U v (y u) (Showing fun _ => s)) :
    Reads bg cond s (T ++ (U ++ [m.id])) (w ++ v) (do
      let t ← t
      y (t.underlying (← underlyings))
      typed m t) (Showing fun _ => s) where
  ids e he k hk := by
    rcases mem_append.mp he with he | he
    · exact mem_append_left _ (ht.ids e he k hk)
    · exact mem_append_right _ (mem_append_left _ ((hy .invalid).ids e he k hk))
  step σ r hclear hready hs := by
    obtain ⟨hstep, hs'⟩ := ht.step σ r hclear.left hready.left hs
    rw [run_bind]
    generalize t.run r = p at hstep hs' ⊢
    obtain ⟨t, r'⟩ := p
    have hrest : Reads bg (bg.Agrees m.id (t.underlying r'.info.underlying)) s (U ++ [m.id]) _ _
        (Showing fun _ => s) := (hy _).finish (fun _ => records_typed m t) fun _ _ => rfl
    obtain ⟨hstep', hs''⟩ :=
      hrest.step (σ.run w) r' (hclear.behind ht.ids) (hready.right hclear hstep) hs'
    rw [Env.run_append]
    refine ⟨?_, hs''⟩
    have hboth := (hstep.under fun _ => trivial).trans hstep' hclear (hclear.late ht.ids)
    refine ⟨hboth.changes, hboth.inv, fun _ hforetold => hboth.holds ?_ hforetold⟩
    by_cases hnone : bg.isStruct? m.id = none
    · exact Or.inl hnone
    · rw [hready.fixed m.id (by simp) hnone r' hstep.inv]
      refine hforetold m.id (by simp) t ?_
      show (Table.insert _ m.id t).find? m.id = some t
      rw [Table.find?_insert, if_pos rfl]

/-- **What is visited is read.** -/
lemma Visits.reads (bg : Background) (h : Visits strict own literal s ns w x after) :
    Reads bg (bg.AgreesAt literal) s (ids ns) w (x bg.complete) (Visited after) := by
  induction h with
  | still h hout =>
    rw [ids_nil]
    exact h.silent.reads.giving hout
  | mark =>
    rw [ids_nil]
    exact (silent_denotesType _).reads
  | length =>
    rw [ids_nil]
    exact (records_arrayLength _).readsNothing
  | define i t =>
    rw [ids_ident]
    exact reads_define i t
  | target i t =>
    rw [ids_ident]
    exact reads_target i t
  | field m t name =>
    rw [ids_ident]
    exact (records_fieldType m t name).readsNothing
  | use i =>
    rw [ids_ident]
    exact reads_ident i
  | member m i name expected =>
    exact (reads_selectIdent m i name expected).mono (by grind [Node.children, Node.id, Node.mark])
  | key m key =>
    rw [ids_ident]
    exact reads_keyIdent _ m _ key
  | composite _ _ iht ihx =>
    exact (reads_composite iht ihx).mono (by grind [Node.children, Node.id, Node.mark])
  | node _ hparts _ ih =>
    refine (ih.finish (fun t => records_record _ t) fun _ _ => rfl).mono fun k => ?_
    rw [ids_cons, ids_nil, count_append, count_ids_perm hparts]
    grind
  | signed _ hparts ih =>
    refine (ih.finish (fun p => (records_typed _ p.1).bind fun _ => (silent_pure _).records)
      fun _ _ => rfl).mono fun k => ?_
    rw [ids_cons, ids_nil, count_append, count_ids_perm hparts]
    grind [Node.id, Node.mark, FuncType.mark]
  | whole _ hparts _ ih =>
    refine ih.mono fun k => ?_
    rw [ids_cons, ids_nil, count_ids_perm hparts]
    grind
  | more _ _ ih => exact ih.mono (by grind)
  | bind _ _ ihx ihf =>
    rw [ids_append]
    exact ihx.bind ihf
  | forget _ ih => exact ih.forget
  | bracketed hx hout ih => exact (ih.bracketed hx.stays).giving (hout bg.complete)

/-! ## Expressions and statements -/

variable {expected : Option Ty}

lemma readsExpr (bg : Background) (n : Node) (scope : Scope) (expected : Option Ty) :
    Reads bg True scope (ids [n]) (exprWord n) (expr bg.complete scope expected n)
      (Showing fun _ => scope) := by
  have h : Visits False [] none scope _ _ _ _ := visits_expr n nofun scope expected
  exact h.reads bg

lemma readsExprs (bg : Background) (ns : List Node) (scope : Scope) (expected : Option Ty) :
    Reads bg True scope (ids ns) (exprsWord ns) (exprs bg.complete scope expected ns)
      (Showing fun _ => scope) := by
  have h : Visits False [] none scope _ _ _ _ := visits_exprs ns (fun _ _ => nofun) scope expected
  exact h.reads bg

lemma readsSignature (bg : Background) (type : FuncType) (scope : Scope) :
    Reads bg True scope (ids [.funcType type]) (signatureWord type)
      (signature bg.complete scope type) (Showing Prod.snd) := by
  have h : Visits False [] none scope _ _ _ _ := visits_signature type nofun scope
  exact h.reads bg

lemma readsStmt (bg : Background) (n : Node) (scope : Scope) :
    Reads bg True scope (ids [n]) (stmtWord n) (stmt bg.complete scope n) (Showing id) := by
  have h : Visits False [] none scope _ _ _ _ := visits_stmt n nofun scope
  exact h.reads bg

lemma readsStmts (bg : Background) (ns : List Node) (scope : Scope) :
    Reads bg True scope (ids ns) (stmtsWord ns) (stmts bg.complete scope ns) (Showing id) := by
  have h : Visits False [] none scope _ _ _ _ := visits_stmts ns (fun _ _ => nofun) scope
  exact h.reads bg

/-- The statements of a block, in the scope that belongs to it. -/
lemma readsBlock (bg : Background) (bm : Mark) (ns : List Node) (scope : Scope) :
    Reads bg True scope (ids ns) (stmtsWord ns) (blockStmts bg.complete scope (.mk bm ns))
      fun _ _ _ => True := by
  have h := (readsStmts bg ns scope).close fun _ => (silent_pure ()).records
  rwa [append_nil] at h

end Recast.Lexical
