import Recast.Proofs.Lockstep.Steps
import Recast.Proofs.Names.Traversal

/-!
# Trees in step

Expressions, types and statements: a tree and the relabeled tree are resolved in step.  Each kind of
node has a rule that follows what the resolver does with it, and the induction at the end follows
the tree.
-/

namespace Recast.Lockstep

open List
open Resolve hiding bind
open Ty (Alike Matching Matches)

attribute [local simp] expr stmt Node.relabel Ident.relabel

attribute [local grind =] Node.children Node.ident?

variable {L : Link} {C : Completion} {m bm : Mark} {x y n : Node}
  {ns targets values : List Node} [hL : L.Lawful]

/-- An expression and the relabeled one are resolved in step. -/
def SimExpr (L : Link) (C : Completion) (n : Node) : Prop :=
  L.Knows [n] → ∀ {p : Prop} {inner : Bool} {s s' : Scope} {expected expected' : Option Ty},
    (p → L.scopes inner s s') → (p → Option.Rel (Alike L.matching) expected expected') →
    Sim L p (identifiers [n]) (expr C.complete s expected n)
      (expr C.complete' s' expected' (n.relabel L.labels)) (Alike L.matching)

/-- Expressions are resolved in step. -/
def SimExprs (L : Link) (C : Completion) (ns : List Node) : Prop :=
  L.Knows ns → ∀ {p : Prop} {inner : Bool} {s s' : Scope} {expected expected' : Option Ty},
    (p → L.scopes inner s s') → (p → Option.Rel (Alike L.matching) expected expected') →
    Sim L p (identifiers ns) (exprs C.complete s expected ns)
      (exprs C.complete' s' expected' (relabelAll L.labels ns)) (Forall₂ (Alike L.matching))

/-- A statement is resolved in step. -/
def SimStmt (L : Link) (C : Completion) (n : Node) : Prop :=
  L.Knows [n] → ∀ {p : Prop} {s s' : Scope}, (p → L.scopes true s s') →
    Sim L p (identifiers [n]) (stmt C.complete s n) (stmt C.complete' s' (n.relabel L.labels))
      (L.scopes true)

omit hL in
/-- Where there is no tree, nothing is done. -/
lemma sim_nothing {α α' : Type} {p : Prop} {a : α} {a' : α'}
    {post : α → α' → Prop} (h : p → post a a') :
    Sim L p (identifiers []) (pure a) (pure a') post := by
  rw [identifiers_nil]
  exact sim_pure h

/-! ## Expressions -/

/-- **Every expression gets its type** when it is resolved. -/
lemma find?_types_expr (complete : Nat → Resolve Ty) (s : Scope) (expected : Option Ty)
    (n : Node) (r : Resolver) :
    ((expr complete s expected n).run r).2.info.types.find? n.id =
      some ((expr complete s expected n).run r).1 := by
  have htyped : ∀ (m : Mark) (t : Ty) (r : Resolver),
      ((typed m t).run r).2.info.types.find? m.id = some ((typed m t).run r).1 :=
    fun m t r => (Table.find?_insert ..).trans (if_pos rfl)
  rw [expr_eq]
  cases n with
  | _ => exact htyped _ _ _

omit hL in
/-- What an expression is resolved to suits it. -/
lemma SimExpr.suited (hx : SimExpr L C x) (hk : L.Knows [x]) {p : Prop}
    {inner : Bool} {s s' : Scope} {expected expected' : Option Ty} (hs : p → L.scopes inner s s')
    (hexpected : p → Option.Rel (Alike L.matching) expected expected') :
    Sim L p (identifiers [x]) (expr C.complete s expected x)
      (expr C.complete' s' expected' (x.relabel L.labels))
      fun t t' => Alike L.matching t t' ∧ (L.tree x → x.Suits L.labels t) :=
  (hx hk hs hexpected).learn fun r _ hagree htree => hagree.suits htree (find?_types_expr _ _ _ x r)

lemma simExpr_ident [L.Completes C] (i : Ident) : SimExpr L C (.ident i) := by
  intro hk p inner s s' expected expected' hs _
  exact (sim_exprIdent hk.name hs).mono (by grind)

lemma simExpr_literal (kind : LiteralKind) (value : String) :
    SimExpr L C (.literal m kind value) := by
  intro hk p inner s s' expected expected' _ _
  have hm : L.Free m.id := hk.self.free rfl
  refine Sim.mono (T := []) ?_ (by simp)
  cases kind with
  | _ => exact sim_typed hm fun _ => .basic _

lemma simExpr_select [L.Completes C] {name : Ident} (hx : SimExpr L C x) :
    SimExpr L C (.select m x name) := by
  intro hk p inner s s' expected expected' hs _
  have hc : L.Knows [x] := hk.operands
  cases x with
  | ident i => exact (sim_selectIdent hk.self hc.name hk.selected hs).mono (by grind)
  | _ =>
    exact (sim_typeOfField (hk.self.free rfl) hk.selected (hx hc hs fun _ => .none)).mono (by grind)

lemma simExpr_star (hx : SimExpr L C x) : SimExpr L C (.star m x) := by
  intro hk p inner s s' expected expected' hs _
  have hm := hk.self
  have hc : L.Knows [x] := hk.operands
  have htree : L.tree (.star m x) → L.tree x := fun h => hL.child h mem_cons_self
  rw [Node.relabel, expr, expr]
  refine Sim.mono
    ((hx.suited hc hs fun _ => .none).close fun t t' => (sim_isType hc.self.knows).after fun b b' =>
    sim_ite_of (fun hp => by rw [hp.2.1]) ?_ ?_) (by grind)
  · refine (sim_denotesType (m := m) hm.knows fun hp n hn hid => ?_).after fun _ _ =>
      (sim_pointerTo_plain fun hp => hp.1.1.1.2.1).after fun u u' =>
        sim_record hm.knows (fun hp n hn hid => ?_) fun hp => hp.2.1
    · obtain rfl := hm.only hn hid
      exact .star (hp.1.2.2 hp.2 (htree hn))
    · obtain rfl := hm.only hn hid
      exact (hp.1.1.1.1.2.2 (htree hn)).star hp.2.2
  · refine sim_underlyings.after fun env env' => sim_record hm.knows
      (fun hp n hn hid => ?_) fun hp => ?_
    · obtain rfl := hm.only hn hid
      exact (hp.1.1.2.2 (htree hn)).star Ty.Plain.of_pointee
    · exact Alike.getD (hp.1.1.2.1.pointee? hp.2) .invalid

lemma simExpr_unary {op : String} (hx : SimExpr L C x) : SimExpr L C (.unary m op x) := by
  intro hk p inner s s' expected expected' hs _
  have hm : L.Free m.id := hk.self.free rfl
  have hc : L.Knows [x] := hk.operands
  rw [Node.relabel, expr, expr]
  refine Sim.mono ((hx hc hs fun _ => .none).close fun t t' =>
    sim_ite (fun _ => Iff.rfl) ?_ (sim_ite (fun _ => Iff.rfl) ?_ ?_)) (by grind)
  · exact (sim_pointerTo fun hp => hp.2).after fun _ _ => sim_typed hm fun hp => hp.2
  · exact sim_typed hm fun hp => by rw [hp.2.isUntyped]; exact .basic _
  · exact sim_typed hm fun hp => hp.2

lemma simExpr_binary {op : String} (hx : SimExpr L C x) (hy : SimExpr L C y) :
    SimExpr L C (.binary m x op y) := by
  intro hk p inner s s' expected expected' hs _
  have hm : L.Free m.id := hk.self.free rfl
  have hc : L.Knows [x, y] := hk.operands
  rw [Node.relabel, expr, expr]
  refine Sim.mono ((hx hc.head hs fun _ => .none).bind fun t t' =>
    (hy hc.tail (fun hp => hs hp.1) fun _ => .none).close fun u u' =>
      sim_ite (fun _ => Iff.rfl) ?_ ?_) (by grind)
  · exact sim_typed hm fun _ => .basic _
  · refine sim_typed hm fun hp => ?_
    rw [hp.1.2.isUntyped]
    split
    · exact hp.2
    · exact hp.1.2

lemma simExpr_paren (hx : SimExpr L C x) : SimExpr L C (.paren m x) := by
  intro hk p inner s s' expected expected' hs hexpected
  have hm := hk.self
  have hc : L.Knows [x] := hk.operands
  have htree : L.tree (.paren m x) → L.tree x := fun h => hL.child h mem_cons_self
  have hsuits : ∀ {t}, (L.tree x → x.Suits L.labels t) → ∀ n, L.tree n → n.id = m.id →
      n.Suits L.labels t := by
    intro t h n hn hid
    obtain rfl := hm.only hn hid
    exact (h (htree hn)).paren
  rw [Node.relabel, expr, expr]
  refine Sim.mono
    ((hx.suited hc hs hexpected).close fun t t' => (sim_isType hc.self.knows).after fun b b' =>
    sim_ite_of (fun hp => by rw [hp.2.1]) ?_ ?_) (by grind)
  · refine (sim_denotesType (m := m) hm.knows fun hp n hn hid => ?_).after fun _ _ =>
      sim_record hm.knows (fun hp => hsuits hp.1.1.1.2.2) fun hp => hp.1.1.1.2.1
    obtain rfl := hm.only hn hid
    exact .paren (hp.1.2.2 hp.2 (htree hn))
  · exact sim_record hm.knows (fun hp => hsuits hp.1.2.2) fun hp => hp.1.2.1

lemma simExpr_call (hx : SimExpr L C x) (hs : SimExprs L C ns) : SimExpr L C (.call m x ns) := by
  intro hk p inner s s' expected expected' hscopes _
  have hm : L.Free m.id := hk.self.free rfl
  have hc : L.Knows (x :: ns) := hk.operands
  rw [Node.relabel, expr, expr]
  refine Sim.mono ((hx hc.head hscopes fun _ => .none).bind fun t t' =>
    (sim_isType hc.self.knows).after fun b b' =>
    sim_ite (T := identifiers ns) (fun hp => by rw [hp.2.1]) ?_ ?_) (by grind)
  · exact (hs hc.tail (fun hp => hscopes hp.1.1) fun hp => .some hp.1.2).close fun _ _ =>
      sim_typed hm fun hp => hp.1.1.2
  · exact (hs hc.tail (fun hp => hscopes hp.1.1) fun _ => .none).close fun ts ts' =>
      (sim_callType hc.head.ids (fun hp => hp.1.1.2) fun hp => hp.2).after fun _ _ =>
        sim_typed hm fun hp => hp.2

lemma simExpr_index (hx : SimExpr L C x) (hy : SimExpr L C y) : SimExpr L C (.index m x y) := by
  intro hk p inner s s' expected expected' hs _
  have hm : L.Free m.id := hk.self.free rfl
  have hc : L.Knows [x, y] := hk.operands
  rw [Node.relabel, expr, expr]
  refine Sim.mono ((hx hc.head hs fun _ => .none).bind fun t t' =>
    sim_underlyings.after fun env env' =>
      (hy hc.tail (fun hp => hs hp.1.1) fun _ => .none).close fun _ _ =>
        sim_underlyings.after fun env₁ env₁' => sim_typed hm fun hp => ?_) (by grind)
  exact ((hp.1.1.1.2.underlying hp.1.1.2).target hp.2).indexed

lemma simExpr_keyed (hx : SimExpr L C x) (hy : SimExpr L C y) : SimExpr L C (.keyed m x y) := by
  intro hk p inner s s' expected expected' hs hexpected
  have hm : L.Free m.id := hk.self.free rfl
  have hc : L.Knows [x, y] := hk.operands
  rw [Node.relabel, expr, expr]
  exact Sim.mono ((hx hc.head hs fun _ => .none).bind fun t t' =>
    (hy hc.tail (fun hp => hs hp.1) fun hp => hexpected hp.1).close fun _ _ =>
      sim_typed hm fun hp => hp.2) (by grind)

/-- What is no expression is reported on both sides. -/
lemma simExpr_other (hbare : n.isBare = true)
    (hn : ∀ complete s expected, expr complete s expected n = (do
      typed n.mark (← unresolved ("expression kind " ++ n.kind) n.loc)))
    (hn' : ∀ complete s expected, expr complete s expected (n.relabel L.labels) = (do
      typed (n.relabel L.labels).mark
        (← unresolved ("expression kind " ++ (n.relabel L.labels).kind)
          (n.relabel L.labels).loc))) :
    SimExpr L C n := by
  intro hk p inner s s' expected expected' _ _
  rw [hn, hn', Node.mark_relabel]
  exact Sim.mono ((sim_unresolved _ _ _ _).after fun _ _ => sim_typed (hk.self.free hbare)
    fun hp => hp.2) (by simp)

lemma simExprs_cons (hn : SimExpr L C n) (hs : SimExprs L C ns) : SimExprs L C (n :: ns) := by
  intro hk p inner s s' expected expected' hscopes hexpected
  exact Sim.mono ((hn hk.head hscopes hexpected).bind fun t t' =>
    (hs hk.tail (fun hp => hscopes hp.1) fun hp => hexpected hp.1).close fun ts ts' =>
      sim_pure fun hp => .cons hp.1.2 hp.2) (by grind)

/-! ## Literals -/

/-- The type of a literal is resolved in step. -/
def SimType (L : Link) (C : Completion) (o : Option Node) : Prop :=
  L.Knows o.toList → ∀ {p : Prop} {inner : Bool} {s s' : Scope} {expected expected' : Option Ty},
    (p → L.scopes inner s s') → (p → Option.Rel (Alike L.matching) expected expected') →
    Sim L p (identifiers o.toList) (literalType C.complete s expected o)
      (literalType C.complete' s' expected' (relabelOption L.labels o)) fun t t' =>
      Alike L.matching t t' ∧
        ((∀ n ∈ o, L.tree n) → t.Plain → spelledOption (relabelOption L.labels o) = spelledOption o)

lemma simType_none : SimType L C none := by
  intro _ p inner s s' expected expected' _ hexpected
  rw [Option.toList_none, identifiers_nil]
  exact sim_underlyings.after fun env env' =>
    sim_pure fun hp => ⟨Alike.elidedType hp.2 (hexpected hp.1), fun _ _ => rfl⟩

/-- **An expression in the place of a type** keeps its spelling if the type is plain. -/
lemma SimExpr.asDenoted (hx : SimExpr L C x) (hk : L.Knows [x]) {p : Prop}
    {inner : Bool} {s s' : Scope} (hs : p → L.scopes inner s s') :
    Sim L p (identifiers [x]) (expr C.complete s none x >>= asType x)
      (expr C.complete' s' none (x.relabel L.labels) >>= asType (x.relabel L.labels)) fun t t' =>
        Alike L.matching t t' ∧
        (L.tree x → t.Plain → (x.relabel L.labels).spelled = x.spelled) := by
  refine (hx.suited hk hs fun _ => .none).close fun t t' =>
    (sim_asDenoted hk.self.knows fun hp => hp.2.1).weaken fun hp u u' h =>
      ⟨h.1, fun htree hplain => ?_⟩
  obtain ⟨hdenotes, rfl⟩ := h.2 htree hplain.isInvalid_eq
  exact (hp.2.2 htree).spelled hdenotes hplain

lemma simType_some (hx : SimExpr L C x) : SimType L C (some x) := by
  intro hk p inner s s' expected expected' hs _
  exact (hx.asDenoted hk hs).weaken fun _ _ _ h => ⟨h.1, fun htree => h.2 (htree x rfl)⟩

/-- The elements of a literal are resolved in step. -/
def SimElements (L : Link) (C : Completion) (ns : List Node) : Prop :=
  L.Knows ns → ∀ {p : Prop} {inner : Bool} {s s' : Scope} {u u' : Ty} (i : Nat),
    (p → L.scopes inner s s') → (p → Alike L.matching u u') →
    Sim L p (identifiers ns) (elementTypes C.complete s u i ns)
      (elementTypes C.complete' s' u' i (relabelAll L.labels ns)) fun _ _ => True

/-- Any other key than a plain identifier is an expression, and so is any key unless the literal is
a struct. -/
lemma keyOf_expr (complete : Nat → Resolve Ty) (s : Scope) {u : Ty}
    (h : (∀ serial fields, u ≠ .struct serial fields) ∨ ∀ key, x ≠ .ident key) :
    Lexical.keyOf complete s m u x = (do
      let _ ← expr complete s none x
      pure (u.elem?.getD .invalid)) := by
  cases u with
  | struct serial fields =>
    cases x with
    | ident key => exact h.elim (fun h => absurd rfl (h serial fields)) fun h => absurd rfl (h key)
    | _ => rfl
  | _ => rfl

lemma sim_keyOf {p : Prop} {inner : Bool} {s s' : Scope} {u u' : Ty} (hk : L.Knows [x])
    (hx : SimExpr L C x) (hs : p → L.scopes inner s s') (hu : p → Alike L.matching u u') :
    Sim L p (identifiers [x]) (Lexical.keyOf C.complete s m u x)
      (Lexical.keyOf C.complete' s' (m.relabel L.labels) u' (x.relabel L.labels))
      (Alike L.matching) := by
  have hexpr : Sim L p (identifiers [x]) (do
      let _ ← expr C.complete s none x
      pure (u.elem?.getD .invalid)) (do
      let _ ← expr C.complete' s' none (x.relabel L.labels)
      pure (u'.elem?.getD .invalid)) (Alike L.matching) :=
    (hx hk hs fun _ => .none).close fun _ _ => sim_pure fun hp =>
      Alike.getD (hu hp.1).elem? .invalid
  by_cases hkey : ∃ key, x = .ident key
  · obtain ⟨key, rfl⟩ := hkey
    by_cases hstruct : ∃ serial fields, u = .struct serial fields
    · obtain ⟨serial, fields, rfl⟩ := hstruct
      refine Sim.congr ((sim_keyType hk.self hu).mono (by grind)) fun hp => ?_
      cases hu hp
      rfl
    · have hother : ∀ serial fields, u ≠ .struct serial fields :=
        fun serial fields heq => hstruct ⟨serial, fields, heq⟩
      rw [keyOf_expr _ _ (.inl hother)]
      refine Sim.congr hexpr fun hp => keyOf_expr _ _ (.inl ?_)
      rintro serial' fields' rfl
      cases hu hp
      exact hother _ _ rfl
  · have hother : ∀ key, x ≠ .ident key := fun key heq => hkey ⟨key, heq⟩
    have hother' : ∀ key, x.relabel L.labels ≠ .ident key := by
      cases x with
      | ident key => exact absurd rfl (hother key)
      | _ => exact fun _ => Node.noConfusion
    rw [keyOf_expr _ _ (.inr hother), keyOf_expr _ _ (.inr hother')]
    exact hexpr

/-- An element with a key. -/
lemma simElements_keyed (hx : SimExpr L C x) (hy : SimExpr L C y) (hs : SimElements L C ns) :
    SimElements L C (.keyed m x y :: ns) := by
  intro hk p inner s s' u u' i hscopes hu
  have hm : L.Free m.id := hk.self.free rfl
  have hc : L.Knows [x, y] := hk.operands
  rw [relabelAll, Node.relabel, Lexical.elementTypes_keyed, Lexical.elementTypes_keyed]
  exact Sim.mono ((sim_keyOf hc.head hx hscopes hu).bind fun t t' =>
    (hy hc.tail (fun hp => hscopes hp.1) fun hp => .some hp.2).bind fun v v' =>
      (sim_typed hm fun hp => hp.2).after fun _ _ =>
        hs hk.tail (i + 1) (fun hp => hscopes hp.1.1.1) fun hp => hu hp.1.1.1) (by grind)

/-- An element without a key. -/
lemma simElements_cons (hkeyed : ∀ m key value, n ≠ .keyed m key value) (hn : SimExpr L C n)
    (hs : SimElements L C ns) : SimElements L C (n :: ns) := by
  intro hk p inner s s' u u' i hscopes hu
  have hstep : Sim L p (identifiers (n :: ns)) (do
      let _ ← expr C.complete s (some (elementType u i)) n
      elementTypes C.complete s u (i + 1) ns) (do
      let _ ← expr C.complete' s' (some (elementType u' i)) (n.relabel L.labels)
      elementTypes C.complete' s' u' (i + 1) (relabelAll L.labels ns)) fun _ _ => True :=
    Sim.mono ((hn hk.head hscopes fun hp => .some ((hu hp).elementType i)).bind fun _ _ =>
      hs hk.tail (i + 1) (fun hp => hscopes hp.1) fun hp => hu hp.1) (by grind)
  cases n with
  | keyed m key value => exact absurd rfl (hkeyed m key value)
  | _ => exact hstep

lemma simExpr_composite {type : Option Node} (htype : SimType L C type)
    (helements : SimElements L C ns) :
    SimExpr L C (.composite m type ns) := by
  intro hk p inner s s' expected expected' hs hexpected
  have hm := hk.self
  have hc : L.Knows (type.toList ++ ns) := hk.operands
  rw [Node.relabel, expr, expr]
  refine Sim.mono
    ((htype hc.left hs hexpected).bind fun t t' => sim_underlyings.after fun env env' =>
    (helements hc.right 0 (fun hp => hs hp.1.1) fun hp => hp.1.2.1.underlying hp.2).close fun _ _ =>
      sim_record hm.knows (fun hp n hn hid => ?_) fun hp => hp.1.1.2.1) (by grind)
  obtain rfl := hm.only hn hid
  exact hp.1.1.2.2 fun n htype => hL.child hn (mem_append_left _ (Option.mem_toList.mpr htype))

/-! ## Types -/

/-- An expression that may be missing is resolved in step. -/
def SimOption (L : Link) (C : Completion) (o : Option Node) : Prop :=
  L.Knows o.toList → ∀ {p : Prop} {inner : Bool} {s s' : Scope}, (p → L.scopes inner s s') →
    Sim L p (identifiers o.toList) (exprOption C.complete s o)
      (exprOption C.complete' s' (relabelOption L.labels o)) fun _ _ => True

lemma simOption_some (hx : SimExpr L C x) : SimOption L C (some x) := by
  intro hk p inner s s' hs
  exact (hx hk hs fun _ => .none).close fun _ _ => sim_pure fun _ => trivial

lemma simExpr_slice (hx : SimExpr L C x) : SimExpr L C (.arrayType m none x) := by
  intro hk p inner s s' expected expected' hs _
  have hm := hk.self
  have hc : L.Knows [x] := hk.operands
  rw [Node.relabel, relabelOption, expr, expr]
  refine Sim.mono ((sim_denotesType (m := m) hm.knows fun _ n hn hid => ?_).after fun _ _ =>
    (hx hc (fun hp => hs hp.1) fun _ => .none).close fun t t' =>
      (sim_asType hc.self.knows fun hp => hp.2).after fun _ _ => sim_serial.after fun _ _ =>
        sim_record hm.knows (fun _ n hn hid => ?_) fun hp => .slice hp.2 (.some hp.1.2)) (by grind)
  · obtain rfl := hm.only hn hid
    exact .array ..
  · obtain rfl := hm.only hn hid
    exact .array (by rintro ⟨⟩)

lemma simExpr_array (hx : SimExpr L C x) (hy : SimExpr L C y) :
    SimExpr L C (.arrayType m (some y) x) := by
  intro hk p inner s s' expected expected' hs _
  have hm := hk.self
  have hc : L.Knows [y, x] := hk.operands
  rw [Node.relabel, relabelOption, expr, expr]
  refine Sim.mono ((sim_denotesType (m := m) hm.knows fun _ n hn hid => ?_).after fun _ _ =>
    (hx hc.tail (fun hp => hs hp.1) fun _ => .none).bind fun t t' =>
      (sim_asType hc.tail.self.knows fun hp => hp.2).after fun _ _ =>
        (hy hc.head (fun hp => hs hp.1.1.1) fun _ => .none).close fun _ _ =>
          (sim_arrayLength y).after fun l l' =>
          sim_serial.after fun k k' => sim_record hm.knows (fun _ n hn hid => ?_) fun hp => ?_)
    (by grind)
  · obtain rfl := hm.only hn hid
    exact .array ..
  · obtain rfl := hm.only hn hid
    exact .array (by rintro ⟨⟩)
  · rw [← hp.1.2]
    exact .array hp.2 (.some hp.1.1.1.2)

/-- The members of a struct type are resolved in step. -/
def SimMembers (L : Link) (C : Completion) (fs : List Field) : Prop :=
  L.Knows (fs.map .field) → ∀ {p : Prop} {inner : Bool} {s s' : Scope}, (p → L.scopes inner s s') →
    Sim L p (identifiers (fs.map .field)) (structMembers C.complete s fs)
      (structMembers C.complete' s' (relabelFields L.labels fs)) fun ms ms' =>
        Forall₂ (Ty.MemberRel (Alike L.matching)) ms ms' ∧
          ((∀ f ∈ fs, L.tree (.field f)) → (∀ f ∈ ms, ∀ t, f.type = some t → t.Plain) →
            spelledFields (relabelFields L.labels fs) = spelledFields fs)

variable {fs params results : List Field} {names : List Ident} {type : FuncType}

/-- The members that one field of a struct type makes, given its type. -/
def ownMembers (env : Underlying) (names : List Ident) (t : Ty) : List (Member Ty) :=
  if names.isEmpty then [{ name := embeddedName env t, type := some t, embedded := true }]
  else names.map fun i => { name := i.name, type := some t }

omit hL in
lemma forall₂_ownMembers {env env' : Underlying} {t t' : Ty} (henv : Matches L.matching env env')
    (ht : Alike L.matching t t') (hnames : ∀ i ∈ names, L.labels.spell i = i.name) :
    Forall₂ (Ty.MemberRel (Alike L.matching)) (ownMembers env names t)
      (ownMembers env' (names.map (Ident.relabel L.labels)) t') := by
  rw [ownMembers, ownMembers, isEmpty_map, ht.embeddedName henv]
  split
  · exact .cons ⟨.some ht⟩ .nil
  · rw [forall₂_map_left_iff, forall₂_map_right_iff, forall₂_map_right_iff, forall₂_same]
    intro i hi
    simp [hnames i hi]
    exact ⟨.some ht⟩

/-- Each field makes a member of its own type. -/
lemma exists_ownMembers (env : Underlying) (names : List Ident) (t : Ty) :
    ∃ f ∈ ownMembers env names t, f.type = some t := by
  rw [ownMembers]
  cases names with
  | nil => exact ⟨_, mem_cons_self, rfl⟩
  | cons i is => exact ⟨_, mem_cons_self, rfl⟩

lemma simMembers_cons (hx : SimExpr L C x) (hs : SimMembers L C fs) :
    SimMembers L C (.mk m names x :: fs) := by
  intro hk p inner s s' hscopes
  have hc : L.Knows (names.map .ident ++ [x]) := hk.operands
  have hmembers : ∀ complete s, structMembers complete s (.mk m names x :: fs) = (do
      let t ← expr complete s none x >>= asType x
      let env ← underlyings
      return ownMembers env names t ++ (← structMembers complete s fs)) := by
    intro complete s
    rw [structMembers, bind_assoc]
    rfl
  have hmembers' : ∀ complete s,
      structMembers complete s (relabelFields L.labels (.mk m names x :: fs)) = (do
      let t ← expr complete s none (x.relabel L.labels) >>= asType (x.relabel L.labels)
      let env ← underlyings
      return ownMembers env (names.map (Ident.relabel L.labels)) t ++
        (← structMembers complete s (relabelFields L.labels fs))) := by
    intro complete s
    rw [relabelFields, Field.relabel, structMembers, bind_assoc]
    rfl
  rw [hmembers, hmembers']
  refine Sim.mono (Sim.spared names ((hx.asDenoted hc.right fun hp => hscopes hp.1).bind fun t t' =>
    sim_underlyings.after fun env env' =>
      (hs hk.tail fun hp => hscopes hp.1.1.1).close fun ms ms' =>
      sim_pure fun hp => ⟨?_, fun htree hplain => ?_⟩)) (by grind)
  · exact rel_append (forall₂_ownMembers hp.1.2 hp.1.1.2.1 hp.1.1.1.2) hp.2.1
  · obtain ⟨f, hf, ht⟩ := exists_ownMembers env names t
    have htype := hp.1.1.2.2 (hL.child (htree _ mem_cons_self) (mem_append_right _ mem_cons_self))
      (hplain f (mem_append_left _ hf) t ht)
    have hnames : (names.map (Ident.relabel L.labels)).map Ident.name = names.map Ident.name := by
      rw [map_map]
      exact map_congr_left hp.1.1.1.2
    have hrest :=
      hp.2.2 (fun f hf => htree f (mem_cons_of_mem _ hf)) fun f hf =>
        hplain f (mem_append_right _ hf)
    rw [relabelFields, Field.relabel, spelledFields, spelledFields, hnames, htype, hrest]

lemma simExpr_struct (hs : SimMembers L C fs) : SimExpr L C (.structType m fs) := by
  intro hk p inner s s' expected expected' hscopes _
  have hm := hk.self
  rw [Node.relabel, expr, expr]
  refine Sim.mono ((sim_denotesType (m := m) hm.knows fun _ n hn hid => ?_).after fun _ _ =>
    (hs hk.operands fun hp => hscopes hp.1).close fun ms ms' => sim_serial.after fun _ _ =>
      sim_record hm.knows (fun hp n hn hid => ?_) fun hp => .struct hp.2 hp.1.2.1) (by grind)
  · obtain rfl := hm.only hn hid
    exact .struct ..
  · obtain rfl := hm.only hn hid
    refine .struct fun hplain => hp.1.2.2 (fun f hf => hL.child hn (mem_map_of_mem hf)) ?_
    cases hplain with
    | struct _ h => exact h

/-- What parameters give: types that are alike, and scopes that match. -/
def FieldsRel (L : Link) (a a' : List Ty × Scope) : Prop :=
  Forall₂ (Alike L.matching) a.1 a'.1 ∧ L.scopes true a.2 a'.2

/-- Parameters are resolved and declared in step. -/
def SimFields (L : Link) (C : Completion) (fs : List Field) : Prop :=
  L.Knows (fs.map .field) → ∀ {p : Prop} {s s' : Scope}, (p → L.scopes true s s') →
    Sim L p (identifiers (fs.map .field)) (fieldTypes C.complete s fs)
      (fieldTypes C.complete' s' (relabelFields L.labels fs)) (FieldsRel L)

lemma simFields_cons (hx : SimExpr L C x) (hs : SimFields L C fs) :
    SimFields L C (.mk m names x :: fs) := by
  intro hk p s s' hscopes
  have hc : L.Knows (names.map .ident ++ [x]) := hk.operands
  refine Sim.mono ((hx hc.right hscopes fun _ => .none).bind fun t t' =>
    (sim_asType hc.right.self.knows fun hp => hp.2).after fun u u' =>
      (sim_defineAll hc.left.idents (fun hp => hscopes hp.1.1) fun hp => hp.2).bind fun s₁ s₁' =>
        (hs hk.tail fun hp => hp.2).close fun a a' => sim_pure fun hp => ?_) (by grind)
  refine ⟨rel_append ?_ hp.2.1, hp.2.2⟩
  rw [length_map]
  exact forall₂_iff_get.mpr ⟨by simp, fun i _ _ => by simpa using hp.1.1.2⟩

/-- What a signature gives. -/
def SignatureRel (L : Link) (a a' : Ty × Scope) : Prop :=
  Alike L.matching a.1 a'.1 ∧ L.scopes true a.2 a'.2

/-- A signature is resolved in step. -/
def SimSignature (L : Link) (C : Completion) (type : FuncType) : Prop :=
  L.Knows [.funcType type] → ∀ {p : Prop} {s s' : Scope}, (p → L.scopes true s s') →
    Sim L p (identifiers [.funcType type]) (signature C.complete s type)
      (signature C.complete' s' (type.relabel L.labels)) (SignatureRel L)

lemma simSignature_mk (hparams : SimFields L C params) (hresults : SimFields L C results) :
    SimSignature L C (.mk m params results) := by
  intro hk p s s' hs
  have hm := hk.self
  have hc : L.Knows (params.map .field ++ results.map .field) := hk.operands
  refine Sim.mono
    ((sim_denotesType (m := m) hm.knows fun _ n hn hid => hm.only hn hid ▸ .func _).after fun _ _ =>
    (hparams hc.left fun hp => hs hp.1).bind fun a a' =>
      (hresults hc.right fun hp => hp.2.2).close fun c c' =>
      sim_serial.after fun k k' => (sim_typed (m := m) (hm.free rfl) fun hp => ?_).after fun t t' =>
        sim_pure fun hp => ⟨hp.2, hp.1.1.2.2⟩) (by grind)
  have hsome : ∀ {ts ts' : List Ty}, Forall₂ (Alike L.matching) ts ts' →
      Forall₂ (Option.Rel (Alike L.matching)) (ts.map some) (ts'.map some) := by
    intro ts ts' h
    rw [forall₂_map_left_iff, forall₂_map_right_iff]
    exact h.imp fun _ _ h => .some h
  exact .func hp.2 (hsome hp.1.1.2.1) (hsome hp.1.2.1)

lemma simExpr_funcType (htype : SimSignature L C type) : SimExpr L C (.funcType type) := by
  intro hk p inner s s' expected expected' hs _
  have hm : L.Free type.mark.id := hk.self.free rfl
  have hmark : (type.relabel L.labels).mark = type.mark.relabel L.labels := by
    cases type
    rfl
  rw [Node.relabel, expr, expr, hmark]
  exact (htype hk fun hp => hL.nested (hs hp)).close fun _ _ => sim_typed hm fun hp => hp.2.1

/-! ## Statements -/

/-- Statements are resolved in step. -/
def SimStmts (L : Link) (C : Completion) (ns : List Node) : Prop :=
  L.Knows ns → ∀ {p : Prop} {s s' : Scope}, (p → L.scopes true s s') →
    Sim L p (identifiers ns) (stmts C.complete s ns)
      (stmts C.complete' s' (relabelAll L.labels ns)) (L.scopes true)

lemma simStmts_cons (hn : SimStmt L C n) (hs : SimStmts L C ns) : SimStmts L C (n :: ns) := by
  intro hk p s s' hscopes
  exact Sim.mono ((hn hk.head hscopes).bind fun _ _ => hs hk.tail fun hp => hp.2) (by grind)

/-- A block is resolved in step. -/
def SimBlock (L : Link) (C : Completion) (b : Block) : Prop :=
  L.Knows [.block b] → ∀ {p : Prop} {s s' : Scope}, (p → L.scopes true s s') →
    Sim L p (identifiers [.block b]) (blockStmts C.complete s b)
      (blockStmts C.complete' s' (b.relabel L.labels)) fun _ _ => True

lemma simBlock_mk (hs : SimStmts L C ns) : SimBlock L C (.mk m ns) := by
  intro hk p s s' hscopes
  exact Sim.mono ((hs hk.operands hscopes).close fun _ _ => sim_pure fun _ => trivial)
    (by grind)

variable {body : Block}

lemma simExpr_funcLit (htype : SimSignature L C type) (hbody : SimBlock L C body) :
    SimExpr L C (.funcLit m type body) := by
  intro hk p inner s s' expected expected' hs _
  have hm : L.Free m.id := hk.self.free rfl
  have hc : L.Knows [.funcType type, .block body] := hk.operands
  rw [Node.relabel, expr, expr]
  exact Sim.mono ((htype hc.head fun hp => hL.nested (hs hp)).bind fun a a' =>
    (hbody hc.tail fun hp => hp.2.2).close fun _ _ => sim_typed hm fun hp => hp.1.2.1)
    (by grind)

/-- A statement that may be missing is resolved in step. -/
def SimStmtOption (L : Link) (C : Completion) (o : Option Node) : Prop :=
  L.Knows o.toList → ∀ {p : Prop} {s s' : Scope}, (p → L.scopes true s s') →
    Sim L p (identifiers o.toList) (stmtOption C.complete s o)
      (stmtOption C.complete' s' (relabelOption L.labels o)) (L.scopes true)

lemma simStmt_expr (hx : SimExpr L C x) : SimStmt L C (.exprStmt m x) := by
  intro hk p s s' hs
  exact Sim.mono ((hx hk.operands hs fun _ => .none).close fun _ _ => sim_pure fun hp => hs hp.1)
    (by grind)

lemma simStmt_incDec {op : String} (hx : SimExpr L C x) : SimStmt L C (.incDec m x op) := by
  intro hk p s s' hs
  exact Sim.mono ((hx hk.operands hs fun _ => .none).close fun _ _ => sim_pure fun hp => hs hp.1)
    (by grind)

lemma simStmt_ret (hs : SimExprs L C ns) : SimStmt L C (.ret m ns) := by
  intro hk p s s' hscopes
  exact Sim.mono
    ((hs hk.operands hscopes fun _ => .none).close fun _ _ => sim_pure fun hp => hscopes hp.1)
    (by grind)

omit hL in
lemma simStmt_branch {word : String} : SimStmt L C (.branch m word) := by
  intro _ p s s' hs
  exact Sim.mono (T := []) (sim_pure hs) (by simp)

lemma simStmt_block (hbody : SimBlock L C body) : SimStmt L C (.block body) := by
  intro hk p s s' hs
  rw [Node.relabel, stmt, stmt]
  exact (hbody hk fun hp => hL.nested (hs hp)).close fun _ _ => sim_pure fun hp => hs hp.1

/-- What is no statement is reported on both sides. -/
lemma simStmt_other (hn : ∀ complete s, stmt complete s n = (do
      let _ ← unresolved ("statement kind " ++ n.kind) n.loc
      return s))
    (hn' : ∀ complete s, stmt complete s (n.relabel L.labels) = (do
      let _ ← unresolved ("statement kind " ++ (n.relabel L.labels).kind) (n.relabel L.labels).loc
      return s)) : SimStmt L C n := by
  intro _ p s s' hs
  rw [hn, hn']
  exact Sim.mono ((sim_unresolved _ _ _ _).after fun _ _ => sim_pure fun hp => hs hp.1) (by simp)

/-! ### Assignments and declarations -/

/-- The targets of an assignment are resolved in step. -/
def SimTargets (L : Link) (C : Completion) (ns : List Node) : Prop :=
  L.Knows ns → ∀ {p : Prop} {s s' : Scope} {types types' : List Ty} (isDefine : Bool) (loc : Loc),
    (p → L.scopes true s s') → (p → Forall₂ (Alike L.matching) types types') →
    Sim L p (identifiers ns) (assignTargets C.complete s isDefine loc types ns)
      (assignTargets C.complete' s' isDefine loc types' (relabelAll L.labels ns)) (L.scopes true)

omit hL in
lemma alike_headD {types types' : List Ty} (h : Forall₂ (Alike L.matching) types types') :
    Alike L.matching (types.headD .invalid) (types'.headD .invalid) := by
  cases h with
  | nil => exact .invalid
  | cons h _ => exact h

omit hL in
lemma forall₂_tail {types types' : List Ty} (h : Forall₂ (Alike L.matching) types types') :
    Forall₂ (Alike L.matching) types.tail types'.tail := by
  cases h with
  | nil => exact .nil
  | cons _ h => exact h

/-- An identifier on the left of a definition. -/
lemma sim_defineTarget {p : Prop} {i : Ident} {t t' : Ty} {s s' : Scope} (hi : L.Names i)
    (hs : p → L.scopes true s s') (ht : p → Alike L.matching t t') :
    Sim L p [i] (if i.name == "_" then pure s else defineOrReuse i t s)
      (if L.labels.spell i == "_" then pure s' else defineOrReuse (i.relabel L.labels) t' s')
      (L.scopes true) := by
  refine Sim.foretell (q := L.labels.spell i = "_" ↔ i.name = "_") mem_cons_self
    (fun _ _ _ _ _ _ hright => hL.spell_eq_blank hright) ?_
  refine sim_ite ?_ ((sim_pure fun hp => hs hp.1).mono (by simp))
    (sim_defineOrReuse hi (fun hp => hs hp.1) fun hp => ht hp.1)
  rintro ⟨-, hblank⟩
  rw [beq_iff_eq, beq_iff_eq, hblank]

lemma assignTargets_define (complete : Nat → Resolve Ty) (s : Scope) (loc : Loc)
    (types : List Ty) (i : Ident)
    (ns : List Node) : assignTargets complete s true loc types (.ident i :: ns) = (do
      let s ← (if i.name == "_" then pure s
        else defineOrReuse i (types.headD .invalid) s : Resolve Scope)
      assignTargets complete s true loc types.tail ns) := by
  rw [assignTargets, if_pos rfl]
  split <;> rfl

lemma simTargets_define {i : Ident} (hs : SimTargets L C ns) {p : Prop} {s s' : Scope}
    {types types' : List Ty} (loc : Loc) (hk : L.Knows (.ident i :: ns))
    (hscopes : p → L.scopes true s s') (htypes : p → Forall₂ (Alike L.matching) types types') :
    Sim L p (identifiers (.ident i :: ns))
      (assignTargets C.complete s true loc types (.ident i :: ns))
      (assignTargets C.complete' s' true loc types' (relabelAll L.labels (.ident i :: ns)))
      (L.scopes true) := by
  have hi := hk.name
  rw [relabelAll, Node.relabel, assignTargets_define, assignTargets_define]
  exact Sim.mono ((sim_defineTarget hi hscopes fun hp => alike_headD (htypes hp)).bind fun s₁ s₁' =>
    hs hk.tail true loc (fun hp => hp.2) fun hp => forall₂_tail (htypes hp.1)) (by grind)

/-- A target that is an expression: the value is checked against its type. -/
lemma sim_checked {p : Prop} {T : List Ident} {β β' : Type} {t t' v v' : Ty} {loc : Loc}
    {z : Resolve β} {z' : Resolve β'} {post : β → β' → Prop} (ht : p → Alike L.matching t t')
    (hv : p → Alike L.matching v v') (hz : ∀ {q : Prop}, (q → p) → Sim L q T z z' post) :
    Sim L p T (do
      if !t.isInvalid && !v.isInvalid then checkAssignable loc v t
      z) (do
      if !t'.isInvalid && !v'.isInvalid then checkAssignable loc v' t'
      z') post := by
  refine sim_ite (fun hp => by rw [(ht hp).isInvalid, (hv hp).isInvalid]) ?_ (hz id)
  exact (sim_checkAssignable _ _ _ _).after fun _ _ => hz fun hp => hp.1

lemma simTargets_expr (hn : SimExpr L C n) (hs : SimTargets L C ns) {p : Prop} {s s' : Scope}
    {types types' : List Ty} (isDefine : Bool) (loc : Loc) (hk : L.Knows (n :: ns))
    (hscopes : p → L.scopes true s s') (htypes : p → Forall₂ (Alike L.matching) types types') :
    Sim L p (identifiers (n :: ns)) (do
      let target ← expr C.complete s none n
      if !target.isInvalid && !(types.headD .invalid).isInvalid then
        checkAssignable loc (types.headD .invalid) target
      assignTargets C.complete s isDefine loc types.tail ns) (do
      let target ← expr C.complete' s' none (n.relabel L.labels)
      if !target.isInvalid && !(types'.headD .invalid).isInvalid then
        checkAssignable loc (types'.headD .invalid) target
      assignTargets C.complete' s' isDefine loc types'.tail (relabelAll L.labels ns))
        (L.scopes true) :=
  Sim.mono ((hn hk.head hscopes fun _ => .none).bind fun t t' =>
    sim_checked (fun hp => hp.2) (fun hp => alike_headD (htypes hp.1)) fun hq =>
      hs hk.tail isDefine loc (fun h => hscopes (hq h).1) fun h => forall₂_tail (htypes (hq h).1))
        (by grind)

lemma simTargets_cons (hn : SimExpr L C n) (hs : SimTargets L C ns) : SimTargets L C (n :: ns) := by
  intro hk p s s' types types' isDefine loc hscopes htypes
  have hexpr := simTargets_expr hn hs isDefine loc hk hscopes htypes
  cases n with
  | ident i =>
    cases isDefine with
    | true => exact simTargets_define hs loc hk hscopes htypes
    | false => exact hexpr
  | _ => exact hexpr

lemma simStmt_assign {op : String} (hvalues : SimExprs L C values)
    (htargets : SimTargets L C targets) :
    SimStmt L C (.assign m targets op values) := by
  intro hk p s s' hs
  have hc : L.Knows (targets ++ values) := hk.operands
  rw [Node.relabel, stmt, stmt]
  exact Sim.mono ((hvalues hc.right hs fun _ => .none).bind fun ts ts' =>
    (sim_valueTypes hc.right.ids fun hp => hp.2).after fun us us' =>
      htargets hc.left (op == ":=") m.loc (fun hp => hs hp.1.1) fun hp => hp.2) (by grind)

/-- The declared type of a variable is resolved in step. -/
def SimDeclared (L : Link) (C : Completion) (o : Option Node) : Prop :=
  L.Knows o.toList → ∀ {p : Prop} {inner : Bool} {s s' : Scope}, (p → L.scopes inner s s') →
    Sim L p (identifiers o.toList) (declaredType C.complete s o)
      (declaredType C.complete' s' (relabelOption L.labels o)) (Option.Rel (Alike L.matching))

lemma simDeclared_some (hx : SimExpr L C x) : SimDeclared L C (some x) := by
  intro hk p inner s s' hs
  exact (hx hk hs fun _ => .none).close fun t t' =>
    (sim_asType hk.self.knows fun hp => hp.2).after fun _ _ =>
    sim_pure fun hp => .some hp.2

/-- A variable declaration, in any scope. -/
lemma sim_varSpec {p : Prop} {inner : Bool} {s s' : Scope} {type : Option Node}
    (htype : SimDeclared L C type)
    (hvalues : SimExprs L C values) (hk : L.Knows [.varSpec m names type values])
    (hs : p → L.scopes inner s s') :
    Sim L p (identifiers [.varSpec m names type values])
      (stmt C.complete s (.varSpec m names type values))
      (stmt C.complete' s' ((Node.varSpec m names type values).relabel L.labels))
      (L.scopes inner) := by
  have hc : L.Knows (names.map .ident ++ type.toList ++ values) := hk.operands
  rw [Node.relabel, stmt, stmt]
  refine Sim.mono ((htype hc.left.right hs).bind fun declared declared' =>
    (hvalues hc.right (fun hp => hs hp.1) fun hp => hp.2).bind fun vs vs' =>
      sim_declareNames hc.left.left.idents (fun hp => hs hp.1.1) (fun hp => hp.1.2) ?_ ?_)
        (by grind)
  · intro hp
    cases hp.2 <;> rfl
  · intro hp
    rw [length_map, hp.2.length_eq]
    split
    · exact hp.2
    · exact forall₂_replicate _

/-! ### Statements with bodies -/

section Compound

variable {init orElse guard post key value : Option Node}

lemma simStmt_if (hinit : SimStmtOption L C init) (hx : SimExpr L C x) (hbody : SimBlock L C body)
    (helse : SimStmtOption L C orElse) : SimStmt L C (.ifStmt m init x body orElse) := by
  intro hk p s s' hs
  have hc : L.Knows (init.toList ++ [x, .block body] ++ orElse.toList) := hk.operands
  rw [Node.relabel, stmt, stmt]
  exact Sim.mono ((hinit hc.left.left fun hp => hL.nested (hs hp)).bind fun s₁ s₁' =>
    (hx hc.left.right.head (fun hp => hp.2) fun _ => .none).bind fun _ _ =>
      (hbody hc.left.right.tail fun hp => hL.nested hp.1.2).bind fun _ _ =>
        (helse hc.right fun hp => hp.1.1.2).close fun _ _ => sim_pure fun hp => hs hp.1.1.1.1)
    (by grind)

lemma simStmt_for (hinit : SimStmtOption L C init) (hguard : SimOption L C guard)
    (hpost : SimStmtOption L C post)
    (hbody : SimBlock L C body) : SimStmt L C (.forStmt m init guard post body) := by
  intro hk p s s' hs
  have hc : L.Knows (init.toList ++ guard.toList ++ post.toList ++ [.block body]) := hk.operands
  rw [Node.relabel, stmt, stmt]
  exact Sim.mono ((hinit hc.left.left.left fun hp => hL.nested (hs hp)).bind fun s₁ s₁' =>
    (hguard hc.left.left.right fun hp => hp.2).bind fun _ _ =>
      (hpost hc.left.right fun hp => hp.1.2).bind fun s₂ s₂' =>
      (hbody hc.right fun hp => hL.nested hp.2).close fun _ _ => sim_pure fun hp => hs hp.1.1.1.1)
    (by grind)

/-- The key or the value of a range statement is resolved in step. -/
def SimRange (L : Link) (C : Completion) (o : Option Node) : Prop :=
  L.Knows o.toList → ∀ {p : Prop} {s s' : Scope} {t t' : Ty} (isDefine : Bool),
    (p → L.scopes true s s') → (p → Alike L.matching t t') →
    Sim L p (identifiers o.toList) (rangeTarget C.complete s isDefine t o)
      (rangeTarget C.complete' s' isDefine t' (relabelOption L.labels o)) (L.scopes true)

lemma simRange_some (hx : SimExpr L C x) : SimRange L C (some x) := by
  intro hk p s s' t t' isDefine hs ht
  have hexpr : Sim L p (identifiers [x]) (do
      let _ ← expr C.complete s none x
      return s) (do
      let _ ← expr C.complete' s' none (x.relabel L.labels)
      return s') (L.scopes true) :=
    (hx hk hs fun _ => .none).close fun _ _ => sim_pure fun hp => hs hp.1
  cases x with
  | ident i =>
    cases isDefine with
    | true => exact (sim_define hk.name hs ht).mono (by grind)
    | false => exact hexpr
  | _ => exact hexpr

lemma simStmt_range {op : String} (hkey : SimRange L C key)
    (hvalue : SimRange L C value) (hx : SimExpr L C x)
    (hbody : SimBlock L C body) : SimStmt L C (.rangeStmt m key value op x body) := by
  intro hk p s s' hs
  have hc : L.Knows (key.toList ++ value.toList ++ [x, .block body]) := hk.operands
  have hids : identifiers [.rangeStmt m key value op x body] =
      identifiers key.toList ++ identifiers value.toList ++ identifiers [x] ++
          identifiers [.block body] := by
    rw [identifiers_cons, identifiers_nil, append_nil, ← identifiers_append,
      ← identifiers_append, ← identifiers_append, append_assoc]
    rfl
  rw [Node.relabel, stmt, stmt, hids]
  exact Sim.mono
    ((hx hc.right.head hs fun _ => .none).bind fun t t' => sim_underlyings.after fun env env' =>
    (hkey hc.left.left (op == ":=") (fun hp => hL.nested (hs hp.1.1)) fun hp =>
      (hp.1.2.rangeTypes hp.2).1).bind fun s₁ s₁' =>
      (hvalue hc.left.right (op == ":=") (fun hp => hp.2) fun hp =>
        (hp.1.1.2.rangeTypes hp.1.2).2).bind fun s₂ s₂' =>
        (hbody hc.right.tail fun hp => hL.nested hp.2).close fun _ _ =>
          sim_pure fun hp => hs hp.1.1.1.1.1)
    (fun i => by simp only [count_append]; omega)

/-- The guards of a case are resolved in step. -/
def SimGuards (L : Link) (C : Completion) (guards : Option (List Node)) : Prop :=
  L.Knows (guards.getD []) → ∀ {p : Prop} {s s' : Scope}, (p → L.scopes true s s') →
    Sim L p (identifiers (guards.getD [])) (guardTypes C.complete s guards)
      (guardTypes C.complete' s' (relabelGuards L.labels guards)) fun _ _ => True

lemma simGuards_some (hs : SimExprs L C ns) : SimGuards L C (some ns) := by
  intro hk p s s' hscopes
  exact (hs hk hscopes fun _ => .none).close fun _ _ => sim_pure fun _ => trivial

/-- The cases of a switch are resolved in step. -/
def SimClauses (L : Link) (C : Completion) (cs : List Clause) : Prop :=
  L.Knows (cs.map .clause) → ∀ {p : Prop} {s s' : Scope}, (p → L.scopes true s s') →
    Sim L p (identifiers (cs.map .clause)) (clauseStmts C.complete s cs)
      (clauseStmts C.complete' s' (relabelClauses L.labels cs)) fun _ _ => True

variable {cs : List Clause} {guards : Option (List Node)}

lemma simClauses_cons (hguards : SimGuards L C guards) (hbody : SimStmts L C ns)
    (hs : SimClauses L C cs) :
    SimClauses L C (.mk m guards ns :: cs) := by
  intro hk p s s' hscopes
  have hc : L.Knows (guards.getD [] ++ ns) := hk.operands
  exact Sim.mono
    ((hguards hc.left hscopes).bind fun _ _ =>
      (hbody hc.right fun hp => hL.nested (hscopes hp.1)).bind
    fun _ _ => hs hk.tail fun hp => hscopes hp.1.1) (by grind)

lemma simStmt_switch (hinit : SimStmtOption L C init) (hguard : SimOption L C guard)
    (hs : SimClauses L C cs) :
    SimStmt L C (.switch m init guard cs) := by
  intro hk p s s' hscopes
  have hc : L.Knows (init.toList ++ guard.toList ++ cs.map .clause) := hk.operands
  rw [Node.relabel, stmt, stmt]
  exact Sim.mono ((hinit hc.left.left fun hp => hL.nested (hscopes hp)).bind fun s₁ s₁' =>
    (hguard hc.left.right fun hp => hp.2).bind fun _ _ =>
      (hs hc.right fun hp => hp.1.2).close fun _ _ =>
      sim_pure fun hp => hscopes hp.1.1.1) (by grind)

end Compound

/-! ## The induction -/

variable [L.Completes C]

-- The linter looks at each part of the recursion on its own.
set_option linter.unusedSectionVars false in
mutual

/-- **Every expression and the relabeled one are resolved in step.** -/
lemma simExpr (n : Node) : SimExpr L C n := by
  cases n with
  | ident i => exact simExpr_ident i
  | literal m kind value => exact simExpr_literal kind value
  | select m base name => exact simExpr_select (simExpr base)
  | star m x => exact simExpr_star (simExpr x)
  | unary m op x => exact simExpr_unary (simExpr x)
  | binary m x op y => exact simExpr_binary (simExpr x) (simExpr y)
  | paren m x => exact simExpr_paren (simExpr x)
  | call m fn args => exact simExpr_call (simExpr fn) (simExprs args)
  | index m x i => exact simExpr_index (simExpr x) (simExpr i)
  | composite m type elements => exact simExpr_composite (simType type) (simElements elements)
  | keyed m key value => exact simExpr_keyed (simExpr key) (simExpr value)
  | funcLit m type body => exact simExpr_funcLit (simSignature type) (simBlock body)
  | arrayType m length elem =>
    cases length with
    | none => exact simExpr_slice (simExpr elem)
    | some length => exact simExpr_array (simExpr elem) (simExpr length)
  | structType m fields => exact simExpr_struct (simMembers fields)
  | funcType type => exact simExpr_funcType (simSignature type)
  | _ => exact simExpr_other rfl (fun _ _ _ => rfl) fun _ _ _ => rfl

lemma simExprs : (ns : List Node) → SimExprs L C ns
  | [] => fun _ _ _ _ _ _ _ _ _ => sim_nothing fun _ => .nil
  | n :: ns => simExprs_cons (simExpr n) (simExprs ns)

lemma simOption : (o : Option Node) → SimOption L C o
  | none => fun _ _ _ _ _ _ => sim_nothing fun _ => trivial
  | some n => simOption_some (simExpr n)

lemma simGuards : (o : Option (List Node)) → SimGuards L C o
  | none => fun _ _ _ _ _ => sim_nothing fun _ => trivial
  | some ns => simGuards_some (simExprs ns)

lemma simDeclared : (o : Option Node) → SimDeclared L C o
  | none => fun _ _ _ _ _ _ => sim_nothing fun _ => .none
  | some n => simDeclared_some (simExpr n)

lemma simType : (o : Option Node) → SimType L C o
  | none => simType_none
  | some n => simType_some (simExpr n)

lemma simElements : (ns : List Node) → SimElements L C ns
  | [] => fun _ _ _ _ _ _ _ _ _ _ => sim_nothing fun _ => trivial
  | n :: ns => by
    have hs := simElements ns
    have hn := simExpr n
    cases n with
    | keyed m key value => exact simElements_keyed (simExpr key) (simExpr value) hs
    | _ => exact simElements_cons (by simp) hn hs

lemma simMembers : (fs : List Field) → SimMembers L C fs
  | [] => fun _ _ _ _ _ _ => sim_nothing fun _ => ⟨.nil, fun _ _ => rfl⟩
  | .mk _ _ type :: fs => simMembers_cons (simExpr type) (simMembers fs)

lemma simSignature : (t : FuncType) → SimSignature L C t
  | .mk _ params results => simSignature_mk (simFields params) (simFields results)

lemma simFields : (fs : List Field) → SimFields L C fs
  | [] => fun _ _ _ _ hs => sim_nothing fun hp => ⟨.nil, hs hp⟩
  | .mk _ _ type :: fs => simFields_cons (simExpr type) (simFields fs)

/-- **Every statement and the relabeled one are resolved in step.** -/
lemma simStmt (n : Node) : SimStmt L C n := by
  cases n with
  | assign m targets op values => exact simStmt_assign (simExprs values) (simTargets targets)
  | varSpec m names type values =>
    exact fun hk _ _ _ hs => sim_varSpec (simDeclared type) (simExprs values) hk hs
  | exprStmt m x => exact simStmt_expr (simExpr x)
  | incDec m x op => exact simStmt_incDec (simExpr x)
  | ret m results => exact simStmt_ret (simExprs results)
  | branch m word => exact simStmt_branch
  | block body => exact simStmt_block (simBlock body)
  | ifStmt m init cond body orElse =>
    exact simStmt_if (simStmtOption init) (simExpr cond) (simBlock body) (simStmtOption orElse)
  | forStmt m init cond post body =>
    exact simStmt_for (simStmtOption init) (simOption cond) (simStmtOption post) (simBlock body)
  | rangeStmt m key value op x body =>
    exact simStmt_range (simRange key) (simRange value) (simExpr x) (simBlock body)
  | switch m init tag clauses =>
    exact simStmt_switch (simStmtOption init) (simOption tag) (simClauses clauses)
  | _ => exact simStmt_other (fun _ _ => rfl) fun _ _ => rfl

lemma simStmts : (ns : List Node) → SimStmts L C ns
  | [] => fun _ _ _ _ => sim_nothing
  | n :: ns => simStmts_cons (simStmt n) (simStmts ns)

lemma simBlock : (b : Block) → SimBlock L C b
  | .mk _ ns => simBlock_mk (simStmts ns)

lemma simStmtOption : (o : Option Node) → SimStmtOption L C o
  | none => fun _ _ _ _ => sim_nothing
  | some n => fun hk _ _ _ hs => simStmt n hk hs

lemma simTargets : (ns : List Node) → SimTargets L C ns
  | [] => fun _ _ _ _ _ _ _ _ hs _ => sim_nothing hs
  | n :: ns => simTargets_cons (simExpr n) (simTargets ns)

lemma simRange : (o : Option Node) → SimRange L C o
  | none => fun _ _ _ _ _ _ _ hs _ => sim_nothing hs
  | some n => simRange_some (simExpr n)

lemma simClauses : (cs : List Clause) → SimClauses L C cs
  | [] => fun _ _ _ _ _ => sim_nothing fun _ => trivial
  | .mk _ guards body :: cs => simClauses_cons (simGuards guards) (simStmts body) (simClauses cs)

end

end Recast.Lockstep
