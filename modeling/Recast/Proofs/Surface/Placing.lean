import Recast.Proofs.Surface.Accepting
import Recast.Proofs.Syntax.Numerals
import Recast.Proofs.Syntax.Places
import Recast.Proofs.Syntax.Regularity

/-!
# Where building puts nodes

The nodes that are built from a description are regular, they have been laid out, and what has a
line of its own has been built from a form with a line of its own.

**Lines.**  The forms of a description that get a line are listed in the order in which they are
written (`linedForms`), and the number of a line is the position of its form in this list.

**Plans.**  What is known of the value of a plan is found by going through it (`Makes`): a part adds
its rows to those that there are, and what is put together in the end has these rows and is regular.
There is one proof for each head, and the rest is the induction over forms.

* `entered_read` — what is built from a form has been laid out, line by line.
-/

namespace Recast

open List

def Cursor.spot (c : Cursor) : Spot := ⟨c.line, c.column⟩

/-- The nodes that are built from a form at the top. -/
def Item.nodes : Item → List Node
  | .package name => [.ident name]
  | .imports specs => specs.map .importSpec
  | .decl n => [n]

/-- The messages of an annotation. -/
def textsOf (forms : List Form) : List String := forms.filterMap fun
  | .text message => some message
  | _ => none

/-- The messages that the items of a form end with. -/
def wantsOf (items : List Form) : List String :=
  match items.getLast? with
  | some (.list (head :: messages)) =>
    if items.length < 2 || !head.isSymbol "want" then [] else textsOf messages
  | _ => []

/-- The messages that a form ends with. -/
def Form.wants : Form → List String
  | .list items => wantsOf items
  | _ => []

lemma Form.AllLegible.mem {form : Form} {forms : List Form} (h : AllLegible forms)
    (hform : form ∈ forms) : form.Legible := by
  induction forms with
  | nil => cases hform
  | cons first forms ih =>
    rcases mem_cons.mp hform with rfl | hform
    · exact h.1
    · exact ih h.2 hform

lemma Build.run_bind_ok {α β : Type} {x : Build α} {f : α → Build β} {c c' : Cursor} {w : β}
    (h : (x >>= f).run c = .ok (w, c')) : ∃ v c₁, x.run c = .ok (v, c₁) ∧
    (f v).run c₁ = .ok (w, c') := by
  rw [StateT.run_bind] at h
  cases hrun : x.run c with
  | error e =>
    rw [hrun] at h
    cases h
  | ok p =>
    rw [hrun] at h
    exact ⟨p.1, p.2, rfl, h⟩

namespace Surface

open Build
open Node (isDeclaration isOperand isStatement AllOf allOf_nil)

/-! ## Forms with lines -/

mutual

/-- **The forms that get a line**, in a form and below it, in the order in which they are
written. -/
def linedForms : Form → Role → List (Role × Form)
  | .list forms, ρ => (if ρ.isLined (forms.map look) then [(ρ, .list forms)] else []) ++
    ((ρ.parts (forms.map look)).map (linedAll forms)).getD []
  | _, _ => []

/-- The forms that get a line in some forms, each in its role. -/
def linedAll : List Form → List Role → List (Role × Form)
  | form :: forms, ρ :: ρs => linedForms form ρ ++ linedAll forms ρs
  | _, _ => []

end

/-! ## What is made -/

/-- The rows of what is made of a form, on the line that is reached. -/
def bareRows : (ρ : Role) → ρ.Made → List Row
  | .item, .package name => [⟨false, .ident name⟩]
  | .item, .imports specs => inline (specs.map .importSpec)
  | .item, .decl n => [⟨false, n⟩]
  | .stmt, n | .alternative, n | .inline, n | .init, n | .expr, n | .element, n => [⟨false, n⟩]
  | .clause, c => [⟨false, .clause c⟩]
  | .block, b => [⟨false, .block b⟩]
  | .exprs _, ns => inline ns
  | .param, f | .member, f => [⟨false, .field f⟩]
  | .params, fs => inline (fs.map .field)
  | .name, i => [⟨false, .ident i⟩]
  | .names, is => inline (is.map .ident)
  | .path, spec => [⟨false, .importSpec spec⟩]
  | _, _ => []

/-- The rows of what is made of a form, with a line of its own if it gets one. -/
def rowsOf : (ρ : Role) → ρ.Made → List Row
  | .stmt, n => [⟨true, n⟩]
  | .clause, c => [⟨true, .clause c⟩]
  | .alternative, n => [⟨n.isIf, n⟩]
  | ρ, v => bareRows ρ v

/-- The rows of what is made of several forms in one role. -/
def rowsAll : (ρ : Role) → List ρ.Made → List Row
  | .stmt, ns => separate ns
  | .clause, cs => separate (cs.map .clause)
  | .expr, ns | .element, ns => inline ns
  | .param, fs | .member, fs => inline (fs.map .field)
  | .name, is => inline (is.map .ident)
  | .path, specs => inline (specs.map .importSpec)
  | ρ, vs => vs.flatMap (rowsOf ρ)

lemma rowsAll_cons (ρ : Role) (v : ρ.Made) (vs : List ρ.Made) :
    rowsAll ρ (v :: vs) = rowsOf ρ v ++ rowsAll ρ vs := by
  cases ρ with
  | _ => rfl

/-- What is made of a form is of the category that belongs there. -/
def Good : (ρ : Role) → ρ.Made → Prop
  | .item, .decl n => AllOf isDeclaration [n]
  | .stmt, n | .alternative, n | .inline, n | .init, n => AllOf isStatement [n]
  | .expr, n | .element, n => AllOf isOperand [n]
  | .exprs _, ns => AllOf isOperand ns
  | _, _ => True

/-- What is made of several forms in one role is of the category that belongs there. -/
def GoodAll : (ρ : Role) → List ρ.Made → Prop
  | .stmt, ns => AllOf isStatement ns
  | .expr, ns | .element, ns => AllOf isOperand ns
  | _, _ => True

lemma goodAll_nil (ρ : Role) : GoodAll ρ [] := by
  cases ρ with
  | stmt | expr | element => exact allOf_nil
  | _ => trivial

lemma goodAll_cons {ρ : Role} {v : ρ.Made} {vs : List ρ.Made} (h : Good ρ v) (h' : GoodAll ρ vs) :
    GoodAll ρ (v :: vs) := by
  cases ρ with
  | stmt | expr | element => exact AllOf.append h h'
  | _ => trivial

/-- The nodes with a line of their own. -/
def ownNodes (rows : List Row) : List Node := ((unroll rows).filter Row.own).map Row.node

lemma ownNodes_nil : ownNodes [] = [] := by rw [ownNodes, unroll_nil]; rfl

lemma ownNodes_append (rows rows' : List Row) :
    ownNodes (rows ++ rows') = ownNodes rows ++ ownNodes rows' := by
  rw [ownNodes, unroll_append, filter_append, map_append]
  rfl

lemma ownNodes_singleton (own : Bool) (n : Node) :
    ownNodes [⟨own, n⟩] = (if own then [n] else []) ++ ownNodes n.rows := by
  rw [ownNodes, unroll_singleton]
  cases own with
  | _ => rfl

lemma length_ownNodes (rows : List Row) :
    (ownNodes rows).length = Recast.lineCount (unroll rows) := by
  rw [ownNodes, length_map, ← countP_eq_length_filter]
  rfl

/-- The nodes that are built from a form that gets a line: a single one, but for imports. -/
def nodesOf : (ρ : Role) → ρ.Made → List Node
  | .item, item => Item.nodes item
  | .stmt, n | .alternative, n => [n]
  | .clause, c => [.clause c]
  | _, _ => []

section Entered

/-! ## Rows that have been laid out -/

variable (lined : List (Role × Form)) (L : Prop)

/-- **What is built from a form with a line of its own** is on the line after those that had been
given out. -/
structure Built (i : Nat) (ρ : Role) (g : Form) (v : ρ.Made) : Prop where
  form : lined[i]? = some (ρ, g)
  run : ∃ c c' : Cursor, c.line = i ∧ (read ρ g).run c = .ok (v, c')
  line : ∀ n ∈ nodesOf ρ v, n.loc.line = i + 1

/-- **Rows have been laid out** between two cursors, and what has a line of its own was built from
the forms of these lines.  Where all numbers can be read, they are regular. -/
structure Entered (c c' : Cursor) (rows : List Row) : Prop where
  file : c'.file = c.file
  laid : Laid c.file c.spot c'.spot rows
  built : ∀ i n, (ownNodes rows)[i]? = some n → ∃ ρ form v, Built lined (c.line + i) ρ form v ∧
    nodesOf ρ v = [n]
  regular : L → ∀ r ∈ rows, r.node.Regular

variable {lined L} {c c' c'' : Cursor} {rows rows' : List Row} {n : Node} {m : Mark}

lemma entered_nil (c : Cursor) : Entered lined L c c [] where
  file := rfl
  laid := .nil _
  built i n h := by
    rw [ownNodes_nil] at h
    cases h
  regular _ := forall_mem_nil _

lemma Entered.line (h : Entered lined L c c' rows) : c'.line = c.line + (ownNodes rows).length := by
  rw [length_ownNodes]
  exact h.laid.lined.2

lemma Entered.append (h : Entered lined L c c' rows) (h' : Entered lined L c' c'' rows') :
    Entered lined L c c'' (rows ++ rows') where
  file := h'.file.trans h.file
  laid := h.laid.append (h.file ▸ h'.laid)
  built i n hn := by
    rw [ownNodes_append] at hn
    by_cases hi : i < (ownNodes rows).length
    · rw [getElem?_append_left hi] at hn
      exact h.built i n hn
    · rw [getElem?_append_right (Nat.le_of_not_lt hi)] at hn
      have hbuilt := h'.built _ n hn
      rwa [h.line, Nat.add_assoc, Nat.add_sub_cancel' (Nat.le_of_not_lt hi)] at hbuilt
  regular hL := forall_mem_append.mpr ⟨h.regular hL, h'.regular hL⟩

lemma Entered.inline {ns ms : List Node} (h : Entered lined L c c' (inline ns))
    (h' : Entered lined L c' c'' (inline ms)) :
    Entered lined L c c'' (Recast.inline (ns ++ ms)) := inline_append ns ms ▸ h.append h'

lemma Entered.children (h : Entered lined L c c' n.rows) (hL : L) :
    ∀ x ∈ n.children, x.Regular := by
  rw [← n.map_node_rows]
  exact forall_mem_map.mpr (h.regular hL)

/-- A node takes the next place, and then its children are laid out. -/
lemma Entered.node (hm : place.run c = .ok (m, c')) (h : Entered lined L c' c'' n.rows)
    (hmark : n.mark = m)
    (hlegible : L → n.isLegible = true) (hn : n.Fits) : Entered lined L c c'' [⟨false, n⟩] := by
  cases hm
  refine ⟨h.file, .node ?_ h.laid, fun i k hk => h.built i k ?_, fun hL => ?_⟩
  · rw [Node.loc, hmark]
    rfl
  · rwa [ownNodes_singleton] at hk
  · exact forall_mem_singleton.mpr (hn.regular (hlegible hL) (h.children hL))

/-- Parentheses that take their place after what they enclose. -/
lemma Entered.late {x : Node} (h : Entered lined L c c' [⟨false, x⟩])
    (hm : place.run c' = .ok (m, c''))
    (hx : AllOf isOperand [x]) : Entered lined L c c'' [⟨false, .paren m x⟩] := by
  cases hm
  refine ⟨h.file, .late h.laid ?_, fun i k hk => h.built i k ?_,
    fun hL => forall_mem_singleton.mpr ?_⟩
  · rw [← h.file]
    rfl
  · rwa [ownNodes_singleton] at hk
  · exact Node.Fits.regular (n := .paren _ x) ⟨hx, allOf_nil, allOf_nil⟩ rfl
      (Entered.children (n := .paren _ x) h hL)

lemma Entered.since {c₁ : Cursor} (h : Entered lined L c₁ c' rows) (hfile : c₁.file = c.file)
    (hspot : c₁.spot = c.spot) :
    Entered lined L c c' rows where
  file := h.file.trans hfile
  laid := hspot ▸ hfile ▸ h.laid
  built i n hn := by
    have hline : c₁.line = c.line := congrArg Spot.line hspot
    exact hline ▸ h.built i n hn
  regular := h.regular

/-- A node that was built from a form with a line of its own. -/
lemma Entered.own {c₁ : Cursor} (h : Entered lined L c₁ c' [⟨false, n⟩]) (hfile : c₁.file = c.file)
    (hspot : c₁.spot = c.spot.newLine)
    (hn : ∃ ρ form v, Built lined c.line ρ form v ∧ nodesOf ρ v = [n]) :
    Entered lined L c c' [⟨true, n⟩] where
  file := h.file.trans hfile
  laid := .line (hspot ▸ hfile ▸ h.laid)
  built i m hm := by
    rw [ownNodes_singleton] at hm
    cases i with
    | zero =>
      cases hm
      exact hn
    | succ i =>
      have hline : c₁.line = c.line + 1 := congrArg Spot.line hspot
      have hbuilt := h.built i m (by rw [ownNodes_singleton]; exact hm)
      rwa [hline, Nat.add_right_comm] at hbuilt
  regular hL := forall_mem_singleton.mpr (h.regular hL ⟨false, n⟩ mem_cons_self)

/-- Nodes without parts stand on the line that is reached. -/
lemma Entered.on {ns : List Node} (h : Entered lined L c c' (Recast.inline ns))
    (hns : ∀ n ∈ ns, n.rows = [] ∧ n.isParen = false) : ∀ n ∈ ns, n.loc.line = c.line := by
  have hlined := h.laid.lined.1
  clear h
  induction ns with
  | nil => exact nofun
  | cons n ns ih =>
    obtain ⟨hn, hns⟩ := forall_mem_cons.mp hns
    rw [Recast.inline, map_cons, unroll, hn.1, nil_append] at hlined
    exact forall_mem_cons.mpr ⟨hlined.1.2.2 hn.2, ih hns hlined.2⟩

/-- A node with what is below it, where the node takes its place first. -/
structure Stands (lined : List (Role × Form)) (L : Prop) (c c' : Cursor) (n : Node) : Prop where
  entered : Entered lined L c c' [⟨false, n⟩]
  line : n.loc.line = c.line

lemma Stands.node (hm : place.run c = .ok (m, c')) (h : Entered lined L c' c'' n.rows)
    (hmark : n.mark = m)
    (hlegible : L → n.isLegible = true) (hn : n.Fits) : Stands lined L c c'' n := by
  refine ⟨.node hm h hmark hlegible hn, ?_⟩
  cases hm
  rw [Node.loc, hmark]

/-! ## Going through a plan -/

/-- What is known of a value that a plan gives, if its parts are as they should be. -/
def Makes (L : Prop) (lined : List (Role × Form)) {α : Type} :
    Plan α → Cursor → (α → Cursor → Prop) → Prop
  | .give a, c, Q => Q a c
  | .refuse, _, _ => True
  | .place k, c, Q => ∀ m c', place.run c = .ok (m, c') → Makes L lined (k m) c' Q
  | .skip p, c, Q => Makes L lined p c Q
  | .blank p q, c, Q => Makes L lined p c Q ∧ Makes L lined q c Q
  | .part ρ k, c, Q =>
    ∀ v c', Entered lined L c c' (rowsOf ρ v) → Good ρ v → Makes L lined (k v) c' Q
  | .all ρ k, c, Q =>
    ∀ vs c', Entered lined L c c' (rowsAll ρ vs) → GoodAll ρ vs → Makes L lined (k vs) c' Q

variable {α : Type} {Q : α → Cursor → Prop}

lemma Makes.both {p : Plan α} {Q' R : α → Cursor → Prop} (h : Makes L lined p c Q)
    (h' : Makes L lined p c Q') (hR : ∀ v c', Q v c' → Q' v c' → R v c') : Makes L lined p c R := by
  induction p generalizing c with
  | give a => exact hR a c h h'
  | refuse => exact trivial
  | place k ih => exact fun m c' hm => ih m (h m c' hm) (h' m c' hm)
  | skip p ih => exact ih h h'
  | blank p q ih ih' => exact ⟨ih h.1 h'.1, ih' h.2 h'.2⟩
  | part ρ k ih => exact fun v c' hv gv => ih v (h v c' hv gv) (h' v c' hv gv)
  | all ρ k ih => exact fun vs c' hvs gvs => ih vs (h vs c' hvs gvs) (h' vs c' hvs gvs)

lemma Makes.mono {p : Plan α} {R : α → Cursor → Prop} (h : Makes L lined p c Q)
    (hR : ∀ v c', Q v c' → R v c') :
    Makes L lined p c R := h.both h fun v c' hv _ => hR v c' hv

lemma makes_optional {k : Option Node → Plan α}
    (h : ∀ o c', Entered lined L c c' (inline o.toList) → AllOf isOperand o.toList →
    Makes L lined (k o) c' Q) : Makes L lined (.optional (.part .expr) k) c Q :=
  ⟨h none c (entered_nil c) allOf_nil, fun n c' hn gn => h (some n) c' hn gn⟩

lemma makes_optionalInline {k : Option Node → Plan α}
    (h : ∀ o c', Entered lined L c c' (inline o.toList) →
    AllOf isStatement o.toList → Makes L lined (k o) c' Q) :
    Makes L lined (.optional (.part .inline) k) c Q :=
  ⟨h none c (entered_nil c) allOf_nil, fun n c' hn gn => h (some n) c' hn gn⟩

lemma makes_funcType {k : FuncType → Plan α}
    (h : ∀ t c', Entered lined L c c' [⟨false, .funcType t⟩] →
    Makes L lined (k t) c' Q) : Makes L lined (.funcType k) c Q := by
  intro m c₁ hm ps c₂ hps _ rs c₃ hrs _
  refine h _ c₃ (.node hm ?_ rfl (fun _ => rfl) ⟨allOf_nil, allOf_nil, allOf_nil⟩)
  exact hps.inline hrs

lemma makes_body {f : Block → α} (h : ∀ b c', Stands lined L c c' (.block b) → Q (f b) c') :
    Makes L lined (.body f) c Q :=
  fun _ _ hm _ c' hns gns => h _ c' (.node hm hns rfl (fun _ => rfl) ⟨allOf_nil, gns, allOf_nil⟩)

lemma makes_headExpr (tag : String) (hm : place.run c = .ok (m, c')) :
    Makes L lined (Plan.headExpr m tag) c' fun n c'' => Entered lined L c c'' [⟨false, n⟩] ∧
    AllOf isOperand [n] := by
  rw [Plan.headExpr.eq_def]
  split
  case h_1 =>
    exact fun x _ hx gx i _ hi _ =>
      ⟨.node hm (hx.append hi) rfl (fun _ => rfl) ⟨gx, allOf_nil, allOf_nil⟩, .one rfl⟩
  case h_2 =>
    exact fun x _ hx gx => ⟨.node hm hx rfl (fun _ => rfl) ⟨gx, allOf_nil, allOf_nil⟩, .one rfl⟩
  case h_3 =>
    exact fun x _ hx gx => ⟨.node hm hx rfl (fun _ => rfl) ⟨gx, allOf_nil, allOf_nil⟩, .one rfl⟩
  case h_4 =>
    exact fun x _ hx gx => ⟨.node hm hx rfl (fun _ => rfl) ⟨gx, allOf_nil, allOf_nil⟩, .one rfl⟩
  case h_5 =>
    exact fun x _ hx gx => ⟨.node hm hx rfl (fun _ => rfl) ⟨gx, allOf_nil, allOf_nil⟩, .one rfl⟩
  case h_6 =>
    exact fun x _ hx gx => ⟨.node hm hx rfl (fun _ => rfl) ⟨gx, allOf_nil, allOf_nil⟩, .one rfl⟩
  case h_7 =>
    exact fun x _ hx gx => ⟨.node hm hx rfl (fun _ => rfl) ⟨gx, allOf_nil, allOf_nil⟩, .one rfl⟩
  case h_8 =>
    exact fun fn _ hfn gfn xs _ hxs gxs =>
      ⟨.node hm (hfn.append hxs) rfl (fun _ => rfl)
        ⟨gfn.append gxs, allOf_nil, allOf_nil⟩, .one rfl⟩
  case h_9 =>
    exact fun t _ ht gt o _ ho x _ hx gx =>
      ⟨.node hm ((ht.late ho gt).append hx) rfl (fun _ => rfl)
        ⟨(AllOf.one (n := .paren o t) rfl).append gx, allOf_nil, allOf_nil⟩, .one rfl⟩
  case h_10 =>
    exact fun x _ hx gx y _ hy gy =>
      ⟨.node hm (hx.append hy) rfl (fun _ => rfl) ⟨gx.append gy, allOf_nil, allOf_nil⟩, .one rfl⟩
  case h_11 =>
    exact makes_optional fun t _ ht gt xs _ hxs gxs =>
      ⟨.node hm (ht.inline hxs) rfl (fun _ => rfl) ⟨gt.append gxs, allOf_nil, allOf_nil⟩, .one rfl⟩
  case h_12 =>
    exact makes_funcType fun t _ ht => makes_body fun b _ hb =>
      ⟨.node hm (ht.append hb.entered) rfl (fun _ => rfl)
        ⟨allOf_nil, allOf_nil, allOf_nil⟩, .one rfl⟩
  case h_13 =>
    exact fun x _ hx gx => ⟨.node hm hx rfl (fun _ => rfl) ⟨gx, allOf_nil, allOf_nil⟩, .one rfl⟩
  case h_14 =>
    exact fun n _ hn gn x _ hx gx =>
      ⟨.node hm (hn.append hx) rfl (fun _ => rfl) ⟨gn.append gx, allOf_nil, allOf_nil⟩, .one rfl⟩
  case h_15 =>
    exact fun fs _ hfs _ =>
      ⟨.node hm hfs rfl (fun _ => rfl) ⟨allOf_nil, allOf_nil, allOf_nil⟩, .one rfl⟩
  case h_16 => exact trivial

lemma makes_expr (tag : String) (args : List Look) :
    Makes L lined (Plan.expr tag args) c fun n c' => Entered lined L c c' [⟨false, n⟩] ∧
    AllOf isOperand [n] := by
  intro m c' hm
  split
  · exact fun x _ hx gx y _ hy gy =>
      ⟨.node hm (hx.append hy) rfl (fun _ => rfl) ⟨gx.append gy, allOf_nil, allOf_nil⟩, .one rfl⟩
  · exact makes_headExpr tag hm

lemma makes_vars {make : Node → α} (hm : place.run c = .ok (m, c'))
    (h : ∀ n c'', Stands lined L c c'' n →
    AllOf isStatement [n] → AllOf isDeclaration [n] → Q (make n) c'') :
    Makes L lined (Plan.vars m make) c' Q := by
  refine fun is _ his _ => ⟨fun v _ hv gv vs _ hvs gvs => ?_, fun t _ ht gt vs _ hvs gvs => ?_⟩
  · refine h _ _ (.node hm ?_ rfl (fun _ => rfl) ⟨gv.append gvs, allOf_nil, allOf_nil⟩) (.one rfl)
      (.one rfl)
    show Entered lined L _ _ (inline (_ ++ [] ++ _))
    rw [append_nil]
    exact his.inline (hv.append hvs)
  · exact h _ _ (.node hm ((his.inline ht).inline hvs) rfl (fun _ => rfl)
      ⟨gt.append gvs, allOf_nil, allOf_nil⟩) (.one rfl) (.one rfl)

lemma makes_initially {args : List Look} {k : Option Node → Plan α}
    (h : ∀ o c', Entered lined L c c' (inline o.toList) →
    AllOf isStatement o.toList → Makes L lined (k o) c' Q) :
    Makes L lined (.initially args k) c Q := by
  rw [Plan.initially]
  split
  · exact fun n c' hn gn => h (some n) c' hn gn
  · exact h none c (entered_nil c) allOf_nil

lemma makes_branch {init : Option Node} {c₁ : Cursor} (k : Nat) (hm : place.run c = .ok (m, c₁))
    (hinit : Entered lined L c₁ c' (inline init.toList)) (ginit : AllOf isStatement init.toList) :
    Makes L lined (Plan.branch m init k) c' fun n c'' => Stands lined L c c'' n ∧
    AllOf isStatement [n] := by
  rw [Plan.branch]
  split
  · intro x _ hx gx b _ hb _ e _ he ge
    exact ⟨.node hm ((hinit.inline (hx.append hb)).append he) rfl (fun _ => rfl)
      ⟨gx, ginit.append ge, allOf_nil⟩, .one rfl⟩
  · split
    · refine fun x _ hx gx b _ hb _ =>
        ⟨.node hm ?_ rfl (fun _ => rfl) ⟨gx, ginit.append allOf_nil, allOf_nil⟩, .one rfl⟩
      exact (hinit.inline (hx.append hb)).append (entered_nil _)
    · exact trivial

lemma makes_loop (k : Nat) (hm : place.run c = .ok (m, c')) :
    Makes L lined (Plan.loop m k) c' fun n c'' => Stands lined L c c'' n ∧
    AllOf isStatement [n] := by
  rw [Plan.loop]
  split
  · exact makes_optionalInline fun init _ hinit ginit => makes_optional fun x _ hx gx =>
      makes_optionalInline fun post _ hpost gpost => fun b _ hb _ =>
        ⟨.node hm (((hinit.inline hx).inline hpost).inline hb) rfl (fun _ => rfl)
          ⟨gx, ginit.append gpost, allOf_nil⟩, .one rfl⟩
  · split
    · refine makes_optional fun x _ hx gx b _ hb _ =>
        ⟨.node hm ?_ rfl (fun _ => rfl) ⟨gx, allOf_nil, allOf_nil⟩, .one rfl⟩
      show Entered lined L _ _ (inline (_ ++ [] ++ _))
      rw [append_nil]
      exact hx.inline hb
    · split
      · exact fun b _ hb _ =>
          ⟨.node hm hb rfl (fun _ => rfl) ⟨allOf_nil, allOf_nil, allOf_nil⟩, .one rfl⟩
      · exact trivial

lemma makes_headStmt (tag : String) (args : List Look) (hm : place.run c = .ok (m, c')) :
    Makes L lined (Plan.headStmt m args tag) c' fun n c'' => Stands lined L c c'' n ∧
    AllOf isStatement [n] := by
  have hassign : ∀ op, Makes L lined (.two fun x y => .assign m [x] op [y]) c' fun n c'' =>
      Stands lined L c c'' n ∧ AllOf isStatement [n] := fun op x _ hx gx y _ hy gy =>
    ⟨.node hm (hx.append hy) rfl (fun _ => rfl) ⟨gx.append gy, allOf_nil, allOf_nil⟩, .one rfl⟩
  have hassignAll : ∀ op, Makes L lined (Plan.headStmt.assignAll m op) c' fun n c'' =>
      Stands lined L c c'' n ∧
        AllOf isStatement [n] := fun op xs _ hxs gxs y _ hy gy ys _ hys gys =>
    ⟨.node hm (hxs.inline (hy.append hys)) rfl (fun _ => rfl)
      ⟨AllOf.append gxs (gy.append gys), allOf_nil, allOf_nil⟩, .one rfl⟩
  rw [Plan.headStmt.eq_def]
  split
  case h_1 => exact hassign ":="
  case h_2 => exact hassign "="
  case h_3 => exact hassignAll ":="
  case h_4 => exact hassignAll "="
  case h_5 => exact makes_vars hm fun n _ hn gn _ => ⟨hn, gn⟩
  case h_6 =>
    exact fun x _ hx gx => ⟨.node hm hx rfl (fun _ => rfl) ⟨gx, allOf_nil, allOf_nil⟩, .one rfl⟩
  case h_7 =>
    exact fun o _ ho fn _ hfn gfn xs _ hxs gxs =>
      ⟨.node hm
        (.node ho (hfn.append hxs) rfl (fun _ => rfl) ⟨gfn.append gxs, allOf_nil, allOf_nil⟩) rfl
        (fun _ => rfl) ⟨.one rfl, allOf_nil, allOf_nil⟩, .one rfl⟩
  case h_8 =>
    exact fun xs _ hxs gxs =>
      ⟨.node hm hxs rfl (fun _ => rfl) ⟨gxs, allOf_nil, allOf_nil⟩, .one rfl⟩
  case h_9 =>
    exact ⟨.node hm (entered_nil _) rfl (fun _ => rfl) ⟨allOf_nil, allOf_nil, allOf_nil⟩, .one rfl⟩
  case h_10 =>
    exact ⟨.node hm (entered_nil _) rfl (fun _ => rfl) ⟨allOf_nil, allOf_nil, allOf_nil⟩, .one rfl⟩
  case h_11 =>
    exact fun x _ hx gx => ⟨.node hm hx rfl (fun _ => rfl) ⟨gx, allOf_nil, allOf_nil⟩, .one rfl⟩
  case h_12 =>
    exact fun x _ hx gx => ⟨.node hm hx rfl (fun _ => rfl) ⟨gx, allOf_nil, allOf_nil⟩, .one rfl⟩
  case h_13 =>
    exact fun ns _ hns gns =>
      ⟨.node hm hns rfl (fun _ => rfl) ⟨allOf_nil, gns, allOf_nil⟩, .one rfl⟩
  case h_14 => exact makes_initially fun init _ hinit ginit => makes_branch _ hm hinit ginit
  case h_15 => exact makes_loop _ hm
  case h_16 =>
    exact makes_optional fun key _ hkey gkey =>
      makes_optional fun value _ hvalue gvalue x _ hx gx b _ hb _ =>
      ⟨.node hm ((hkey.inline hvalue).inline (hx.append hb)) rfl (fun _ => rfl)
        ⟨(gkey.append gvalue).append gx, allOf_nil, allOf_nil⟩, .one rfl⟩
  case h_17 =>
    exact makes_initially fun init _ hinit ginit => makes_optional fun x _ hx gx cs _ hcs _ =>
      ⟨.node hm ((hinit.inline hx).append hcs) rfl (fun _ => rfl) ⟨gx, ginit, allOf_nil⟩, .one rfl⟩
  case h_18 => exact trivial

lemma makes_names {k : List Ident → Plan α} (j : Nat)
    (h : ∀ is c', Entered lined L c c' (inline (is.map .ident)) →
    Makes L lined (k is) c' Q) : Makes L lined (.names j k) c Q := by
  induction j generalizing c k with
  | zero => exact h [] c (entered_nil c)
  | succ j ih => exact fun i _ hi _ => ih fun is c' his => h (i :: is) c' (hi.append his)

lemma makes_namesThenType (j : Nat) : Makes L lined (.namesThenType j) c fun f c' =>
    Entered lined L c c' [⟨false, .field f⟩] :=
  fun _ _ hm => makes_names _ fun _ _ his _ _ ht gt => .node hm (his.inline ht) rfl (fun _ => rfl)
    ⟨gt, allOf_nil, allOf_nil⟩

lemma makes_clause (tag : String) :
    Makes L lined (Plan.clause tag) c fun cl c' => Stands lined L c c' (.clause cl) := by
  intro m c' hm
  split
  · exact fun ns _ hns gns => .node hm hns rfl (fun _ => rfl) ⟨allOf_nil, gns, allOf_nil⟩
  · split
    · exact fun xs _ hxs gxs ns _ hns gns => .node hm (hxs.append hns) rfl
        (fun _ => rfl) ⟨gxs, gns, allOf_nil⟩
    · exact trivial

lemma makes_block {f : Block → α} (tag : String)
    (h : ∀ b c', Stands lined L c c' (.block b) → Q (f b) c') :
    Makes L lined (Plan.block f tag) c Q := by
  rw [Plan.block]
  split
  · exact makes_body h
  · exact trivial

lemma makes_member (ls : List Look) : Makes L lined (Plan.member ls) c fun f c' =>
    Entered lined L c c' [⟨false, .field f⟩] := by
  rw [Plan.member]
  split
  · exact fun m _ hm t _ ht gt => .node hm ht rfl (fun _ => rfl) ⟨gt, allOf_nil, allOf_nil⟩
  · split
    · exact trivial
    · exact makes_namesThenType _

lemma makes_headed {p : String → List Look → Plan α}
    (h : ∀ tag args, Makes L lined (p tag args) c Q) (ls : List Look) :
    Makes L lined (.headed p ls) c Q := by
  match ls with
  | [] | .tagged _ :: _ | .other :: _ => exact trivial
  | .symbol tag :: args => exact h tag args

/-- What is known of what is made of a form, when the line is reached that it begins on. -/
structure Sound (L : Prop) (lined : List (Role × Form)) (c c' : Cursor) (ρ : Role) (v : ρ.Made) :
    Prop where
  entered : Entered lined L c c' (bareRows ρ v)
  line : ∀ n ∈ nodesOf ρ v, n.loc.line = c.line
  good : Good ρ v

lemma makes_headItem (tag : String) :
    Makes L lined (Plan.headItem tag) c fun v c' => Sound L lined c c' .item v := by
  have hdecl : ∀ {c' n}, Stands lined L c c' n → AllOf isDeclaration [n] →
      Sound L lined c c' .item (.decl n) :=
    fun h hn => ⟨h.entered, forall_mem_singleton.mpr h.line, hn⟩
  have htype : ∀ isAlias, Makes L lined (Plan.headItem.declareType isAlias) c fun v c' =>
      Sound L lined c c' .item v :=
    fun isAlias m _ hm i _ hi _ t _ ht gt =>
      hdecl (.node hm (hi.append ht) rfl (fun _ => rfl) ⟨gt, allOf_nil, allOf_nil⟩) (.one rfl)
  rw [Plan.headItem.eq_def]
  split
  case h_1 =>
    exact fun i _ hi _ => ⟨hi, hi.on (forall_mem_singleton.mpr ⟨rfl, rfl⟩), trivial⟩
  case h_2 =>
    exact fun specs _ hspecs _ =>
      ⟨hspecs, hspecs.on (forall_mem_map.mpr fun _ _ => ⟨rfl, rfl⟩), trivial⟩
  case h_3 => exact htype false
  case h_4 => exact htype true
  case h_5 => exact fun m _ hm => makes_vars hm fun n _ hn _ gn => hdecl hn gn
  case h_6 =>
    exact fun m _ hm i _ hi _ => makes_funcType fun t _ ht => makes_body fun b _ hb =>
      hdecl (.node hm ((hi.append ht).append hb.entered) rfl (fun _ => rfl)
        ⟨allOf_nil, allOf_nil, allOf_nil⟩) (.one rfl)
  case h_7 => exact trivial

lemma makes_element (tag : String) (args : List Look) :
    Makes L lined (Plan.element tag args) c fun n c' => Entered lined L c c' [⟨false, n⟩] ∧
    AllOf isOperand [n] := by
  rw [Plan.element]
  split
  · exact fun m _ hm x _ hx gx y _ hy gy =>
      ⟨.node hm (hx.append hy) rfl (fun _ => rfl) ⟨gx.append gy, allOf_nil, allOf_nil⟩, .one rfl⟩
  · exact makes_expr tag args

/-- **What the plan of a list makes.** -/
lemma makes_plan (ρ : Role) (ls : List Look) :
    Makes L lined (plan ρ ls) c fun v c' => Sound L lined c c' ρ v := by
  have hstmt : ∀ tag args, Makes L lined (Plan.stmt tag args) c fun n c' => Stands lined L c c' n ∧
      AllOf isStatement [n] :=
    fun tag args _ _ hm => makes_headStmt tag args hm
  cases ρ with
  | item => exact makes_headed (fun tag _ => makes_headItem tag) ls
  | stmt =>
    exact (makes_headed hstmt ls).mono fun n _ h =>
      ⟨h.1.entered, forall_mem_singleton.mpr h.1.line, h.2⟩
  | inline => exact (makes_headed hstmt ls).mono fun n _ h => ⟨h.1.entered, forall_mem_nil _, h.2⟩
  | clause =>
    exact (makes_headed (fun tag _ => makes_clause tag) ls).mono fun cl _ h =>
      ⟨h.entered, forall_mem_singleton.mpr h.line, trivial⟩
  | alternative =>
    refine makes_headed (fun tag args => ?_) ls
    rw [Plan.alternative]
    split
    · exact (hstmt tag args).mono fun n _ h => ⟨h.1.entered, forall_mem_singleton.mpr h.1.line, h.2⟩
    · exact makes_block tag fun b _ hb => ⟨hb.entered, forall_mem_singleton.mpr hb.line, .one rfl⟩
  | block =>
    exact makes_headed
      (fun tag _ => makes_block tag fun b _ hb => ⟨hb.entered, forall_mem_nil _, trivial⟩) ls
  | init =>
    refine makes_headed (fun tag args => ?_) ls
    rw [Plan.init]
    split
    · exact fun n _ hn gn => ⟨hn, forall_mem_nil _, gn⟩
    · exact trivial
  | expr => exact (makes_headed makes_expr ls).mono fun n _ h => ⟨h.1, forall_mem_nil _, h.2⟩
  | element => exact (makes_headed makes_element ls).mono fun n _ h => ⟨h.1, forall_mem_nil _, h.2⟩
  | exprs least =>
    show Makes L lined (Plan.exprs least ls) c _
    rw [Plan.exprs]
    split
    · exact trivial
    · exact fun ns _ hns gns => ⟨hns, forall_mem_nil _, gns⟩
  | param => exact (makes_namesThenType _).mono fun f _ h => ⟨h, forall_mem_nil _, trivial⟩
  | params => exact fun fs _ hfs _ => ⟨hfs, forall_mem_nil _, trivial⟩
  | member => exact (makes_member ls).mono fun f _ h => ⟨h, forall_mem_nil _, trivial⟩
  | names => exact fun is _ his _ => ⟨his, forall_mem_nil _, trivial⟩
  | _ => exact trivial

/-- The last part of an `if` is an `if` exactly if it gets a line. -/
lemma makes_isIf (ls : List Look) :
    Makes L lined (plan .alternative ls) c fun n _ => n.isIf = Role.isLined .alternative ls := by
  match ls with
  | [] | .tagged _ :: _ | .other :: _ => exact trivial
  | .symbol tag :: args =>
    show Makes L lined (Plan.alternative tag args) c _
    rw [Plan.alternative]
    split
    next htag =>
      subst htag
      intro m c' _
      show Makes L lined (.initially args fun init => .branch m init _) c' _
      refine makes_initially fun init _ _ _ => ?_
      rw [Plan.branch]
      split
      · exact fun _ _ _ _ _ _ _ _ _ _ _ _ => rfl
      · split
        · exact fun _ _ _ _ _ _ _ _ => rfl
        · exact trivial
    next htag =>
      have hlined : Role.isLined .alternative (.symbol tag :: args) =
        false := by simpa [Role.isLined] using htag
      exact makes_block tag fun b _ _ => hlined.symm

end Entered

/-! ## Numbers of lines -/

/-- The messages that a list ends with are those of its annotation. -/
lemma wantsOf_eq (forms : List Form) : wantsOf forms =
    if isAnnotated (forms.map look) then (forms.getLast?.map messages).getD [] else [] := by
  by_cases hann : isAnnotated (forms.map look) = true
  · obtain ⟨front, notes, hfront, rfl⟩ := exists_annotation hann
    rw [if_pos hann, wantsOf, getLast?_concat, length_append, length_singleton]
    have hlength : ¬(front.length + 1 < 2) := by
      have := length_pos_iff.mpr hfront
      omega
    simp [hlength, Form.isSymbol]
    rfl
  · rw [if_neg hann, wantsOf]
    split
    next head notes hlast =>
      split
      · rfl
      next h =>
        simp only [Bool.or_eq_true, decide_eq_true_eq, Bool.not_eq_true', not_or, Nat.not_lt,
          Bool.not_eq_false] at h
        refine absurd ?_ hann
        rw [isAnnotated, length_map, getLast?_map, hlast, form_of_look (isSymbol_iff.mp h.2)]
        simpa [look] using h.1
    next => rfl

lemma lead_eq (ρ : Role) (forms : List Form) :
    lead ρ forms = if ρ.isLined (forms.map look) then .line ::
      (wantsOf forms).map .want else [] := by
  rw [lead, wantsOf_eq, apply_ite (map Sign.want)]
  rfl

/-- What is written down for forms with lines of their own. -/
def signsOf (lined : List (Role × Form)) : List Sign :=
  lined.flatMap fun p => .line :: p.2.wants.map .want

lemma signsOf_append (lined lined' : List (Role × Form)) :
    signsOf (lined ++ lined') = signsOf lined ++ signsOf lined' :=
  flatMap_append

mutual

/-- **The script of a form is that of the forms that get a line.** -/
lemma script_lined : (form : Form) → (ρ : Role) → {es : List Sign} → script form ρ = some es →
    es = signsOf (linedForms form ρ)
  | .list forms, ρ, es, h => by
    rw [script, lead_eq] at h
    obtain ⟨_, ⟨⟩, hrest⟩ := Option.bind_eq_some_iff.mp h
    obtain ⟨es', hall, rfl⟩ := Option.map_eq_some_iff.mp hrest
    obtain ⟨roles, hroles, hes'⟩ := Option.bind_eq_some_iff.mp hall
    rw [linedForms, hroles, Option.map_some, Option.getD_some, signsOf_append,
      ← scriptAll_lined forms roles hes']
    split
    · exact congrArg (· ++ es') (append_nil _).symm
    · rfl
  | .symbol _, _, _, h | .text _, _, _, h | .integer _, _, _, h | .real _, _, _, h
  | .quoted _, _, _, h | .brackets _, _, _, h => by
    rw [script, accepted] at h
    split at h
    · exact (Option.some_inj.mp h).symm
    · cases h

lemma scriptAll_lined : (forms : List Form) → (ρs : List Role) → {es : List Sign} →
    scriptAll forms ρs = some es →
    es = signsOf (linedAll forms ρs)
  | [], [], es, h => (Option.some_inj.mp h).symm
  | form :: forms, ρ :: ρs, es, h => by
    rw [scriptAll] at h
    obtain ⟨es₁, h₁, h⟩ := Option.bind_eq_some_iff.mp h
    obtain ⟨es₂, h₂, rfl⟩ := Option.map_eq_some_iff.mp h
    rw [linedAll, signsOf_append, ← script_lined form ρ h₁, ← scriptAll_lined forms ρs h₂]
  | [], _ :: _, es, h => nomatch h
  | _ :: _, [], es, h => nomatch h

end

lemma lineCount_signsOf (lined : List (Role × Form)) :
    lineCount (signsOf lined) = lined.length := by
  induction lined with
  | nil => rfl
  | cons p lined ih =>
    have hwants : (p.2.wants.map Sign.want).count .line = 0 := count_eq_zero.mpr (by simp)
    rw [signsOf, flatMap_cons, lineCount, cons_append, count_cons_self,
      count_append, hwants, Nat.zero_add]
    exact congrArg (· + 1) ih

variable {c c' : Cursor} {ρ : Role}

lemma Follows.of_ok {α : Type} {x : Build α} {s : Script} {v : α} (h : Follows x s)
    (hrun : x.run c = .ok (v, c')) :
    ∃ es, s = some es ∧ Played es c c' := by
  cases s with
  | none =>
    obtain ⟨e, he⟩ := h c
    rw [hrun] at he
    cases he
  | some es =>
    obtain ⟨w, c₁, hw, hplayed⟩ := h c
    rw [hrun] at hw
    cases hw
    exact ⟨es, rfl, hplayed⟩

/-- Reading a form does what is written down for the forms with lines in it. -/
lemma played_read {form : Form} {v : ρ.Made} (hρ : ρ.isRead = true)
    (hrun : (read ρ form).run c = .ok (v, c')) :
    Played (signsOf (linedForms form ρ)) c c' := by
  obtain ⟨es, hes, hplayed⟩ := (follows_read form ρ hρ).of_ok hrun
  exact script_lined form ρ hes ▸ hplayed

/-! ## Reading a form -/

variable {lined : List (Role × Form)} {L : Prop} {form : Form} {forms : List Form} {ρs : List Role}

/-- Wherever a form is read in a role, what is made of it has been laid out. -/
def Reads (L : Prop) (lined : List (Role × Form)) (form : Form) (ρ : Role) : Prop :=
  ∀ c v c', (read ρ form).run c = .ok (v, c') → linedForms form ρ <+: lined.drop c.line →
    Entered lined L c c' (rowsOf ρ v) ∧ Good ρ v

/-- The forms with lines in what is read next come next. -/
lemma drop_read {v : ρ.Made} (hρ : ρ.isRead = true) (hrun : (read ρ form).run c = .ok (v, c'))
    {rest : List (Role × Form)} (h : linedForms form ρ ++ rest <+: lined.drop c.line) :
    linedForms form ρ <+: lined.drop c.line ∧ rest <+: lined.drop c'.line := by
  refine ⟨(prefix_append _ _).trans h, ?_⟩
  have hline := (played_read hρ hrun).line
  rw [lineCount_signsOf] at hline
  rw [hline, ← drop_drop]
  obtain ⟨back, hback⟩ := h
  rw [← hback, append_assoc, drop_left]
  exact prefix_append _ _

lemma entered_all (hρ : ρ.isRead = true) (hforms : ∀ form ∈ forms, Reads L lined form ρ)
    {vs : List ρ.Made} (hrun : (forms.mapM (read ρ)).run c = .ok (vs, c'))
    (hlined : linedAll forms (replicate forms.length ρ) <+: lined.drop c.line) :
    Entered lined L c c' (rowsAll ρ vs) ∧ GoodAll ρ vs := by
  induction forms generalizing c vs with
  | nil =>
    cases hrun
    refine ⟨?_, goodAll_nil ρ⟩
    cases ρ with
    | _ => exact entered_nil _
  | cons form forms ih =>
    rw [mapM_cons] at hrun
    obtain ⟨v, c₁, hv, hrest⟩ := run_bind_ok hrun
    obtain ⟨vs', c₂, hvs, hpure⟩ := run_bind_ok hrest
    cases hpure
    obtain ⟨hfirst, hrest⟩ := drop_read hρ hv hlined
    obtain ⟨hentered, hgood⟩ := hforms form mem_cons_self c v c₁ hv hfirst
    obtain ⟨hentered', hgood'⟩ := ih (forall_mem_cons.mp hforms).2 hvs hrest
    exact ⟨rowsAll_cons ρ v vs' ▸ hentered.append hentered', goodAll_cons hgood hgood'⟩

/-- **What a plan makes of forms that are laid out.** -/
lemma entered_run {α : Type} {p : Plan α} {ls : List Look} {roles : Option (List Role)}
    (h : Takes p ls roles) (hls : forms.map look = ls) (hroles : roles = some ρs)
    (hforms : ∀ form ∈ forms, ∀ ρ, ρ.isPart = true → Reads L lined form ρ)
    {Q : α → Cursor → Prop} (hmakes : Makes L lined p c Q) {v : α}
    (hrun : (p.run forms).run c = .ok (v, c'))
    (hlined : linedAll forms ρs <+: lined.drop c.line) : Q v c' := by
  induction h generalizing forms c ρs with
  | refuse => cases hroles
  | give =>
    cases hrun
    exact hmakes
  | place _ ih =>
    obtain ⟨m, c₁, hm, hrun⟩ := run_bind_ok hrun
    have hline : c₁.line = c.line := by
      cases hm
      rfl
    exact ih m hls hroles hforms (hmakes m c₁ hm) hrun (hline ▸ hlined)
  | skip _ ih =>
    obtain ⟨form, forms, rfl, hl, hls⟩ := map_eq_cons_iff.mp hls
    obtain ⟨ρs, hρs, rfl⟩ := Option.map_eq_some_iff.mp hroles
    rw [form_of_look hl] at hlined
    exact ih hls hρs (forall_mem_cons.mp hforms).2 hmakes hrun hlined
  | blank hρ _ ih =>
    obtain ⟨form, forms, rfl, hl, hls⟩ := map_eq_cons_iff.mp hls
    obtain ⟨ρs, hρs, rfl⟩ := Option.map_eq_some_iff.mp hroles
    rw [Plan.run, if_pos (by simpa [Form.isBlank, isSymbol_iff] using hl)] at hrun
    rw [form_of_look hl] at hlined
    exact ih hls hρs (forall_mem_cons.mp hforms).2 hmakes.1 hrun hlined
  | other hne _ ih =>
    rw [Plan.run, if_neg (head_isBlank (hls ▸ hne))] at hrun
    exact ih hls hroles hforms hmakes.2 hrun hlined
  | part hρ _ ih =>
    obtain ⟨form, forms, rfl, -, hls⟩ := map_eq_cons_iff.mp hls
    obtain ⟨ρs, hρs, rfl⟩ := Option.map_eq_some_iff.mp hroles
    obtain ⟨w, c₁, hw, hrun⟩ := run_bind_ok hrun
    obtain ⟨hfirst, hrest⟩ := drop_read (Role.isRead_of_isPart hρ) hw hlined
    obtain ⟨hentered, hgood⟩ := hforms form mem_cons_self _ hρ c w c₁ hw hfirst
    exact ih w hls hρs (forall_mem_cons.mp hforms).2 (hmakes w c₁ hentered hgood) hrun hrest
  | inline hne _ ih =>
    obtain ⟨form, forms, rfl, -, hls⟩ := map_eq_cons_iff.mp hls
    obtain ⟨ρs, hρs, rfl⟩ := Option.map_eq_some_iff.mp hroles
    obtain ⟨w, c₁, hw, hrun⟩ := run_bind_ok hrun
    have hsame : linedForms form .optionalInline = linedForms form .inline := by
      cases form with
      | _ => rfl
    rw [linedAll, hsame] at hlined
    obtain ⟨hfirst, hrest⟩ := drop_read (ρ := .inline) rfl hw hlined
    obtain ⟨hentered, hgood⟩ := hforms form mem_cons_self .inline rfl c w c₁ hw hfirst
    exact ih w hls hρs (forall_mem_cons.mp hforms).2 (hmakes w c₁ hentered hgood) hrun hrest
  | short => cases hroles
  | all hρ =>
    obtain ⟨vs, c₁, hvs, hrun⟩ := run_bind_ok hrun
    cases hrun
    cases hroles
    rw [← hls, length_map] at hlined
    obtain ⟨hentered, hgood⟩ :=
      entered_all (Role.isRead_of_isPart hρ) (fun form hform => hforms form hform _ hρ) hvs hlined
    exact hmakes vs _ hentered hgood

/-! ## Forms that get a line -/

lemma note_run {u : Unit} (h : (note forms).run c = .ok (u, c')) :
    ∃ expectations, c' = { c with expectations } := by
  have hall : ∀ (notes : List Form) {c : Cursor}, (notes.forM fun
      | .text message => expect message
      | got =>
        refuse (.wantText got)).run c = .ok (u, c') →
            ∃ expectations, c' = { c with expectations } := by
    intro notes
    induction notes with
    | nil =>
      rintro c ⟨⟩
      exact ⟨_, rfl⟩
    | cons form notes ih =>
      intro c h
      obtain ⟨_, c₁, hfirst, hrest⟩ := run_bind_ok h
      obtain ⟨expectations, rfl⟩ := ih hrest
      cases form with
      | text message =>
        cases hfirst
        exact ⟨_, rfl⟩
      | _ => cases hfirst
  rw [note.eq_def] at h
  split at h
  · exact hall _ h
  · cases h
    exact ⟨_, rfl⟩

lemma linedAll_prefix (front back : List Form) (ρs σs : List Role) :
    linedAll front ρs <+: linedAll (front ++ back) (ρs ++ σs) := by
  induction front generalizing ρs with
  | nil => exact nil_prefix
  | cons form front ih =>
    cases ρs with
    | nil => exact nil_prefix
    | cons ρ ρs => exact prefix_append_right_inj _ |>.mpr (ih ρs)

/-- The items of a list that gets a line, and its annotation. -/
structure Parted (ρ : Role) (forms : List Form) (roles roles' : List Role) (rest : List Form)
    (back : List Role) : Prop where
  items : forms = bare forms ++ rest
  split : roles = roles' ++ back
  length : (bare forms).length = roles'.length
  length_rest : rest.length = if isAnnotated (forms.map look) then 1 else 0
  parts : ρ.bareParts ((bare forms).map look) = some roles'
  lined : ρ.isLined ((bare forms).map look) = ρ.isLined (forms.map look)

lemma exists_parted {roles : List Role} (hlined : ρ.isLined (forms.map look) = true)
    (h : ρ.parts (forms.map look) = some roles) :
    ∃ roles' rest back, Parted ρ forms roles roles' rest back := by
  rw [parts_lined hlined, annotatedRoles] at h
  by_cases hann : isAnnotated (forms.map look) = true
  · obtain ⟨front, notes, hfront, rfl⟩ := exists_annotation hann
    have hbare : bare (front ++ [.list (.symbol "want" :: notes)]) =
      front := by rw [bare, if_pos hann, dropLast_concat]
    rw [if_pos hann, map_append, map_singleton, dropLast_concat] at h
    obtain ⟨roles', h', rfl⟩ := Option.map_eq_some_iff.mp h
    refine ⟨roles', _, _, by rw [hbare], rfl, ?_, by rw [if_pos hann]; rfl, by rwa [hbare], ?_⟩
    · rw [hbare, length_bareParts hlined h', length_map]
    · rw [hbare]
      obtain ⟨first, front, rfl⟩ := exists_cons_of_ne_nil hfront
      cases ρ with
      | _ => rfl
  · have hbare : bare forms = forms := by rw [bare, if_neg hann]
    rw [if_neg hann] at h
    refine ⟨roles, [], [], by rw [hbare, append_nil], (append_nil _).symm,
      ?_, by rw [if_neg hann]; rfl, ?_, by rw [hbare]⟩
    · rw [hbare, length_bareParts hlined h, length_map]
    · rwa [hbare]

/-- The items of a list that is accepted have roles. -/
lemma exists_parts (hρ : ρ.isRead = true) {v : ρ.Made}
    (hrun : (read ρ (.list forms)).run c = .ok (v, c')) :
    ∃ roles, ρ.parts (forms.map look) = some roles := by
  obtain ⟨es, hes, -⟩ := (follows_read (.list forms) ρ hρ).of_ok hrun
  rw [script] at hes
  obtain ⟨_, ⟨⟩, hes⟩ := Option.bind_eq_some_iff.mp hes
  obtain ⟨es', hes', -⟩ := Option.map_eq_some_iff.mp hes
  obtain ⟨roles, hroles, -⟩ := Option.bind_eq_some_iff.mp hes'
  exact ⟨roles, hroles⟩

/-- **What is made of a list**, when the line is reached that it begins on. -/
lemma begun_list (hρ : ρ.isRead = true)
    (hforms : ∀ form ∈ forms, ∀ ρ, ρ.isPart = true → Reads L lined form ρ)
    {Q : Cursor → ρ.Made → Cursor → Prop}
    (hmakes : ∀ c ls, ρ.isLined ls = ρ.isLined (forms.map look) → Makes L lined (plan ρ ls) c (Q c))
    {v : ρ.Made} (hrun : (read ρ (.list forms)).run c = .ok (v, c'))
    (hlined : linedForms (.list forms) ρ <+: lined.drop c.line) :
    ∃ c₁ : Cursor, c₁.file = c.file ∧
    c₁.spot = (if ρ.isLined (forms.map look) then c.spot.newLine else c.spot) ∧
      Q c₁ v c' := by
  obtain ⟨roles, hroles⟩ := exists_parts hρ hrun
  have hplanned := (read_list ρ forms).ok_iff.mp hrun
  rw [linedForms, hroles, Option.map_some, Option.getD_some] at hlined
  rw [planned] at hplanned
  by_cases h : ρ.isLined (forms.map look) = true
  · rw [if_pos h] at hplanned hlined ⊢
    obtain ⟨roles', rest, back, hparted⟩ := exists_parted h hroles
    obtain ⟨_, c₁, hnext, hplanned⟩ := run_bind_ok hplanned
    obtain ⟨_, c₂, hnote, hplanned⟩ := run_bind_ok hplanned
    cases hnext
    obtain ⟨expectations, rfl⟩ := note_run hnote
    have hrest : linedAll (bare forms) roles' <+: lined.drop (c.line + 1) := by
      obtain ⟨back', hback⟩ := hlined
      rw [← drop_drop, ← hback, hparted.split]
      refine IsPrefix.trans ?_ (prefix_append _ _)
      nth_rewrite 2 [hparted.items]
      exact linedAll_prefix _ _ _ _
    refine ⟨{ c with line := c.line + 1, column := 0, expectations }, rfl, rfl, ?_⟩
    refine entered_run (takes_plan hρ _) rfl hparted.parts (fun form hform => hforms form ?_)
      (hmakes _ _ hparted.lined) hplanned hrest
    rw [hparted.items]
    exact mem_append_left _ hform
  · rw [if_neg h] at hplanned hlined ⊢
    rw [parts_unlined (Bool.eq_false_iff.mpr h)] at hroles
    exact ⟨c, rfl, rfl, entered_run (takes_plan hρ _) rfl hroles hforms
      (hmakes _ _ rfl) hplanned hlined⟩

/-- What is made of a form stands in a row of its own if the form gets a line. -/
def Own (own : Bool) (ρ : Role) (v : ρ.Made) : Prop :=
  if own then ∃ n, bareRows ρ v = [⟨false, n⟩] ∧ rowsOf ρ v = [⟨true, n⟩] ∧
    nodesOf ρ v = [n] else rowsOf ρ v = bareRows ρ v

lemma makes_own (hρ : ρ.isPart = true) (ls : List Look) :
    Makes L lined (plan ρ ls) c fun v _ => Own (ρ.isLined ls) ρ v := by
  cases ρ with
  | item => cases hρ
  | alternative =>
    refine (makes_isIf ls).mono fun n _ hn => ?_
    rw [← hn, Own]
    split
    next h => exact ⟨n, rfl, by rw [rowsOf, h], rfl⟩
    next h => rw [rowsOf, Bool.not_eq_true _ |>.mp h, bareRows]
  | stmt => exact (makes_plan .stmt ls).mono fun n _ _ => ⟨n, rfl, rfl, rfl⟩
  | clause => exact (makes_plan .clause ls).mono fun cl _ _ => ⟨.clause cl, rfl, rfl, rfl⟩
  | _ => exact (makes_plan _ ls).mono fun _ _ _ => rfl

/-- What was made of a form that gets a line was built from it. -/
lemma built_list {v : ρ.Made} (h : ρ.isLined (forms.map look) = true)
    (hrun : (read ρ (.list forms)).run c = .ok (v, c'))
    (hlined : linedForms (.list forms) ρ <+: lined.drop c.line)
    (hline : ∀ n ∈ nodesOf ρ v, n.loc.line = (c.line + 1 : Nat)) :
    Built lined c.line ρ (.list forms) v where
  form := by
    rw [linedForms, if_pos h] at hlined
    obtain ⟨back, hback⟩ := hlined
    rw [← Nat.add_zero c.line, ← getElem?_drop, ← hback]
    rfl
  run := ⟨c, c', rfl, hrun⟩
  line := hline

lemma reads_list (hρ : ρ.isPart = true)
    (hforms : ∀ form ∈ forms, ∀ ρ, ρ.isPart = true → Reads L lined form ρ) :
    Reads L lined (.list forms) ρ := by
  intro c v c' hrun hlined
  obtain ⟨c₁, hfile, hspot, hsound, hown⟩ := begun_list (Role.isRead_of_isPart hρ) hforms
    (Q := fun c v c' => Sound L lined c c' ρ v ∧ Own (ρ.isLined (forms.map look)) ρ v)
    (fun c ls hls => (makes_plan ρ ls).both (makes_own hρ ls) fun v c' h h' => ⟨h, hls ▸ h'⟩)
    hrun hlined
  refine ⟨?_, hsound.good⟩
  rw [Own] at hown
  split at hown
  next h =>
    obtain ⟨n, hbare, hrows, hnodes⟩ := hown
    rw [if_pos h] at hspot
    have hline : c₁.line = c.line + 1 := congrArg Spot.line hspot
    rw [hrows]
    exact (hbare ▸ hsound.entered).own hfile hspot
      ⟨ρ, _, v, built_list h hrun hlined (hline ▸ hsound.line), hnodes⟩
  next h =>
    rw [if_neg h] at hspot
    rw [hown]
    exact hsound.entered.since hfile hspot

/-! ## Atoms -/

/-- What has no parts takes the next place. -/
lemma entered_place {α : Type} {make : Mark → α} (node : α → Node)
    (hnode : ∀ m, (node (make m)).mark = m)
    (hrows : ∀ m, (node (make m)).rows = []) (hfits : ∀ m, (node (make m)).Fits)
    (hlegible : L → ∀ m, (node (make m)).isLegible = true) {v : α}
    (hrun : (do return make (← place)).run c = .ok (v, c')) :
    Entered lined L c c' [⟨false, node v⟩] ∧ ∃ m, v = make m := by
  obtain ⟨m, c₁, hm, hpure⟩ := run_bind_ok hrun
  cases hpure
  exact ⟨.node hm (hrows m ▸ entered_nil _) (hnode m) (fun hL => hlegible hL m) (hfits m), m, rfl⟩

lemma entered_plainIdent {i : Ident} (hrun : (plainIdent form).run c = .ok (i, c')) :
    Entered lined L c c' [⟨false, .ident i⟩] := by
  obtain ⟨name, c₁, hname, hrun⟩ := run_bind_ok hrun
  cases form with
  | symbol =>
    cases hname
    split at hrun
    · cases hrun
    · exact (entered_place .ident (fun _ => rfl) (fun _ => rfl)
        (fun _ => ⟨allOf_nil, allOf_nil, allOf_nil⟩) (fun _ _ => rfl) hrun).1
  | _ => cases hname

/-- All parts of a name stand at the place of the name. -/
lemma entered_dottedName {name : String} {n : Node} (hrun : (dottedName name).run c = .ok (n, c')) :
    Entered lined L c c' [⟨false, n⟩] ∧ AllOf isOperand [n] := by
  obtain ⟨m, c₁, hm, hrun⟩ := run_bind_ok hrun
  have hselect : ∀ (parts : List String) (x : Node), Entered lined L c c₁ [⟨false, x⟩] ∧
    AllOf isOperand [x] →
      Entered lined L c c₁ [⟨false, parts.foldl (fun x part => .select m x ⟨m, part⟩) x⟩] ∧
        AllOf isOperand [parts.foldl (fun x part => .select m x ⟨m, part⟩) x] := by
    intro parts
    induction parts with
    | nil => exact fun _ hx => hx
    | cons part parts ih =>
      refine fun x hx =>
        ih _ ⟨⟨hx.1.file, ?_, fun i k hk => hx.1.built i k ?_, fun hL => ?_⟩, .one rfl⟩
      · cases hm
        exact .dotted hx.1.laid rfl rfl
      · rw [ownNodes_singleton] at hk
        change (ownNodes ([⟨false, x⟩] ++ [⟨false, .ident ⟨m, part⟩⟩]))[i]? = some k at hk
        have hident : ownNodes [⟨false, .ident ⟨m, part⟩⟩] = [] :=
          (ownNodes_singleton false _).trans ownNodes_nil
        rwa [ownNodes_append, hident, append_nil] at hk
      · refine forall_mem_singleton.mpr
          (Node.Fits.regular ⟨hx.2, allOf_nil, allOf_nil⟩ rfl (forall_mem_cons.mpr ⟨?_, ?_⟩))
        · exact hx.1.regular hL _ mem_cons_self
        · exact forall_mem_singleton.mpr
            (Node.Fits.regular ⟨allOf_nil, allOf_nil, allOf_nil⟩ rfl (forall_mem_nil _))
  split at hrun
  · cases hrun
  · split at hrun
    · cases hrun
    · cases hrun
      exact hselect _ _
        ⟨.node hm (entered_nil _) rfl (fun _ => rfl) ⟨allOf_nil, allOf_nil, allOf_nil⟩, .one rfl⟩

lemma entered_atom (hL : L → form.Legible) (hform : ∀ forms, form ≠ .list forms) {n : Node}
    (hrun : form.reading.expr.run c = .ok (n, c')) : Entered lined L c c' [⟨false, n⟩] ∧
    AllOf isOperand [n] := by
  have hliteral : ∀ {kind : LiteralKind} {value : String},
    (L → ∀ m, (Node.literal m kind value).isLegible = true) →
      (do return .literal (← place) kind value : Build Node).run c = .ok (n, c') →
      Entered lined L c c' [⟨false, n⟩] ∧ AllOf isOperand [n] := by
    intro kind value hvalue hrun
    obtain ⟨hentered, m, rfl⟩ :=
      entered_place id (fun _ => rfl) (fun _ => rfl)
        (fun _ => ⟨allOf_nil, allOf_nil, allOf_nil⟩) hvalue hrun
    exact ⟨hentered, .one rfl⟩
  cases form with
  | symbol name => exact entered_dottedName hrun
  | text => exact hliteral (fun _ _ => rfl) hrun
  | integer v =>
    refine hliteral (fun h m => ?_) hrun
    rw [Node.isLegible, Numeral.integer?, Numeral.readInteger_toString (hL h)]
    rfl
  | real => exact hliteral (fun _ _ => rfl) hrun
  | list forms => exact absurd rfl (hform forms)
  | quoted | brackets => cases hrun

lemma reads_atom (hL : L → form.Legible) (hform : ∀ forms, form ≠ .list forms)
    (hρ : ρ.isPart = true) : Reads L lined form ρ := by
  intro c v c' hrun _
  have hreading : form.reading = .ofAtom form form.reading.expr := by
    cases form with
    | list forms => exact absurd rfl (hform forms)
    | _ => rfl
  cases ρ with
  | item | optionalInline | trailer | message | keyword | ignored => cases hρ
  | expr => exact entered_atom hL hform hrun
  | element =>
    rw [read, hreading] at hrun
    exact entered_atom hL hform hrun
  | name => exact ⟨entered_plainIdent hrun, trivial⟩
  | names =>
    have hnames : namesOf form = List.singleton <$> plainIdent form := by
      cases form with
      | list forms => exact absurd rfl (hform forms)
      | _ => rfl
    rw [read, hnames, map_eq_pure_bind] at hrun
    obtain ⟨i, c₁, hi, hpure⟩ := run_bind_ok hrun
    cases hpure
    exact ⟨entered_plainIdent hi, trivial⟩
  | path =>
    cases form with
    | symbol | text =>
      exact ⟨(entered_place .importSpec (fun _ => rfl) (fun _ => rfl)
        (fun _ => ⟨allOf_nil, allOf_nil, allOf_nil⟩) (fun _ _ => rfl) hrun).1, trivial⟩
    | list forms => exact absurd rfl (hform forms)
    | _ => cases hrun
  | _ =>
    rw [read, hreading] at hrun
    cases hrun

/-- **What is made of a form has been laid out**, line by line. -/
theorem reads_form (form : Form) (hL : L → form.Legible) (ρ : Role) (hρ : ρ.isPart = true) :
    Reads L lined form ρ := by
  induction form using Form.induction generalizing ρ with
  | atom form hform => exact reads_atom hL hform hρ
  | list forms ih => exact reads_list hρ fun form hform => ih form hform fun h => (hL h).mem hform

/-! ## Top-level forms -/

/-- A declaration has been laid out on a line of its own, and is regular. -/
lemma sound_item {item : Item} (hL : L → form.Legible) (hrun : (itemOf form).run c = .ok (item, c'))
    (hlined : linedForms form .item <+: lined.drop c.line) :
    ∃ c₁ : Cursor, c₁.file = c.file ∧ c₁.spot = c.spot.newLine ∧
    Sound L lined c₁ c' .item item := by
  cases form with
  | list forms =>
    exact begun_list (ρ := .item) rfl (fun form hform => reads_form form fun h => (hL h).mem hform)
      (Q := fun c v c' => Sound L lined c c' .item v)
      (fun c ls _ => makes_plan .item ls) hrun hlined
  | _ => cases hrun

/-- Every form can be read at every line. -/
lemma exists_lined (line : Nat) (fs : List (Role × Form)) :
    ∃ lined : List (Role × Form), fs <+: lined.drop line :=
  ⟨replicate line (.item, .list []) ++ fs, by simp⟩

lemma good_items (hL : Form.AllLegible forms) {items : List Item}
    (hrun : (forms.mapM itemOf).run c = .ok (items, c')) :
    ∀ n, .decl n ∈ items → n.isDeclaration = true ∧ n.Regular := by
  induction forms generalizing c items with
  | nil =>
    cases hrun
    exact fun _ hn => absurd hn not_mem_nil
  | cons form forms ih =>
    rw [mapM_cons] at hrun
    obtain ⟨item, c₁, hitem, hrest⟩ := run_bind_ok hrun
    obtain ⟨items', c₂, hitems, hpure⟩ := run_bind_ok hrest
    cases hpure
    obtain ⟨lined, hlined⟩ := exists_lined c.line (linedForms form .item)
    obtain ⟨_, -, -, hsound⟩ := sound_item (L := True) (fun _ => hL.1) hitem hlined
    intro n hn
    rcases mem_cons.mp hn with rfl | hn
    · exact ⟨hsound.good n mem_cons_self, hsound.entered.regular trivial _ mem_cons_self⟩
    · exact ih hL.2 hitems n hn

/-- **What is built from a form that gets a line is on this line.** -/
lemma line_list (hρ : ρ.isRead = true) (h : ρ.isLined (forms.map look) = true) {v : ρ.Made}
    (hrun : (read ρ (.list forms)).run c = .ok (v, c')) :
    ∀ n ∈ nodesOf ρ v, n.loc.line = (c.line + 1 : Nat) := by
  obtain ⟨lined, hlined⟩ := exists_lined c.line (linedForms (.list forms) ρ)
  obtain ⟨c₁, -, hspot, hsound⟩ :=
    begun_list hρ (fun form _ => reads_form (L := False) form False.elim)
    (Q := fun c v c' => Sound False lined c c' ρ v) (fun c ls _ => makes_plan ρ ls) hrun hlined
  rw [if_pos h] at hspot
  have hline : c₁.line = c.line + 1 := congrArg Spot.line hspot
  exact hline ▸ hsound.line

end Surface

open Surface Node

lemma File.run_of_ofForms {file : String} {forms : List Form} {f : File}
    {expectations : List Expectation} (h : File.ofForms file forms = .ok (f, expectations)) :
    ∃ items c, (forms.mapM itemOf).run { file := file } = .ok (items, c) ∧
      f = File.ofItems file items ∧ expectations = c.expectations := by
  rw [File.ofForms] at h
  cases hrun : (forms.mapM itemOf).run { file := file } with
  | error e =>
    rw [hrun] at h
    cases h
  | ok p =>
    rw [hrun] at h
    cases h
    exact ⟨p.1, p.2, rfl, rfl, rfl⟩

lemma File.regular_ofForms {file : String} {forms : List Form} {f : File}
    {expectations : List Expectation}
    (hforms : Form.AllLegible forms) (h : File.ofForms file forms = .ok (f, expectations)) :
    f.Regular := by
  obtain ⟨items, c, hrun, rfl, -⟩ := File.run_of_ofForms h
  have hdecls : ∀ n ∈ (File.ofItems file items).decls, n.isDeclaration = true ∧ n.Regular := by
    intro n hn
    obtain ⟨item, hitem, heq⟩ := mem_filterMap.mp hn
    cases item with
    | decl m =>
      cases heq
      exact good_items hforms hrun n hitem
    | _ => cases heq
  refine Node.Fits.regular ⟨allOf_nil, allOf_nil, fun n hn => (hdecls n hn).1⟩ rfl ?_
  intro c hc
  rcases mem_append.mp hc with hc | hc
  · rcases mem_cons.mp hc with rfl | hc
    · exact Node.Fits.regular ⟨allOf_nil, allOf_nil, allOf_nil⟩ rfl (forall_mem_nil _)
    · obtain ⟨spec, -, rfl⟩ := mem_map.mp hc
      exact Node.Fits.regular ⟨allOf_nil, allOf_nil, allOf_nil⟩ rfl (forall_mem_nil _)
  · exact (hdecls c hc).2

/-- **Trees that are built are regular.** -/
lemma File.regular_ofText {file text : String} {f : File} {expectations : List Expectation}
    (h : File.ofText file text = .ok (f, expectations)) : f.Regular := by
  rw [File.ofText] at h
  split at h
  · rename_i forms hread
    exact File.regular_ofForms (Form.legible_of_read hread) h
  · cases h

end Recast
