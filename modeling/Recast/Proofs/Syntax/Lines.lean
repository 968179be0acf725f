import Mathlib.Data.List.Pairwise
import Recast.Proofs.Surface.Placing
import Recast.Proofs.Syntax.Preorder

/-!
# Lines of a unit

The lines of the nodes of a unit that was read from a description.

**Declarations** are laid out one after another, each on a line of its own, and a statement, a
clause or a declaration has its annotation recorded with its line.

**Terms** do not have lines of their own.  A term is on the line of the statement, clause or
declaration that holds it, but only as long as nothing with a line of its own comes between: the
statements of a function literal move what stands behind them in the same statement down.
`File.Counted` says by how much.

* `File.laid_ofText` — the declarations of a unit are laid out one after another.
* `annotated_stmt`, `annotated_clause`, `annotated_decl` — the messages that a form ends with are
  recorded with the line of its node.
* `File.counted_ofText` — the line of a term, counted from the line of what holds it.
-/

namespace Recast

open List
open Build Surface

/-! ## Whole units -/

/-- Declarations that have been laid out one after another, each on a line of its own. -/
inductive LaidApart (file : String) : Spot → List Node → Prop
  | nil (p : Spot) : LaidApart file p []
  | cons {p p' q : Spot} {d : Node} {ds : List Node} :
      p.UpTo p' → Laid file p' q [⟨true, d⟩] → LaidApart file q ds → LaidApart file p (d :: ds)

lemma LaidApart.widen {file : String} {p p' : Spot} {ds : List Node}
    (h : LaidApart file p ds) (hp : p'.UpTo p) :
    LaidApart file p' ds := by
  cases h with
  | nil => exact .nil p'
  | cons hgap hd hds => exact .cons (hp.trans hgap) hd hds

lemma LaidApart.numbered {file : String} {p : Spot} {ds : List Node}
    (h : LaidApart file p ds) (k : Nat) :
    LaidApart file p (numberNodes ds k).1 := by
  induction h generalizing k with
  | nil p => exact .nil p
  | cons hgap hd _ ih => exact .cons hgap (hd.numbered k) (ih _)

lemma LaidApart.laid_of_mem {file : String} {p : Spot} {d : Node} {ds : List Node}
    (h : LaidApart file p ds) (hd : d ∈ ds) :
    ∃ p' q, Laid file p' q [⟨true, d⟩] := by
  induction h with
  | nil => cases hd
  | cons _ hfirst _ ih =>
    rcases mem_cons.mp hd with rfl | hd
    · exact ⟨_, _, hfirst⟩
    · exact ih hd

/-- A top-level form stays in the file and goes on from the spot where it begins; a declaration has
a line of its own. -/
lemma itemOf_laid {form : Form} {c c' : Cursor} {item : Item}
    (h : (itemOf form).run c = .ok (item, c')) :
    c'.file = c.file ∧ c.spot.UpTo c'.spot ∧ ∀ n, item = .decl n →
      Laid c.file c.spot c'.spot [⟨true, n⟩] := by
  obtain ⟨lined, hlined⟩ := exists_lined c.line (linedForms form .item)
  obtain ⟨c₁, hfile, hspot, ⟨hfile', hlaid, -⟩, -, -⟩ := sound_item (L := False) False.elim h hlined
  rw [hfile, hspot] at hlaid
  refine ⟨hfile'.trans hfile, c.spot.upTo_newLine.trans hlaid.upTo, ?_⟩
  rintro n rfl
  exact .line hlaid

lemma laid_items {forms : List Form} {c c' : Cursor} {items : List Item}
    (h : (forms.mapM itemOf).run c = .ok (items, c')) :
    LaidApart c.file c.spot (items.filterMap fun | .decl n => some n | _ => none) := by
  induction forms generalizing c items with
  | nil =>
    cases h
    exact .nil _
  | cons form forms ih =>
    rw [mapM_cons] at h
    obtain ⟨item, c₁, hitem, hrest⟩ := run_bind_ok h
    obtain ⟨items', c₂, hitems, hpure⟩ := run_bind_ok hrest
    cases hpure
    obtain ⟨hfile, hspot, hdecl⟩ := itemOf_laid hitem
    have hds := ih hitems
    rw [hfile] at hds
    cases item with
    | decl n => exact .cons (.refl _) (hdecl n rfl) hds
    | _ => exact hds.widen hspot

/-- **The declarations of a unit are laid out one after another.** -/
theorem File.laid_ofText {file text : String} {f : File} {expectations : List Expectation}
    (h : File.ofText file text = .ok (f, expectations)) : LaidApart file ⟨0, 0⟩ f.decls := by
  rw [File.ofText] at h
  split at h
  · rename_i forms _
    obtain ⟨items, c, hrun, rfl, -⟩ := File.run_of_ofForms h
    exact laid_items hrun
  · cases h

/-! ## Annotations -/

/-- **The messages that a form ends with are recorded with the line of its node**, behind those that
were there before. -/
def Annotated (form : Form) (c : Cursor) (n : Node) (c' : Cursor) : Prop :=
  ∃ line : Nat, n.loc.line = line ∧
    c.expectations ++ form.wants.map (⟨c.file, line, ·⟩) <+: c'.expectations

/-- What is read from a form that gets a line has its annotation recorded with this line. -/
lemma annotated_list {ρ : Role} {forms : List Form} {c c' : Cursor} {v : ρ.Made}
    (hρ : ρ.isRead = true)
    (hlined : ρ.isLined (forms.map look) = true) (h : (read ρ (.list forms)).run c = .ok (v, c')) :
    ∀ n ∈ nodesOf ρ v, Annotated (.list forms) c n c' := by
  refine fun n hn => ⟨c.line + 1, line_list hρ hlined h n hn, ?_⟩
  rw [(played_read hρ h).expectations, linedForms, if_pos hlined, signsOf_append,
    signsOf, flatMap_singleton, cons_append, noted, noted_wants, ← append_assoc]
  exact prefix_append _ _

lemma annotated_stmt {form : Form} {c c' : Cursor} {n : Node}
    (h : form.reading.stmt.run c = .ok (n, c')) :
    Annotated form c n c' := by
  cases form with
  | list forms => exact annotated_list (ρ := .stmt) rfl rfl h n (mem_singleton_self n)
  | _ => cases h

lemma annotated_clause {form : Form} {c c' : Cursor} {clause : Clause}
    (h : form.reading.clause.run c = .ok (clause, c')) :
    Annotated form c (.clause clause) c' := by
  cases form with
  | list forms => exact annotated_list (ρ := .clause) rfl rfl h _ (mem_singleton_self _)
  | _ => cases h

lemma annotated_decl {form : Form} {c c' : Cursor} {n : Node}
    (h : (itemOf form).run c = .ok (.decl n, c')) :
    Annotated form c n c' := by
  cases form with
  | list forms => exact annotated_list (ρ := .item) rfl rfl h n (mem_singleton_self n)
  | _ => cases h

/-! ## Terms and what holds them -/

/-- What can hold a term: a statement, a clause or a declaration. -/
def Node.isHolder (n : Node) : Bool := n.isAction || n.isDeclaration

lemma Node.isParen_of_isHolder {n : Node} (h : n.isHolder = true) : n.isParen = false := by
  cases n with
  | paren => cases h
  | _ => rfl

lemma Node.isHolder_of_isTerm {n : Node} (h : n.isTerm = true) : n.isHolder = false := by
  cases n with
  | _ => first | rfl | cases h

/-- Behind a row come the rows below it. -/
lemma unroll_split {r : Row} {rows : List Row} (h : r ∈ unroll rows) :
    ∃ front back, unroll rows = front ++ (r :: unroll r.node.rows) ++ back := by
  induction rows using unroll.induct with
  | case1 =>
    rw [unroll] at h
    exact absurd h not_mem_nil
  | case2 first rows ih =>
    rw [unroll] at h ⊢
    rcases mem_cons.mp h with rfl | h
    · exact ⟨[], unroll rows, by rw [unroll_append, nil_append, cons_append]⟩
    · obtain ⟨front, back, heq⟩ := ih h
      exact ⟨first :: front, back, by rw [heq, cons_append, cons_append]⟩

lemma exists_row (rows : List Row) {n : Node} (h : n ∈ preorderAll (rows.map Row.node)) :
    ∃ r ∈ unroll rows, r.node = n := by
  rw [← map_node_unroll] at h
  exact mem_map.mp h

/-- **Only what can hold a term has a line of its own**, in a regular tree. -/
lemma Node.isHolder_of_own {n : Node} (hn : n.Regular) : ∀ r ∈ n.rows, r.own = true →
    r.node.isHolder = true := by
  have hstmts : ∀ {ns : List Node}, ns.all isStatement = true → ∀ r ∈ separate ns, r.own = true →
      r.node.isHolder = true := by
    intro ns hns r hr _
    obtain ⟨n, hn, rfl⟩ := mem_map.mp hr
    show (n.isAction || n.isDeclaration) = true
    rw [isAction_of_isStatement (all_eq_true.mp hns n hn), Bool.true_or]
  have hinline : ∀ ns : List Node, ∀ r ∈ inline ns, r.own = true → r.node.isHolder = true := by
    intro ns r hr hown
    obtain ⟨n, _, rfl⟩ := mem_map.mp hr
    cases hown
  have hproper := hn.proper
  cases n with
  | block b =>
    obtain ⟨m, stmts⟩ := b
    exact hstmts hproper
  | ifStmt m init cond body orElse =>
    intro r hr hown
    rcases mem_append.mp hr with hr | hr
    · exact hinline _ r hr hown
    · obtain ⟨n, _, rfl⟩ := mem_map.mp hr
      cases n with
      | ifStmt => rfl
      | _ => cases hown
  | clause c =>
    obtain ⟨m, guards, body⟩ := c
    intro r hr hown
    rcases mem_append.mp hr with hr | hr
    · exact hinline _ r hr hown
    · exact hstmts ((Bool.and_eq_true _ _).mp hproper).2 r hr hown
  | switch m init tag clauses =>
    intro r hr hown
    rcases mem_append.mp hr with hr | hr
    · exact hinline _ r hr hown
    · obtain ⟨n, hn, rfl⟩ := mem_map.mp hr
      obtain ⟨c, _, rfl⟩ := mem_map.mp hn
      rfl
  | _ => exact hinline _

lemma isHolder_of_mem_unroll {rows : List Row} (hregular : ∀ r ∈ rows, r.node.Regular)
    (hown : ∀ r ∈ rows, r.own = true → r.node.isHolder = true) :
    ∀ r ∈ unroll rows, r.own = true → r.node.isHolder = true := by
  induction rows using unroll.induct with
  | case1 =>
    rw [unroll]
    exact fun r hr => absurd hr not_mem_nil
  | case2 first rows ih =>
    rw [forall_mem_cons] at hregular hown
    have hchildren : ∀ r ∈ first.node.rows, r.node.Regular := by
      intro r hr
      have hmem : r.node ∈ first.node.rows.map Row.node := mem_map_of_mem hr
      rw [Node.map_node_rows] at hmem
      exact hregular.1.child hmem
    rw [unroll, forall_mem_cons]
    exact ⟨hown.1, ih (forall_mem_append.mpr ⟨hchildren, hregular.2⟩)
      (forall_mem_append.mpr ⟨Node.isHolder_of_own hregular.1, hown.2⟩)⟩

/-- What is above a tree is above everything in it. -/
lemma suffix_of_mem_visitsAll {above ns : List Node} {v : Visit} (h : v ∈ visitsAll above ns) :
    above <:+ v.above := by
  induction above, ns using visitsAll.induct with
  | case1 above =>
    rw [visitsAll] at h
    exact absurd h not_mem_nil
  | case2 above n ns ih ih' =>
    rw [visitsAll] at h
    rcases mem_cons.mp h with rfl | h
    · exact suffix_rfl
    · rcases mem_append.mp h with h | h
      · exact (suffix_cons n above).trans (ih h)
      · exact ih' h

namespace File

/-- All rows of a unit. -/
def rows (f : File) : List Row := unroll (separate f.decls)

/-- How many forms with lines of their own are numbered between two numbers. -/
def linesBetween (f : File) (i j : Nat) : Nat :=
  lineCount (f.rows.filter fun r => i < r.node.id && r.node.id < j)

/-- **The line of a term**, counted from the line of what holds it.  The two share a line as long as
nothing comes between that has a line of its own.  Parentheses may be put further down, but not
behind what they enclose. -/
structure Counted (f : File) (holder n : Node) : Prop where
  line : n.isParen = false → n.loc.line = holder.loc.line + f.linesBetween holder.id n.id
  shared : n.isParen = false → (n.loc.line = holder.loc.line ↔ f.linesBetween holder.id n.id = 0)
  least : holder.loc.line + f.linesBetween holder.id n.id ≤ n.loc.line
  most : n.loc.line ≤ holder.loc.line + f.linesBetween holder.id n.id + lineCount (unroll n.rows)

lemma preorder_eq_append (f : File) :
    f.node.preorder = f.node :: .ident f.package :: f.imports.map .importSpec ++
      preorderAll f.decls := by
  have himports : ∀ specs : List Import, preorderAll (specs.map .importSpec) =
      specs.map .importSpec := by
    intro specs
    induction specs with
    | nil => rw [map_nil, preorderAll]
    | cons spec specs ih =>
      rw [map_cons, preorderAll]
      exact congrArg _ ih
  have hchildren : f.node.children = .ident f.package :: f.imports.map .importSpec ++ f.decls := rfl
  rw [Node.preorder_eq, preorderAll, hchildren, append_nil, preorderAll_append, preorderAll,
    Node.children, nil_append, himports, cons_append, cons_append, cons_append]

lemma map_node_rows (f : File) : f.rows.map Row.node = preorderAll f.decls := by
  rw [rows, map_node_unroll, map_node_separate]

/-- The rows of a numbered unit are in the order of their numbers. -/
lemma rows_sorted (f : File) : f.numbered.rows.Pairwise fun r r' => r.node.id < r'.node.id := by
  have hsub : (preorderAll f.numbered.decls).Sublist f.numbered.node.preorder := by
    rw [preorder_eq_append]
    exact sublist_append_right _ _
  have hids : (f.numbered.node.preorder.map Node.id).Pairwise (· < ·) := by
    rw [map_id_preorder]
    exact pairwise_lt_range
  have hpairwise := List.Pairwise.sublist (hsub.map Node.id) hids
  rw [← map_node_rows, map_map, pairwise_map] at hpairwise
  exact hpairwise

/-- What stands between two rows is what is numbered between them. -/
lemma linesBetween_eq {f : File} (hsorted : f.rows.Pairwise fun r r' => r.node.id < r'.node.id)
    {front between back : List Row}
    {r r' : Row} (h : f.rows = front ++ r :: (between ++ r' :: back)) :
    f.linesBetween r.node.id r'.node.id = lineCount between := by
  rw [h, pairwise_append, pairwise_cons, pairwise_append, pairwise_cons] at hsorted
  obtain ⟨_, ⟨hr, _, ⟨hr', _⟩, hbetween⟩, hfront⟩ := hsorted
  rw [forall_mem_append, forall_mem_cons] at hr
  rw [linesBetween, h]
  congr 1
  have hfront' : front.filter (fun x => r.node.id < x.node.id && x.node.id < r'.node.id) = [] := by
    refine filter_eq_nil_iff.mpr fun x hx => ?_
    have := hfront x hx r mem_cons_self
    simp
    omega
  have hback : back.filter (fun x => r.node.id < x.node.id && x.node.id < r'.node.id) = [] := by
    refine filter_eq_nil_iff.mpr fun x hx => ?_
    have := hr' x hx
    simp
    omega
  have hbetween' : between.filter (fun x => r.node.id < x.node.id && x.node.id < r'.node.id) =
      between := by
    refine filter_eq_self.mpr fun x hx => ?_
    have := hr.1 x hx
    have := hbetween x hx r' mem_cons_self
    simp
    omega
  rw [filter_append, filter_cons, filter_append, filter_cons, hfront', hback, hbetween']
  simp

/-- Of a row and one below it, the second is as many lines further down as rows with lines of their
own come between. -/
lemma on_of_lined {line : Nat} {front between after back : List Row} {r r' : Row}
    (h : Lined line (front ++ (r :: (between ++ r' :: after)) ++ back)) (hr' : r'.own = false) :
    ∃ line', r.On line' ∧ r'.On (line' + lineCount between) := by
  rw [lined_append, lined_append, Lined, lined_append, Lined, hr'] at h
  exact ⟨_, h.1.2.1, h.1.2.2.2.1⟩

/-- **The line of a term** in a unit whose declarations are laid out. -/
lemma counted_of_laid {f : File} {file : String} {p : Spot}
    (hlaid : LaidApart file p f.numbered.decls) (hregular : f.numbered.Regular) {holder n : Node}
    (hholder : holder ∈ preorderAll f.numbered.decls)
    (hisHolder : holder.isHolder = true) (hn : n ∈ preorderAll holder.children)
    (hterm : n.isTerm = true) :
    f.numbered.Counted holder n := by
  -- The declaration that both belong to, and their rows in it.
  obtain ⟨d, hd, hmem⟩ := Node.mem_preorderAll_iff.mp hholder
  rw [Node.preorder_eq] at hmem
  obtain ⟨p', q, hrows⟩ := hlaid.laid_of_mem hd
  obtain ⟨r, hr, rfl⟩ := exists_row [⟨true, d⟩] hmem
  rw [← Node.map_node_rows] at hn
  obtain ⟨r', hr', rfl⟩ := exists_row _ hn
  obtain ⟨ds, ds', hds⟩ := append_of_mem hd
  obtain ⟨front, back, hfront⟩ := unroll_split hr
  obtain ⟨between, after, hbetween⟩ := append_of_mem hr'
  have hall : f.numbered.rows = (unroll (separate ds) ++ front) ++
      r :: (between ++ r' :: (after ++ back ++ unroll (separate ds'))) := by
    have hseparate : separate (ds ++ d :: ds') =
      separate ds ++ ([⟨true, d⟩] ++ separate ds') := by simp [separate]
    rw [rows, hds, hseparate, unroll_append, unroll_append, hfront, hbetween]
    simp
  have hcount := linesBetween_eq f.rows_sorted hall
  have hown : r'.own = false := by
    have hdecl : ∀ r ∈ separate f.numbered.decls, r.own = true → r.node.isHolder = true := by
      intro r hr _
      obtain ⟨d, hd, rfl⟩ := mem_map.mp hr
      have hproper : f.numbered.decls.all Node.isDeclaration = true := hregular.proper
      show (d.isAction || d.isDeclaration) = true
      rw [all_eq_true.mp hproper d hd, Bool.or_true]
    have hparts : ∀ r ∈ separate f.numbered.decls, r.node.Regular := by
      intro r hr
      obtain ⟨d, hd, rfl⟩ := mem_map.mp hr
      exact hregular.child (mem_append_right _ hd)
    refine Bool.eq_false_iff.mpr fun htrue => ?_
    have hheld := isHolder_of_mem_unroll hparts hdecl r' (by rw [← rows, hall]; simp) htrue
    rw [Node.isHolder_of_isTerm hterm] at hheld
    cases hheld
  have hlined := hrows.lined.1
  rw [hfront, hbetween] at hlined
  obtain ⟨line, ⟨_, _, hline⟩, hleast, hmost, hline'⟩ := on_of_lined hlined hown
  have hheld := hline (Node.isParen_of_isHolder hisHolder)
  constructor
  all_goals rw [hcount, hheld]
  · intro hparen
    rw [hline' hparen]
    omega
  · intro hparen
    rw [hline' hparen]
    omega
  · omega
  · omega

/-- A term belongs to a statement, a clause or a declaration, unless it is the name of the
package. -/
lemma exists_holder {f : File} (hregular : f.Regular) {v : Visit} (hv : v ∈ f.node.walk)
    (hterm : v.node.isTerm = true) :
    v.node = .ident f.package ∨ ∃ holder, v.above.find? Node.isHolder = some holder := by
  rw [Node.walk_eq, Node.visits_eq] at hv
  rcases mem_cons.mp hv with rfl | hv
  · cases hterm
  obtain ⟨c, hc, hv⟩ := mem_flatMap.mp hv
  rw [Node.visits] at hv
  have hchildren : f.node.children = .ident f.package :: f.imports.map .importSpec ++ f.decls := rfl
  rw [hchildren, cons_append, mem_cons, mem_append] at hc
  rcases hc with rfl | hc | hc
  · rw [Node.children, visitsAll, mem_singleton] at hv
    rw [hv]
    exact Or.inl rfl
  · obtain ⟨spec, _, rfl⟩ := mem_map.mp hc
    rw [Node.children, visitsAll, mem_singleton] at hv
    rw [hv] at hterm
    cases hterm
  · have hproper : f.decls.all Node.isDeclaration = true := hregular.proper
    have hholder : c.isHolder = true := by
      rw [Node.isHolder, all_eq_true.mp hproper c hc, Bool.or_true]
    rcases mem_cons.mp hv with rfl | hv
    · rw [Node.isHolder_of_isTerm hterm] at hholder
      cases hholder
    · have hmem : c ∈ v.above := (suffix_of_mem_visitsAll hv).subset mem_cons_self
      exact Or.inr (Option.isSome_iff_exists.mp (find?_isSome.mpr ⟨c, hmem, hholder⟩))

/-- **The line of every term** is counted from the line of what holds it. -/
theorem counted_ofText {name text : String} {f : File} {expectations : List Expectation}
    (h : File.ofText name text = .ok (f, expectations)) {v : Visit} (hv : v ∈ f.numbered.node.walk)
    (hterm : v.node.isTerm = true) : v.node = .ident f.numbered.package ∨
      ∃ holder, v.above.find? Node.isHolder = some holder ∧ f.numbered.Counted holder v.node := by
  have hregular := (File.regular_ofText h).numbered
  refine (exists_holder hregular hv hterm).imp_right fun ⟨holder, hfind⟩ => ⟨holder, hfind, ?_⟩
  have hisHolder : holder.isHolder = true := find?_some hfind
  have habove : holder ∈ v.above := mem_of_find?_eq_some hfind
  have hlaid : LaidApart name ⟨0, 0⟩ f.numbered.decls := (File.laid_ofText h).numbered _
  refine counted_of_laid hlaid hregular ?_ hisHolder
    ((Node.mem_walk_iff.mp hv).mem_preorderAll_of_above habove) hterm
  have hmem := Node.above_mem_preorder hv habove
  rw [preorder_eq_append, mem_append, mem_cons, mem_cons] at hmem
  rcases hmem with (rfl | rfl | hmem) | hmem
  · cases hisHolder
  · cases hisHolder
  · obtain ⟨spec, _, rfl⟩ := mem_map.mp hmem
    cases hisHolder
  · exact hmem

end File

end Recast
