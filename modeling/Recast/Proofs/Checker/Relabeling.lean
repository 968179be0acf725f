import Recast.Checker.StructCast
import Recast.Proofs.Checker.Evidence
import Recast.Proofs.Flow.Relabeling
import Recast.Proofs.Flow.Search
import Recast.Proofs.Flow.Traces
import Recast.Proofs.Lockstep.Basic
import Recast.Proofs.Types.Alike

/-!
# Checking a relabeled tree

Both checkers look at nodes through the numbers under which types and bindings are filed, and at
names in two places only: a conversion is recognised by the spelling `unsafe.Pointer`, and a literal
is reported with the spelling of its type.  So on two trees of one form about which the same is
known they find the same.

**What has to correspond.**  `Info.Mirrored` says what two resolutions have in common, for the nodes
with a property that goes from a node to its children.  A binding is only compared with another one,
never looked at, so any one-to-one correspondence does.

* `StructCast.mismatchAt?_relabel` — the mismatch at a relabeled node.
* `HeaderMisuse.evidence?_relabel` — the evidence at a relabeled node, given that the ways to it
  correspond.
* `HeaderMisuse.isSafe_relabel` — they do if the whole function around it is relabeled.
-/

namespace Recast

open List
open Ty (Alike Matching Matches)

/-- **What two resolutions have in common**: types that are alike, bindings that belong together,
and names where names count. -/
structure Info.Mirrored (μ : Matching) (ρ : Relabeling) (P : Node → Prop)
    (binds : Nat → Nat → Prop) (info info' : Info) :
    Prop where
  hereditary : Flow.Hereditary P
  apart : ∀ {n m}, P n → P m → ρ.number n.id = ρ.number m.id → n.id = m.id
  env : Matches μ info.underlying info'.underlying
  types : ∀ {n}, P n →
    Option.Rel (Alike μ) (info.types.find? n.id) (info'.types.find? (ρ.number n.id))
  names : ∀ {i}, P (.ident i) →
    Option.Rel binds (info.bindingOf? i) (info'.bindingOf? (i.relabel ρ))
  one : ∀ {b b' c c'}, binds b b' → binds c c' → (b = c ↔ b' = c')
  binding : ∀ {b b'}, binds b b' → Alike μ (info.binding b).type (info'.binding b').type
  raw : ∀ {n}, P n → (n.relabel ρ).isQualified "unsafe" "Pointer" = n.isQualified "unsafe" "Pointer"
  spelled : ∀ {m type elements}, P (.composite m type elements) →
    (info.typeOf (.composite m type elements)).isHeaderShaped info.underlying = true →
    spelledOption (relabelOption ρ type) = spelledOption type

variable {μ : Matching} {ρ : Relabeling} {P : Node → Prop} {binds : Nat → Nat → Prop}
  {info info' : Info} {n : Node} {b b' : Nat}

/-- The place of the first item with a property, among images that have it when the items have
it. -/
lemma findIdx?_map_of {α β : Type} {f : α → β} {p : α → Bool} {q : β → Bool} {xs : List α}
    (h : ∀ x ∈ xs, q (f x) = p x) :
    (xs.map f).findIdx? q = xs.findIdx? p := by
  induction xs with
  | nil => rfl
  | cons x xs ih =>
    rw [map_cons, findIdx?_cons, findIdx?_cons, h x mem_cons_self,
      ih fun y hy => h y (mem_cons_of_mem x hy)]

/-- **Two runs that agree** know what mirrors each other. -/
lemma Lockstep.Link.Agree.mirrored {L : Link} {r r' : Resolver} (h : L.Agree r r') (hL : L.Lawful)
    (hereditary : Flow.Hereditary P) (hknows : ∀ {n}, P n → L.knows n.id)
    (hraw : ∀ {n}, P n → (n.relabel L.labels).isQualified "unsafe" "Pointer" =
      n.isQualified "unsafe" "Pointer")
    (hspelled : ∀ {m type elements}, P (.composite m type elements) →
      (r.info.typeOf (.composite m type elements)).isHeaderShaped r.info.underlying = true →
      spelledOption (relabelOption L.labels type) = spelledOption type) :
    r.info.Mirrored L.matching L.labels P L.binds r'.info where
  hereditary := hereditary
  apart hn hm := hL.apart (hknows hn) (hknows hm)
  env := h.underlying
  types hn := h.types (hknows hn)
  names hi := h.bindingOf? (hknows hi)
  one := hL.one
  binding hb := (h.binding hb).type
  raw := hraw
  spelled := hspelled

/-! ## Ways -/

namespace Flow.Graph

variable {g : Graph} {id : Nat} {budget : Int} {path : List Node}

lemma search_of_pathTo? (h : g.pathTo? id budget = some path) :
    g.search id budget = .found path := by
  rw [pathTo?] at h
  split at h
  next path' hpath' => rw [hpath', Option.some.inj h]
  next => cases h

/-- What the search finds are nodes of the graph. -/
lemma allNodes_pathTo? (h : g.AllNodes P) (hpath : g.pathTo? id budget = some path) :
    ∀ m ∈ path, P m := by
  intro m hm
  obtain ⟨b, -, hb⟩ := (spelled_of_search (search_of_pathTo? hpath)).1.reached hm
  exact h m (mem_contents.mpr ⟨b, hb⟩)

/-- No way leads to a node that is not in the graph. -/
lemma pathTo?_eq_none (h : g.AllNodes P) (hid : ∀ m, P m → m.id ≠ id) :
    g.pathTo? id budget = none := by
  cases hpath : g.pathTo? id budget with
  | none => rfl
  | some path =>
    obtain ⟨-, front, m, rfl, hm⟩ := spelled_of_search (search_of_pathTo? hpath)
    exact absurd hm (hid m (allNodes_pathTo? h hpath m (by simp)))

end Flow.Graph

/-! ## Casts -/

def PointerCast.relabel (ρ : Relabeling) (c : PointerCast) : PointerCast where
  call := c.call.relabel ρ
  type := c.type.relabel ρ
  operand := c.operand.relabel ρ

namespace Info.Mirrored

lemma typeOf (h : info.Mirrored μ ρ P binds info') (hn : P n) :
    Alike μ (info.typeOf n) (info'.typeOf (n.relabel ρ)) := by
  rw [Info.typeOf, Info.typeOf, Node.id_relabel]
  exact Alike.getD (h.types hn) .invalid

/-- The argument of a raw conversion belongs to it. -/
lemma rawOperand? (h : info.Mirrored μ ρ P binds info') (hn : P n) :
    (n.relabel ρ).rawOperand? = n.rawOperand?.map (Node.relabel ρ) ∧ ∀ x ∈ n.rawOperand?, P x := by
  cases n with
  | call m fn args =>
    match args with
    | [] => exact ⟨rfl, nofun⟩
    | [x] =>
      have hfn : P fn := h.hereditary _ hn _ mem_cons_self
      have hx : P x := h.hereditary _ hn _ (mem_cons_of_mem _ mem_cons_self)
      show (if (fn.relabel ρ).isQualified _ _ then _ else _) =
        (if fn.isQualified _ _ then _ else _ : Option Node).map _ ∧
        ∀ y ∈ (if fn.isQualified _ _ then some x else none), P y
      rw [h.raw hfn]
      split
      · exact ⟨rfl, fun y hy => Option.some.inj hy ▸ hx⟩
      · exact ⟨rfl, nofun⟩
    | _ :: _ :: _ => exact ⟨rfl, nofun⟩
  | _ => exact ⟨rfl, nofun⟩

lemma callCast? (h : info.Mirrored μ ρ P binds info') (hn : P n) :
    (n.relabel ρ).callCast? = n.callCast?.map (PointerCast.relabel ρ) ∧
    ∀ c ∈ n.callCast?, P c.type ∧ P c.operand := by
  cases n with
  | call m fn args =>
    cases fn with
    | paren p inner =>
      cases inner with
      | star s type =>
        match args with
        | [] => exact ⟨rfl, nofun⟩
        | [x] =>
          have hparen : P (.paren p (.star s type)) := h.hereditary _ hn _ mem_cons_self
          have htype : P type :=
            h.hereditary _ (h.hereditary _ hparen _ mem_cons_self) _ mem_cons_self
          have hx : P x := h.hereditary _ hn _ (mem_cons_of_mem _ mem_cons_self)
          obtain ⟨hraw, hoperand⟩ := h.rawOperand? hx
          constructor
          · show (x.relabel ρ).rawOperand?.map _ = (x.rawOperand?.map _).map _
            rw [hraw, Option.map_map, Option.map_map]
            rfl
          · intro c hc
            obtain ⟨operand, hop, rfl⟩ := Option.map_eq_some_iff.mp hc
            exact ⟨htype, hoperand operand hop⟩
        | _ :: _ :: _ => exact ⟨rfl, nofun⟩
      | _ => exact ⟨rfl, nofun⟩
    | _ => exact ⟨rfl, nofun⟩
  | _ => exact ⟨rfl, nofun⟩

lemma pointerCast? (h : info.Mirrored μ ρ P binds info') (hn : P n) :
    (n.relabel ρ).pointerCast? = n.pointerCast?.map (PointerCast.relabel ρ) ∧
      ∀ c ∈ n.pointerCast?, P c.type ∧ P c.operand := by
  cases n with
  | star m x => exact h.callCast? (h.hereditary _ hn x mem_cons_self)
  | _ => exact h.callCast? hn

/-- **A genuine derivation** is one under any labels. -/
lemma isGenuineDerivation (h : info.Mirrored μ ρ P binds info') (hn : P n) :
    HeaderMisuse.isGenuineDerivation info' (n.relabel ρ) =
      HeaderMisuse.isGenuineDerivation info n := by
  obtain ⟨hcast, hparts⟩ := h.pointerCast? hn
  rw [HeaderMisuse.isGenuineDerivation, HeaderMisuse.isGenuineDerivation, Node.headerDerivation?,
    Node.headerDerivation?, hcast]
  cases hc : n.pointerCast? with
  | none => rfl
  | some c =>
    obtain ⟨htype, hoperand⟩ := hparts c hc
    have hheader := (h.typeOf htype).isHeaderShaped h.env
    have hgenuine := (h.typeOf hoperand).isGenuineReference h.env
    simp only [Option.map_some, PointerCast.relabel, hheader]
    cases (info.typeOf c.type).isHeaderShaped info.underlying with
    | true => exact hgenuine
    | false => rfl

lemma addressed (h : info.Mirrored μ ρ P binds info') (hn : P n) :
    (n.relabel ρ).addressed = n.addressed.relabel ρ ∧ P n.addressed := by
  cases n with
  | unary m op x =>
    show (if op == "&" then _ else _) = (if op == "&" then _ else _ : Node).relabel ρ ∧
      P (if op == "&" then _ else _)
    split
    · exact ⟨rfl, h.hereditary _ hn x mem_cons_self⟩
    · exact ⟨rfl, hn⟩
  | _ => exact ⟨rfl, hn⟩

/-! ## Assignments -/

lemma isBoundTo (h : info.Mirrored μ ρ P binds info') (hb : binds b b') (hn : P n) :
    info'.isBoundTo b' (n.relabel ρ) = info.isBoundTo b n := by
  cases n with
  | ident i =>
    show (info'.bindingOf? (i.relabel ρ) == some b') = (info.bindingOf? i == some b)
    have hi := h.names hn
    generalize info.bindingOf? i = c, info'.bindingOf? (i.relabel ρ) = c' at hi
    cases hi with
    | none => rfl
    | some hc =>
      rw [Option.some_beq_some, Option.some_beq_some, Bool.eq_iff_iff, beq_iff_eq,
        beq_iff_eq, h.one hc hb]
  | _ => rfl

/-- What a relabeled node assigns is what the node assigns, relabeled. -/
lemma assigned? (h : info.Mirrored μ ρ P binds info') (hb : binds b b') (hn : P n) :
    info'.assigned? b' (n.relabel ρ) = (info.assigned? b n).map (Option.map (Node.relabel ρ)) := by
  cases n with
  | assign m targets op values =>
    have hidx : (relabelAll ρ targets).findIdx? (info'.isBoundTo b') =
        targets.findIdx? (info.isBoundTo b) := by
      rw [relabelAll_eq]
      exact findIdx?_map_of fun x hx => h.isBoundTo hb (h.hereditary _ hn x (mem_append_left _ hx))
    simp only [Node.relabel, Info.assigned?, hidx, length_relabelAll]
    cases targets.findIdx? (info.isBoundTo b) with
    | none => rfl
    | some i =>
      dsimp only
      split
      · rw [relabelAll_eq, getElem?_map]
        rfl
      · rfl
  | varSpec m names type values =>
    have hidx : (names.map (Ident.relabel ρ)).findIdx?
      (fun name => info'.isBoundTo b' (.ident name)) =
        names.findIdx? fun name => info.isBoundTo b (.ident name) := by
      refine findIdx?_map_of fun x hx => h.isBoundTo (n := .ident x) hb (h.hereditary _ hn _ ?_)
      exact mem_append_left _ (mem_append_left _ (mem_map_of_mem hx))
    simp only [Node.relabel, Info.assigned?, hidx, length_relabelAll, length_map]
    cases names.findIdx? fun name => info.isBoundTo b (.ident name) with
    | none => rfl
    | some i =>
      dsimp only
      split
      · rw [relabelAll_eq, getElem?_map]
        rfl
      · rw [relabelAll_eq, isEmpty_map]
        split <;> rfl
  | rangeStmt m key value op x body =>
    have hpart : ∀ part : Option Node, (∀ y ∈ part, P y) →
        (relabelOption ρ part).any (info'.isBoundTo b') = part.any (info.isBoundTo b) := by
      intro part hpart
      cases part with
      | none => rfl
      | some y => exact h.isBoundTo hb (hpart y rfl)
    have hkey :=
      hpart key fun y hy => h.hereditary _ hn y (by simp [Node.children, Option.mem_def.mp hy])
    have hvalue :=
      hpart value fun y hy => h.hereditary _ hn y (by simp [Node.children, Option.mem_def.mp hy])
    simp only [Node.relabel, Info.assigned?, hkey, hvalue]
    split <;> rfl
  | _ => rfl

/-- The value that a node assigns belongs to it. -/
lemma of_assigned? (h : info.Mirrored μ ρ P binds info') (hn : P n) {value : Node}
    (hvalue : info.assigned? b n = some (some value)) : P value := by
  have hget : ∀ {values : List Node} {i : Nat}, values[i]? = some value →
      (∀ x ∈ values, x ∈ n.children) → P value :=
    fun hi hmem => h.hereditary _ hn _ (hmem _ (mem_of_getElem? hi))
  cases n with
  | assign m targets op values =>
    simp only [Info.assigned?] at hvalue
    split at hvalue
    · cases hvalue
    · split at hvalue
      · exact hget (Option.some.inj hvalue) fun x hx => mem_append_right _ hx
      · cases hvalue
  | varSpec m names type values =>
    simp only [Info.assigned?] at hvalue
    split at hvalue
    · cases hvalue
    · split at hvalue
      · exact hget (Option.some.inj hvalue) fun x hx => mem_append_right _ hx
      · split at hvalue <;> cases hvalue
  | rangeStmt m key value op x body =>
    simp only [Info.assigned?] at hvalue
    split at hvalue <;> cases hvalue
  | _ => cases hvalue

/-- **The last definition on a way** is safe under any labels. -/
lemma endsSafely (h : info.Mirrored μ ρ P binds info') (hb : binds b b') {nodes : List Node}
    (hnodes : ∀ n ∈ nodes, P n) :
    HeaderMisuse.endsSafely info' b' (nodes.map (Node.relabel ρ)) =
      HeaderMisuse.endsSafely info b nodes := by
  have hlast : ∀ ns : List Node, (∀ n ∈ ns, P n) →
    (ns.map (Node.relabel ρ)).findSome? (info'.assigned? b') =
      (ns.findSome? (info.assigned? b)).map (Option.map (Node.relabel ρ)) := by
    intro ns hns
    induction ns with
    | nil => rfl
    | cons n ns ih =>
      rw [map_cons, findSome?_cons, findSome?_cons, h.assigned? hb (hns n mem_cons_self),
        ih fun m hm => hns m (mem_cons_of_mem n hm)]
      cases info.assigned? b n <;> rfl
  have hreverse : ∀ n ∈ nodes.reverse, P n := fun n hn => hnodes n (mem_reverse.mp hn)
  rw [HeaderMisuse.endsSafely, HeaderMisuse.endsSafely, ← map_reverse, hlast _ hreverse]
  cases hfound : nodes.reverse.findSome? (info.assigned? b) with
  | none => rfl
  | some found =>
    cases found with
    | none => rfl
    | some value =>
      obtain ⟨n, hn, hassigned⟩ := exists_of_findSome?_eq_some hfound
      exact h.isGenuineDerivation (h.of_assigned? (hreverse n hn) hassigned)

end Info.Mirrored

/-! ## Findings -/

/-- **A cast between structs** mismatches under any labels, with the same numbers of fields. -/
theorem StructCast.mismatchAt?_relabel (h : info.Mirrored μ ρ P binds info') (hn : P n) :
    mismatchAt? info' (n.relabel ρ) = mismatchAt? info n := by
  cases n with
  | call m fn args =>
    obtain ⟨hcast, hparts⟩ := h.pointerCast? hn
    have hrelabel : (Node.call m fn args).relabel ρ =
        .call (m.relabel ρ) (fn.relabel ρ) (relabelAll ρ args) := by
      rw [Node.relabel]
    rw [hrelabel, mismatchAt?, mismatchAt?, ← hrelabel, Node.recordCast?, Node.recordCast?, hcast]
    cases hc : (Node.call m fn args).pointerCast? with
    | none => rfl
    | some c =>
      obtain ⟨htype, hoperand⟩ := hparts c hc
      obtain ⟨haddressed, hsource⟩ := h.addressed hoperand
      show mismatch? info'.underlying m.loc (info'.typeOf (c.operand.relabel ρ).addressed)
        (info'.typeOf (c.type.relabel ρ)) = mismatch? info.underlying m.loc _ _
      rw [haddressed, mismatch?, mismatch?, (h.typeOf hsource).platformFields h.env,
        (h.typeOf htype).platformFields h.env]
      have hs := (h.typeOf hsource).underlying h.env
      have ht := (h.typeOf htype).underlying h.env
      generalize (info.typeOf c.operand.addressed).underlying info.underlying = s,
        (info'.typeOf (c.operand.addressed.relabel ρ)).underlying info'.underlying = s' at hs
      generalize (info.typeOf c.type).underlying info.underlying = t,
        (info'.typeOf (c.type.relabel ρ)).underlying info'.underlying = t' at ht
      cases hs with
      | struct => cases ht <;> rfl
      | _ => rfl
  | _ => rfl

namespace HeaderMisuse

variable {unit unit' : CompilationUnit} {budget : Int} {above above' : List Node}

/-- **A verdict on targets** is the same if what is safe is the same. -/
lemma isUnsafe_relabel (h : unit.info.Mirrored μ ρ P binds unit'.info) {stmt : Mark}
    (hsafe : ∀ b b', binds b b' →
      isSafe unit' budget (stmt.relabel ρ) above' b' = isSafe unit budget stmt above b)
    {targets : List Node} (htargets : ∀ x ∈ targets, P x) :
    isUnsafe unit' budget (stmt.relabel ρ) above' (relabelAll ρ targets) =
      isUnsafe unit budget stmt above targets := by
  fun_induction isUnsafe unit budget stmt above targets with
  | case1 sm base name targets hbase =>
    have hname := h.names (h.hereditary _ (htargets _ mem_cons_self) (.ident base) mem_cons_self)
    rw [hbase] at hname
    generalize hbase' : unit'.info.bindingOf? (base.relabel ρ) = c' at hname
    cases hname
    simp only [relabelAll, Node.relabel, isUnsafe, hbase']
  | case2 sm base name targets b hbase hheader =>
    have hname := h.names (h.hereditary _ (htargets _ mem_cons_self) (.ident base) mem_cons_self)
    rw [hbase] at hname
    generalize hbase' : unit'.info.bindingOf? (base.relabel ρ) = c' at hname
    cases hname with
    | some hb =>
      simp only [relabelAll, Node.relabel, isUnsafe, hbase', (h.binding hb).isHeaderShaped h.env,
        hheader, if_true, hsafe _ _ hb]
  | case3 sm base name targets b hbase hheader ih =>
    have hname := h.names (h.hereditary _ (htargets _ mem_cons_self) (.ident base) mem_cons_self)
    rw [hbase] at hname
    generalize hbase' : unit'.info.bindingOf? (base.relabel ρ) = c' at hname
    cases hname with
    | some hb =>
      simp only [relabelAll, Node.relabel, isUnsafe, hbase',
        (h.binding hb).isHeaderShaped h.env, hheader]
      exact ih fun x hx => htargets x (mem_cons_of_mem _ hx)
  | case4 sm base name targets hident =>
    have hbase : P base := h.hereditary _ (htargets _ mem_cons_self) base mem_cons_self
    have htype := (h.typeOf hbase).isHeaderShaped h.env
    rw [relabelAll, Node.relabel, ← htype]
    cases base with
    | ident i => exact (hident i rfl).elim
    | _ => rfl
  | case5 targets hident hselect =>
    cases targets with
    | nil => rfl
    | cons x targets =>
      cases x with
      | select sm base name => exact (hselect _ _ _ _ rfl).elim
      | _ => rfl

/-- **The evidence at a relabeled node** is the evidence at the node. -/
theorem evidence?_relabel (h : unit.info.Mirrored μ ρ P binds unit'.info) (hn : P n)
    (hsafe : ∀ b b', binds b b' →
      isSafe unit' budget (n.mark.relabel ρ) above' b' = isSafe unit budget n.mark above b) :
    evidence? unit' budget ⟨n.relabel ρ, above'⟩ = evidence? unit budget ⟨n, above⟩ := by
  cases n with
  | composite m type elements =>
    have hheader := (h.typeOf hn).isHeaderShaped h.env
    show (if (unit'.info.typeOf ((Node.composite m type elements).relabel ρ)).isHeaderShaped _ then
      some (Evidence.literal m.loc (spelledOption (relabelOption ρ type))) else none) =
        if _ then _ else _
    rw [hheader]
    split
    next htrue => rw [h.spelled hn htrue]
    next => rfl
  | assign m targets op values =>
    show (if isUnsafe unit' budget (m.relabel ρ) above' (relabelAll ρ targets) then
      some (Evidence.write m.loc) else none) = if _ then _ else _
    have hverdict : isUnsafe unit' budget (m.relabel ρ) above' (relabelAll ρ targets) =
        isUnsafe unit budget m above targets :=
      isUnsafe_relabel h hsafe fun x hx => h.hereditary _ hn x (mem_append_left _ hx)
    rw [hverdict]
  | _ => rfl

/-- What is found at a node that no way leads to. -/
lemma isSafe_of_none {stmt : Mark} {fn : Node} (hfn : Node.enclosingFunction above = some fn)
    (hpath : (unit.graphOf fn).pathTo? stmt.id budget = none) :
    isSafe unit budget stmt above b = false := by
  rw [isSafe, hfn]
  dsimp only
  rw [hpath]

/-- **The way to a node** through a function that is relabeled as a whole is the relabeled way. -/
theorem isSafe_relabel (h : unit.info.Mirrored μ ρ P binds unit'.info) (hgraphs : unit.graphs = {})
    (hgraphs' : unit'.graphs = {}) (hn : P n) {fn : Node}
    (hfn : Node.enclosingFunction above = some fn) (hP : P fn)
    (hfn' : Node.enclosingFunction above' = some (fn.relabel ρ)) (hb : binds b b') :
    isSafe unit' budget (n.mark.relabel ρ) above' b' = isSafe unit budget n.mark above b := by
  have hgraph : unit.graphOf fn = (Flow.Graph.ofFunction fn).1 := by
    rw [CompilationUnit.graphOf, hgraphs]
    rfl
  have hgraph' : unit'.graphOf (fn.relabel ρ) = (unit.graphOf fn).relabel ρ := by
    rw [hgraph, CompilationUnit.graphOf, hgraphs', ← Flow.Graph.relabel_ofFunction]
    rfl
  have hnodes : (unit.graphOf fn).AllNodes P := by
    rw [hgraph]
    refine Flow.Graph.allNodes_ofFunction (fun n _ => h.hereditary n) fun body hbody =>
      h.hereditary fn hP _ ?_
    exact Flow.block_mem_children hbody
  have hpath : (unit'.graphOf (fn.relabel ρ)).pathTo? (n.mark.relabel ρ).id budget =
      ((unit.graphOf fn).pathTo? n.mark.id budget).map (map (Node.relabel ρ)) := by
    rw [hgraph']
    exact Flow.Graph.relabel_pathTo? (fun m hm => h.apart (hnodes m hm) hn) budget
  rw [isSafe, isSafe, hfn, hfn']
  dsimp only
  rw [hpath]
  cases hfound : (unit.graphOf fn).pathTo? n.mark.id budget with
  | none => rfl
  | some path =>
    have hall := Flow.Graph.allNodes_pathTo? hnodes hfound
    rw [Option.map_some]
    dsimp only
    rw [← map_dropLast]
    exact h.endsSafely hb fun m hm => hall m (dropLast_subset _ hm)

end HeaderMisuse

end Recast
