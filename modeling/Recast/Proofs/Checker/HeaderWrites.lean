import Recast.Proofs.Checker.Findings
import Recast.Proofs.Flow.Contents
import Recast.Proofs.Flow.Search
import Recast.Proofs.Flow.Traces

/-!
# Header writes and executions

What the verdict on a write to a field of a header says about the executions that come to the write.

**Genuine executions.**  Nodes that have run leave a variable with a genuine header if the last one
that assigns the variable assigns a derivation from a slice or a string: `Genuine`.

**The verdict.**  The checker looks at one way to the write, the first that it finds.  So a write
that is not reported has an execution that leaves a genuine header, and a write is not reported if
all executions do, as long as there is one and the budget lets the search come that far.  In
straight code there is one way only, and the verdict is exact.
-/

namespace Recast.HeaderMisuse

open List
open Recast.Flow

/-- **Genuine headers.**  The last of these nodes that assigns the variable assigns a header made
out of a genuine slice or string. -/
def Genuine (info : Info) (b : Nat) (trace : List Node) : Prop :=
  ∃ front n rest value derivation,
    trace = front ++ n :: rest ∧
    info.assigned? b n = some (some value) ∧
    (∀ x ∈ rest, info.assigned? b x = none) ∧
    value.headerDerivation? info = some derivation ∧
    derivation.operandType.isGenuineReference info.underlying = true

/-- **The discovered way.**  The search finds a way through the function around an assignment, and
what runs on that way before the assignment leaves a genuine header. -/
def GenuineOnWay (unit : CompilationUnit) (budget : Int) (stmt : Mark)
    (above : List Node) (b : Nat) : Prop :=
  ∃ fn path, Node.enclosingFunction above = some fn ∧
    (unit.graphOf fn).search stmt.id budget = .found path ∧
    Genuine unit.info b path.dropLast

/-- An assignment is reported if there is a piece of evidence more once the walk has come to it. -/
def Reported (unit : CompilationUnit) (budget : Int) (before : List Visit) (v : Visit) : Prop :=
  ∃ e, ((evidence unit budget (before ++ [v])).run (Runner.start unit)).1 =
    ((evidence unit budget before).run (Runner.start unit)).1 ++ [e]

/-- Looking back along a way finds the last definition. -/
lemma endsSafely_iff {info : Info} {b : Nat} {trace : List Node} :
    endsSafely info b trace = true ↔ Genuine info b trace := by
  rw [endsSafely]
  constructor
  · intro h
    cases hlast : trace.reverse.findSome? (info.assigned? b) with
    | none =>
      rw [hlast] at h
      cases h
    | some value? =>
      rw [hlast] at h
      cases value? with
      | none => cases h
      | some value =>
        obtain ⟨rest, n, front, htrace, hn, hrest⟩ := findSome?_eq_some_iff.mp hlast
        have h' : isGenuineDerivation info value = true := h
        rw [isGenuineDerivation] at h'
        cases hd : value.headerDerivation? info with
        | none =>
          rw [hd] at h'
          cases h'
        | some d =>
          rw [hd] at h'
          refine ⟨front.reverse, n, rest.reverse, value, d, ?_, hn, ?_, hd, h'⟩
          · rw [← reverse_reverse trace, htrace]
            simp
          · intro x hx
            exact hrest x (mem_reverse.mp hx)
  · rintro ⟨front, n, rest, value, d, rfl, hn, hrest, hd, hgenuine⟩
    have hlast : (front ++ n :: rest).reverse.findSome? (info.assigned? b) = some (some value) := by
      refine findSome?_eq_some_iff.mpr ⟨rest.reverse, n, front.reverse, by simp, hn, ?_⟩
      intro x hx
      exact hrest x (mem_reverse.mp hx)
    rw [hlast]
    show isGenuineDerivation info value = true
    rw [isGenuineDerivation, hd]
    exact hgenuine

/-- A header variable is safe exactly if it is genuine on the discovered way. -/
lemma isSafe_iff {unit : CompilationUnit} {budget : Int} {stmt : Mark}
    {above : List Node} {b : Nat} :
    isSafe unit budget stmt above b = true ↔ GenuineOnWay unit budget stmt above b := by
  rw [isSafe]
  constructor
  · intro h
    cases hfn : Node.enclosingFunction above with
    | none =>
      rw [hfn] at h
      cases h
    | some fn =>
      rw [hfn] at h
      simp only [Graph.pathTo?] at h
      cases hsearch : (unit.graphOf fn).search stmt.id budget with
      | found path =>
        rw [hsearch] at h
        exact ⟨fn, path, hfn, hsearch, endsSafely_iff.mp h⟩
      | unreachable =>
        rw [hsearch] at h
        cases h
      | exhausted =>
        rw [hsearch] at h
        cases h
  · rintro ⟨fn, path, hfn, hsearch, hgenuine⟩
    simp only [hfn, Graph.pathTo?, hsearch]
    exact endsSafely_iff.mpr hgenuine

section Verdict

variable {file : File} {unit : CompilationUnit} {budget : Int} {before after : List Visit}
  {v : Visit} {fn : Node} {b : Nat}

/-! ## The verdict on a visit -/

/-- The nodes above a visit of a walk belong to the unit. -/
lemma above_mem_preorder (hwalk : unit.file.node.walk = before ++ v :: after) :
    ∀ w ∈ before ++ [v], ∀ a ∈ w.above, a ∈ unit.file.node.preorder := by
  intro w hw a ha
  refine Node.above_mem_preorder ?_ ha
  rw [hwalk]
  rcases mem_append.mp hw with hw | hw
  · exact mem_append_left _ hw
  · rw [mem_singleton.mp hw]
    exact mem_append_right _ mem_cons_self

/-- Whether a visit is reported depends on the visit alone. -/
lemma reported_iff (hfile : unit.file = file.numbered)
    (hwalk : unit.file.node.walk = before ++ v :: after) :
    Reported unit budget before v ↔ ∃ e, evidence? unit budget v = some e := by
  have habove := above_mem_preorder hwalk
  have hbefore := answers_evidence budget hfile (fun w hw => habove w (mem_append_left _ hw)) _
    (Runner.serves_start unit)
  have hv := answers_evidence budget hfile habove _ (Runner.serves_start unit)
  rw [Reported, hbefore.1, hv.1, filterMap_append]
  constructor
  · rintro ⟨e, he⟩
    have hlast := append_cancel_left he
    cases h : evidence? unit budget v with
    | none =>
      rw [filterMap_cons_none h] at hlast
      cases hlast
    | some e' => exact ⟨e', rfl⟩
  · rintro ⟨e, he⟩
    exact ⟨e, by rw [filterMap_cons_some he]; rfl⟩

lemma visit_mem_walk_of_eq (hwalk : unit.file.node.walk = before ++ v :: after) :
    v ∈ unit.file.node.walk :=
  hwalk ▸ mem_append_right _ mem_cons_self

/-- A visit is reported exactly if something is found at its node. -/
lemma reported_iff_located (hfile : unit.file = file.numbered)
    (hwalk : unit.file.node.walk = before ++ v :: after) :
    Reported unit budget before v ↔ ∃ d, (v.node.id, d) ∈ located unit budget :=
  (reported_iff hfile hwalk).trans (exists_mem_located_iff hfile (visit_mem_walk_of_eq hwalk)).symm

/-- An assignment is reported exactly if its targets are judged unsafe. -/
lemma reported_assign_iff {stmt : Mark} {targets values : List Node} {op : String}
    (hfile : unit.file = file.numbered) (hwalk : unit.file.node.walk = before ++ v :: after)
    (hnode : v.node = .assign stmt targets op values) :
    Reported unit budget before v ↔ isUnsafe unit budget stmt v.above targets = true := by
  rw [reported_iff hfile hwalk, evidence?, hnode]
  cases h : isUnsafe unit budget stmt v.above targets with
  | false => simp [h]
  | true => simp [h]

/-- The visited node belongs to the unit, and so does the function around it. -/
lemma node_mem_preorder (hwalk : unit.file.node.walk = before ++ v :: after) :
    v.node ∈ unit.file.node.preorder :=
  Node.mem_preorder_of_walk (visit_mem_walk_of_eq hwalk)

lemma function_mem_preorder (hwalk : unit.file.node.walk = before ++ v :: after)
    (hfn : Node.enclosingFunction v.above = some fn) : fn ∈ unit.file.node.preorder :=
  above_mem_preorder hwalk v (mem_append_right _ mem_cons_self) fn (mem_of_find?_eq_some hfn)

/-! ## Ways and executions -/

/-- A way that the search finds is an execution that comes to the node. -/
lemma begins_of_search {n : Node} {path : List Node} (hfn : fn ∈ file.numbered.node.preorder)
    (hn : n ∈ file.numbered.node.preorder)
    (h : (Graph.ofFunction fn).1.search n.id budget = .found path) :
    ∃ t, path = t ++ [n] ∧ Begins fn (t ++ [n]) := by
  obtain ⟨hspelled, t, m, rfl, hm⟩ := Graph.spelled_of_search h
  obtain ⟨b, -, hb⟩ := hspelled.reached (mem_append_right t mem_cons_self)
  have hnodes : (Graph.ofFunction fn).1.AllNodes (· ∈ file.numbered.node.preorder) :=
    Graph.allNodes_ofFunction (fun _ _ hn _ hc => Node.mem_preorder_of_child hn hc) fun _ hbody =>
      Node.mem_preorder_of_child hfn (block_mem_children hbody)
  obtain rfl := File.eq_of_id_eq (hnodes m (Graph.mem_contents.mpr ⟨b, hb⟩)) hn hm
  exact ⟨t, rfl, Graph.begins_of_spelled hspelled⟩

/-- With enough budget, the search finds a way to what some execution comes to. -/
lemma search_of_begins {n : Node} {t : List Node}
    (hbudget : ((Graph.ofFunction fn).1.blocks.length : Int) ≤ budget)
    (h : Begins fn (t ++ [n])) : ∃ path, (Graph.ofFunction fn).1.search n.id budget = .found path :=
  Graph.search_of_spelled (Graph.joined_ofFunction fn) hbudget (Graph.spelled_of_begins h)

/-- A write to a header is not reported exactly if the way that the search finds leaves a genuine
header. -/
lemma not_reported_iff {m sm : Mark} {base field : Ident} {targets values : List Node}
    {op : String} (budget : Int) (hfile : unit.file = file.numbered) (hgraphs : unit.graphs = {})
    (hwalk : unit.file.node.walk = before ++ v :: after)
    (hnode : v.node = .assign m (.select sm (.ident base) field :: targets) op values)
    (hfn : Node.enclosingFunction v.above = some fn) (hbase : unit.info.bindingOf? base = some b)
    (hheader : (unit.info.binding b).type.isHeaderShaped unit.info.underlying = true) :
    ¬Reported unit budget before v ↔
      ∃ t, (Graph.ofFunction fn).1.search v.node.id budget = .found (t ++ [v.node]) ∧
      Begins fn (t ++ [v.node]) ∧
        Genuine unit.info b t := by
  have hgraph : unit.graphOf fn = (Graph.ofFunction fn).1 := by
    rw [CompilationUnit.graphOf, hgraphs, Table.find?_empty]
    rfl
  have hid : v.node.id = m.id := by
    rw [hnode]
    rfl
  have hverdict : ¬Reported unit budget before v ↔ isSafe unit budget m v.above b = true := by
    rw [reported_assign_iff hfile hwalk hnode]
    simp [isUnsafe, hbase, hheader]
  have hfnmem := function_mem_preorder hwalk hfn
  have hmem := node_mem_preorder hwalk
  rw [hfile] at hfnmem hmem
  rw [hverdict, isSafe_iff]
  constructor
  · rintro ⟨fn', path, hfn', hsearch, hgenuine⟩
    obtain rfl := Option.some.inj (hfn.symm.trans hfn')
    rw [hgraph, ← hid] at hsearch
    obtain ⟨t, rfl, hbegins⟩ := begins_of_search hfnmem hmem hsearch
    rw [dropLast_concat] at hgenuine
    exact ⟨t, hsearch, hbegins, hgenuine⟩
  · rintro ⟨t, hsearch, -, hgenuine⟩
    refine ⟨fn, t ++ [v.node], hfn, ?_, ?_⟩
    · rw [hgraph, ← hid]
      exact hsearch
    · rw [dropLast_concat]
      exact hgenuine

/-- In straight code all executions come to a node by the same way. -/
lemma eq_of_begins {m : Mark} {stmts ts t pre post : List Node} {n : Node} {e : Ending}
    (hfn : fn ∈ file.numbered.node.preorder) (hbody : fn.functionBody = some (.mk m stmts))
    (h : Straight stmts ts e)
    (hts : ts = pre ++ n :: post) (hbegins : Begins fn (t ++ [n])) : t = pre := by
  have hnodup := h.nodup hfn hbody
  obtain ⟨rest, hrest⟩ := (h.begins_iff hbody _).mp hbegins
  rw [append_assoc, singleton_append] at hrest
  have hpre : n ∉ pre := by
    intro hmem
    rw [hts, nodup_append] at hnodup
    exact hnodup.2.2 n hmem n mem_cons_self rfl
  have hpost : n ∉ post := by
    rw [hts, nodup_append] at hnodup
    exact (nodup_cons.mp hnodup.2.1).1
  rw [hts] at hrest
  exact ((append_cons_inj_of_notMem hpre hpost).mp hrest.symm).1.symm

section Write

variable {m sm : Mark} {base field : Ident} {targets values : List Node} {op : String}
  (hfile : unit.file = file.numbered) (hgraphs : unit.graphs = {})
  (hwalk : unit.file.node.walk = before ++ v :: after)
  (hnode : v.node = .assign m (.select sm (.ident base) field :: targets) op values)
  (hfn : Node.enclosingFunction v.above = some fn) (hbase : unit.info.bindingOf? base = some b)
  (hheader : (unit.info.binding b).type.isHeaderShaped unit.info.underlying = true)
include hfile hgraphs hwalk hnode hfn hbase hheader

/-- If all executions leave a genuine header, so does the way that is found. -/
lemma not_reported_of_genuine (hreached : ∃ t, Begins fn (t ++ [v.node]))
    (hall : ∀ t, Begins fn (t ++ [v.node]) → Genuine unit.info b t)
    (hbudget : ((Graph.ofFunction fn).1.blocks.length : Int) ≤ budget) :
    ¬Reported unit budget before v := by
  obtain ⟨t, ht⟩ := hreached
  have hfnmem := function_mem_preorder hwalk hfn
  have hmem := node_mem_preorder hwalk
  rw [hfile] at hfnmem hmem
  obtain ⟨path, hpath⟩ := search_of_begins hbudget ht
  obtain ⟨t', rfl, ht'⟩ := begins_of_search hfnmem hmem hpath
  exact (not_reported_iff budget hfile hgraphs hwalk hnode hfn hbase hheader).mpr
    ⟨t', hpath, ht', hall t' ht'⟩

/-- In straight code there is one way only. -/
lemma not_reported_iff_of_straight {bm : Mark} {stmts ts pre post : List Node} {e : Ending}
    (hbody : fn.functionBody = some (.mk bm stmts)) (hstraight : Straight stmts ts e)
    (hts : ts = pre ++ v.node :: post)
    (hbudget : ((Graph.ofFunction fn).1.blocks.length : Int) ≤ budget) :
    ¬Reported unit budget before v ↔ Genuine unit.info b pre := by
  have hfnmem := function_mem_preorder hwalk hfn
  rw [hfile] at hfnmem
  constructor
  · intro hreported
    obtain ⟨t, -, ht, hgenuine⟩ :=
      (not_reported_iff budget hfile hgraphs hwalk hnode hfn hbase hheader).mp hreported
    rwa [eq_of_begins hfnmem hbody hstraight hts ht] at hgenuine
  · intro hgenuine
    refine not_reported_of_genuine hfile hgraphs hwalk hnode hfn hbase hheader
      ⟨pre, (hstraight.begins_iff hbody _).mpr ⟨post, ?_⟩⟩ ?_ hbudget
    · rw [hts, append_assoc]
      rfl
    · intro t ht
      rwa [eq_of_begins hfnmem hbody hstraight hts ht]

end Write

/-- **The verdict on a header write is bracketed by the executions.**  A write that no execution
comes to is reported.  A write that is not reported has an execution that leaves a genuine header.
If all executions that come to it do, and there is one, and the budget is one unit for each block,
it is not reported.  In straight code the verdict is exact.  What is reported is what the checker
finds at the node of the write. -/
theorem reported_bracketed {m sm : Mark} {base field : Ident} {targets values : List Node}
    {op : String} (budget : Int) (hfile : unit.file = file.numbered) (hgraphs : unit.graphs = {})
    (hwalk : unit.file.node.walk = before ++ v :: after)
    (hnode : v.node = .assign m (.select sm (.ident base) field :: targets) op values)
    (hfn : Node.enclosingFunction v.above = some fn) (hbase : unit.info.bindingOf? base = some b)
    (hheader : (unit.info.binding b).type.isHeaderShaped unit.info.underlying = true) :
    ((¬∃ t, Begins fn (t ++ [v.node])) → Reported unit budget before v) ∧
    (¬Reported unit budget before v → ∃ t, Begins fn (t ++ [v.node]) ∧ Genuine unit.info b t) ∧
    ((∃ t, Begins fn (t ++ [v.node])) → (∀ t, Begins fn (t ++ [v.node]) → Genuine unit.info b t) →
      ((Graph.ofFunction fn).1.blocks.length : Int) ≤ budget → ¬Reported unit budget before v) ∧
    (∀ bm stmts ts e pre post, fn.functionBody = some (.mk bm stmts) → Straight stmts ts e →
      ts = pre ++ v.node :: post → ((Graph.ofFunction fn).1.blocks.length : Int) ≤ budget →
      (¬Reported unit budget before v ↔ Genuine unit.info b pre)) ∧
    (Reported unit budget before v ↔ ∃ d, (v.node.id, d) ∈ located unit budget) ∧
    ∀ options, HeaderMisuse.budget options = .ok budget →
      checker.found unit options = .ok ((located unit budget).map Prod.snd) := by
  have hverdict := not_reported_iff budget hfile hgraphs hwalk hnode hfn hbase hheader
  refine ⟨?_, ?_, not_reported_of_genuine hfile hgraphs hwalk hnode hfn hbase hheader, ?_,
    reported_iff_located hfile hwalk, fun _ hoption => found_eq_located hfile hoption⟩
  · intro hnone
    by_contra hreported
    obtain ⟨t, -, ht, -⟩ := hverdict.mp hreported
    exact hnone ⟨t, ht⟩
  · intro hreported
    obtain ⟨t, -, ht, hgenuine⟩ := hverdict.mp hreported
    exact ⟨t, ht, hgenuine⟩
  · intro bm stmts ts e pre post hbody hstraight hts hbudget
    exact not_reported_iff_of_straight hfile hgraphs hwalk hnode hfn hbase hheader
      hbody hstraight hts hbudget

end Verdict

/-! ## A sample

A function that derives a header from a string and then writes to it:

    h = (*Header)(unsafe.Pointer(x))
    h.Len = 1
-/

namespace Sample

def headerType : Ty :=
  .struct 0 [⟨"Data", some (.basic .uintptr), false⟩, ⟨"Len", some (.basic .int), false⟩]

def file : File where
  mark := {}
  package := ⟨{}, "main"⟩
  imports := []
  decls := [.funcDecl {} ⟨{}, "f"⟩ (.mk {} [] []) (some (.mk {} [
    .assign {} [.ident ⟨{}, "h"⟩] "=" [.call {} (.paren {} (.star {} (.ident ⟨{}, "Header"⟩)))
      [.call {} (.select {} (.ident ⟨{}, "unsafe"⟩) ⟨{}, "Pointer"⟩) [.ident ⟨{}, "x"⟩]]],
    .assign {} [.select {} (.ident ⟨{}, "h"⟩) ⟨{}, "Len"⟩] "=" [.literal {} .int "1"]]))]

def unit : CompilationUnit where
  name := "sample"
  file := file.numbered
  info :=
    { types := ⟨[(11, headerType), (16, .pointer 1 (some (.basic .string)))]⟩
      uses := ⟨[(7, 0), (19, 0)]⟩
      bindings := #[{ name := "h", kind := .var, type := .pointer 2 (some headerType) }] }

def function : Node := unit.file.decls.getD 0 default

def block : Block := function.functionBody.getD default

def derivation : Node := block.stmts.getD 0 default

def write : Node := block.stmts.getD 1 default

def visit : Visit := ⟨write, [.block block, function, unit.file.node]⟩

lemma visit_mem_walk : visit ∈ unit.file.node.walk := by
  have hroot : ⟨unit.file.node, []⟩ ∈ unit.file.node.walk := Visit.mem_unfold_of_mem mem_cons_self
  have hfn := Visit.mem_unfold_of_child hroot (show function ∈ _ from .tail _ (.head _))
  have hblock :=
    Visit.mem_unfold_of_child hfn (show Node.block block ∈ _ from .tail _ (.tail _ (.head _)))
  exact Visit.mem_unfold_of_child hblock (show write ∈ _ from .tail _ (.head _))

end Sample

/-- The write of the sample is not reported. -/
theorem reported_bracketed_sample : ∃ before after,
    Sample.unit.file.node.walk = before ++ Sample.visit :: after ∧
    ¬Reported Sample.unit 1 before Sample.visit := by
  obtain ⟨before, after, hwalk⟩ := List.append_of_mem Sample.visit_mem_walk
  refine ⟨before, after, hwalk, ?_⟩
  have hfile : Sample.unit.file = Sample.file.numbered := rfl
  have h := reported_bracketed 1 hfile rfl hwalk rfl rfl (b := 0) rfl rfl
  refine (h.2.2.2.1 _ _ [Sample.derivation, Sample.write] .through [Sample.derivation]
    [] rfl ?_ rfl (by decide)).mpr ?_
  · exact .simple trivial (.simple trivial .nil)
  · exact endsSafely_iff.mp rfl

end Recast.HeaderMisuse
