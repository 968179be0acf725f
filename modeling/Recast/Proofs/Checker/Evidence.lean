import Recast.Checker.HeaderMisuse
import Recast.Proofs.Syntax.Numbering
import Recast.Runner

/-!
# Evidence without a session

The checker for the misuse of headers works in a session that keeps the graphs it has made.  What it
finds does not depend on that: a graph out of the session is the graph that belongs to the function,
since the nodes of a unit are known by their numbers.

**Verdicts.**  `isUnsafe` is the verdict on the targets of an assignment, and `evidence?` what is
found at a visit, both as functions of the unit alone.

**Sessions.**  A session `Serves` a unit if it gives every function its own graph.  That is so at
the start, and each visit keeps it so; hence `answers_evidence`: what the checker finds on a walk is
what there is to find at each visit.
-/

namespace Recast

open List
open Recast.Flow

/-- The graph that belongs to a function: the one supplied for it, or else the one made from it. -/
def CompilationUnit.graphOf (unit : CompilationUnit) (fn : Node) : Graph :=
  (unit.graphs.find? fn.id).getD (Graph.ofFunction fn).1

namespace HeaderMisuse

/-! ## Verdicts -/

variable (unit : CompilationUnit) (budget : Int)

/-- Whether a header variable holds a genuine header where an assignment uses it. -/
def isSafe (stmt : Mark) (above : List Node) (b : Nat) : Bool :=
  match Node.enclosingFunction above with
  | none => false
  | some fn =>
    match (unit.graphOf fn).pathTo? stmt.id budget with
    | none => false
    | some path => endsSafely unit.info b path.dropLast

/-- Whether an assignment to these targets writes to a header that is not known to be genuine. -/
def isUnsafe (stmt : Mark) (above : List Node) : List Node → Bool
  | .select _ (.ident base) _ :: targets =>
    match unit.info.bindingOf? base with
    | none => true
    | some b =>
      if (unit.info.binding b).type.isHeaderShaped unit.info.underlying then !isSafe
        unit budget stmt above b
      else isUnsafe stmt above targets
  | .select _ base _ :: _ => (unit.info.typeOf base).isHeaderShaped unit.info.underlying
  | _ => false

/-- The evidence at one node. -/
def evidence? (v : Visit) : Option Evidence :=
  match v.node with
  | .composite m type elements =>
    if (unit.info.typeOf (.composite m type elements)).isHeaderShaped unit.info.underlying then
      some (.literal m.loc (spelledOption type))
    else none
  | .assign m targets _ _ =>
    if isUnsafe unit budget m v.above targets then some (.write m.loc) else none
  | _ => none

end HeaderMisuse

/-! ## Sessions -/

namespace Flow.Cache

/-- The store gives the graph that it has for the number of a function, or else makes it. -/
lemma fst_get (c : Cache) (fn : Node) :
    (c.get fn).1 = (c.graphs.find? fn.id).getD (Graph.ofFunction fn).1 := by
  rw [get]
  cases c.graphs.find? fn.id with
  | some g => rfl
  | none => rfl

/-- Asking for the graph of a function changes nothing for other numbers. -/
lemma find?_get_of_ne (c : Cache) {fn : Node} {k : Nat} (h : fn.id ≠ k) :
    (c.get fn).2.1.graphs.find? k = c.graphs.find? k := by
  rw [get]
  cases c.graphs.find? fn.id with
  | some g => rfl
  | none =>
    show (c.graphs.insert fn.id _).find? k = _
    rw [Table.find?_insert, if_neg h]

end Flow.Cache

/-- **Serving a unit**: every function of the unit gets the graph that belongs to it. -/
def Session.Serves (s : Session) (unit : CompilationUnit) : Prop :=
  ∀ fn ∈ unit.file.node.preorder, (s.cache.get fn).1 = unit.graphOf fn

variable {unit : CompilationUnit} {budget : Int} {file : File}

lemma Runner.serves_start (unit : CompilationUnit) : (Runner.start unit).Serves unit :=
  fun fn _ => Cache.fst_get _ fn

/-- The answer of a step is one that the unit alone gives, and the session goes on serving the
unit. -/
def Answers {α : Type} (unit : CompilationUnit) (x : StateM Session α) (answer : α) : Prop :=
  ∀ s : Session, s.Serves unit → (x.run s).1 = answer ∧ (x.run s).2.Serves unit

lemma answers_return {α : Type} (a : α) : Answers unit (return a) a := fun _ hs => ⟨rfl, hs⟩

lemma Answers.bind {α β : Type} {x : StateM Session α} {f : α → StateM Session β} {a : α} {b : β}
    (hx : Answers unit x a) (hf : Answers unit (f a) b) : Answers unit (x >>= f) b := by
  intro s hs
  obtain ⟨ha, hs'⟩ := hx s hs
  have hb := hf _ hs'
  rw [← ha] at hb
  exact hb

/-- A note concerns the log only. -/
lemma answers_note (channel : Log.Channel) (text : String) :
    Answers unit (Session.note channel text) () :=
  fun _ hs => ⟨rfl, hs⟩

/-- **The store gives every function its own graph.**  A function that has the number of another one
is that function, so what is put into the store for one function is never given to another. -/
lemma answers_graphOf (hfile : unit.file = file.numbered) {fn : Node}
    (hfn : fn ∈ unit.file.node.preorder) :
    Answers unit (Session.graphOf fn) (unit.graphOf fn) := by
  intro s hs
  refine ⟨hs fn hfn, ?_⟩
  intro fn' hfn'
  show ((s.cache.get fn).2.1.get fn').1 = _
  by_cases hid : fn.id = fn'.id
  · have hsame : fn = fn' := by
      rw [hfile] at hfn hfn'
      exact File.eq_of_id_eq hfn hfn' hid
    subst hsame
    rw [Cache.fst_get, Cache.find?_get]
    exact hs fn hfn
  · rw [Cache.fst_get, Cache.find?_get_of_ne _ hid, ← Cache.fst_get]
    exact hs fn' hfn'

/-- A search in a session finds what the search in the graph finds. -/
lemma answers_pathTo? (g : Graph) (target : Mark) (budget : Int) :
    Answers unit (Session.pathTo? g target budget) (g.pathTo? target.id budget) := by
  rw [Session.pathTo?, Graph.pathTo?]
  cases g.search target.id budget with
  | found path => exact answers_return _
  | unreachable => exact answers_return _
  | exhausted => exact (answers_note _ _).bind (answers_return _)

/-! ## Evidence -/

namespace HeaderMisuse

lemma answers_isDerivedSafely (hfile : unit.file = file.numbered) {stmt : Mark}
    {above : List Node} {b : Nat} (habove : ∀ a ∈ above, a ∈ unit.file.node.preorder) :
    Answers unit (isDerivedSafely unit budget stmt above b) (isSafe unit budget stmt above b) := by
  rw [isDerivedSafely, isSafe]
  cases hfn : Node.enclosingFunction above with
  | none => exact (answers_note _ _).bind (answers_return _)
  | some fn =>
    have hmem : fn ∈ unit.file.node.preorder := habove fn (mem_of_find?_eq_some hfn)
    refine (answers_graphOf hfile hmem).bind ((answers_pathTo? _ _ _).bind ?_)
    dsimp only
    cases (unit.graphOf fn).pathTo? stmt.id budget with
    | none => exact (answers_note _ _).bind (answers_return _)
    | some path => exact answers_return _

lemma answers_isUnsafeWrite (hfile : unit.file = file.numbered) {stmt : Mark} {above : List Node}
    (habove : ∀ a ∈ above, a ∈ unit.file.node.preorder) (targets : List Node) :
    Answers unit (isUnsafeWrite unit budget stmt above targets)
      (isUnsafe unit budget stmt above targets) := by
  fun_induction isUnsafe unit budget stmt above targets with
  | case1 sm base name targets hbase =>
    rw [isUnsafeWrite, hbase]
    exact (answers_note _ _).bind (answers_return _)
  | case2 sm base name targets b hbase hheader =>
    rw [isUnsafeWrite, hbase]
    show Answers unit (if _ then _ else _) _
    rw [if_pos hheader]
    exact (answers_isDerivedSafely hfile habove).bind (answers_return _)
  | case3 sm base name targets b hbase hheader ih =>
    rw [isUnsafeWrite, hbase]
    show Answers unit (if _ then _ else _) _
    rw [if_neg hheader]
    exact ih
  | case4 sm base name targets hident =>
    rw [isUnsafeWrite]
    · exact answers_return _
    · assumption
  | case5 targets hident hselect =>
    rw [isUnsafeWrite]
    · exact answers_return _
    all_goals assumption

lemma answers_evidenceAt (hfile : unit.file = file.numbered) {v : Visit}
    (habove : ∀ a ∈ v.above, a ∈ unit.file.node.preorder) :
    Answers unit (evidenceAt unit budget v) (evidence? unit budget v) := by
  rw [evidenceAt, evidence?]
  cases hnode : v.node with
  | composite m type elements =>
    show Answers unit (if _ then _ else _) (if _ then _ else _)
    split
    · exact answers_return _
    · exact answers_return _
  | assign m targets op values =>
    refine (answers_isUnsafeWrite hfile habove targets).bind ?_
    show Answers unit (if _ then _ else _) (if _ then _ else _)
    split
    · exact answers_return _
    · exact answers_return _
  | _ => exact answers_return _

/-- **What the checker finds** on a walk is what there is to find at each visit. -/
theorem answers_evidence (budget : Int) (hfile : unit.file = file.numbered) {vs : List Visit}
    (hvs : ∀ v ∈ vs, ∀ a ∈ v.above, a ∈ unit.file.node.preorder) :
    Answers unit (evidence unit budget vs) (vs.filterMap (evidence? unit budget)) := by
  induction vs with
  | nil => exact answers_return _
  | cons v vs ih =>
    rw [evidence]
    refine (answers_evidenceAt hfile (hvs v mem_cons_self)).bind
      ((ih fun w hw => hvs w (mem_cons_of_mem v hw)).bind ?_)
    cases h : evidence? unit budget v with
    | none =>
      rw [filterMap_cons_none h]
      exact answers_return _
    | some e =>
      rw [filterMap_cons_some h]
      exact answers_return _

end HeaderMisuse

end Recast
