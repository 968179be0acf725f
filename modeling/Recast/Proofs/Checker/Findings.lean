import Recast.Proofs.Checker.Evidence
import Recast.Proofs.Syntax.Preorder

/-!
# What the header checker finds

The findings of the checker for the misuse of headers, before any is suppressed.

**Findings and failures.**  `Checker.found` is what a checker finds when it runs on a unit alone, or
the failure.  The checker for headers fails only if its budget is no whole number
(`HeaderMisuse.run_examine_error`).

**Two kinds of nodes.**  A node is a *header literal* (`isHeaderLiteral`) or, at its place in the
tree, an *unsafe assignment* (`isUnsafeAssignment`), or it is of no interest; never both.

* `HeaderMisuse.found_in_preorder` — the findings are those nodes in pre-order, each once, and they
  are counted right.
-/

namespace Recast

/-! ## Units that are checked -/

/-- What is left when a failure is forgotten is what there was. -/
lemma eq_ok_of_toOption {ε α : Type} {x : Except ε α} {a : α} (h : x.toOption = some a) :
    x = .ok a := by
  cases x with
  | error e => cases h
  | ok b => exact congrArg Except.ok (Option.some.inj h)

/-- A unit that is made of a file has the numbered file, no graphs, and what was found out about the
file. -/
lemma CompilationUnit.of_ofFile {name : String} {file : File} {unit : CompilationUnit} {log : Log}
    (h : CompilationUnit.ofFile name file = .ok (unit, log)) :
    unit.file = file.numbered ∧ unit.graphs = {} ∧
    unit.info = (Resolver.ofFile name file.numbered).info := by
  rw [CompilationUnit.ofFile, Info.ofFile] at h
  split at h
  · cases h
  · cases h
    exact ⟨rfl, rfl, rfl⟩

/-- A unit that is read from a description is made of the file that the description gives. -/
lemma CompilationUnit.of_ofText {name text : String} {unit : CompilationUnit}
    {expectations : List Expectation} {log : Log}
    (h : CompilationUnit.ofText name text = .ok (unit, expectations, log)) :
    ∃ file, File.ofText name text = .ok (file, expectations) ∧
    CompilationUnit.ofFile name file = .ok (unit, log) := by
  rw [CompilationUnit.ofText] at h
  cases htext : File.ofText name text with
  | error refusal =>
    rw [htext] at h
    cases h
  | ok p =>
    rw [htext] at h
    change (CompilationUnit.ofFile name p.1 >>= _) = _ at h
    cases hunit : CompilationUnit.ofFile name p.1 with
    | error failure =>
      rw [hunit] at h
      cases h
    | ok q =>
      rw [hunit] at h
      cases h
      exact ⟨p.1, rfl, hunit⟩

/-- What a checker finds in a unit when it is the first to run, or why it fails. -/
def Checker.found (c : Checker) (unit : CompilationUnit) (options : Options) :
    Except Failure (List Finding) :=
  ((c.examine unit options).run.run (Runner.start unit)).1.map (List.map c.finding)

namespace HeaderMisuse

section Findings

variable {file : File} {unit : CompilationUnit} {options : Options} {n : Int}

/-! ## The work of the checker -/

/-- The session in which evidence has been counted. -/
def counted (s : Session) (found : List Evidence) : Session :=
  let stats := s.stats.insert "header-misuse_literals" (found.countP Evidence.isLiteral)
  { s with stats := stats.insert "header-misuse_assignments" (found.countP (!·.isLiteral)) }

/-- There is no evidence at nodes of other kinds, and no question is asked there. -/
lemma evidence_filter (unit : CompilationUnit) (budget : Int) (vs : List Visit) :
    evidence unit budget (vs.filter (isSite ·.node)) = evidence unit budget vs := by
  induction vs with
  | nil => rfl
  | cons v vs ih =>
    obtain ⟨node, above⟩ := v
    cases node with
    | composite | assign => rw [List.filter_cons_of_pos rfl, evidence, evidence, ih]
    | _ =>
      rw [List.filter_cons_of_neg Bool.false_ne_true, ih, evidence]
      rfl

/-- With a budget, the checker collects the evidence of the walk and counts it. -/
lemma run_examine (h : budget options = .ok n) (s : Session) :
    (checker.examine unit options).run.run s =
      let found := (evidence unit n unit.file.node.walk).run s
      (.ok (found.1.map Evidence.draft), counted found.2 found.1) := by
  show ((do let budget ← budget options; _ : Check _)).run.run s = _
  rw [h, ← evidence_filter, ← Node.walk_eq_filter]
  rfl

/-- Without a budget, the checker fails before it has done anything. -/
lemma run_examine_error {failure : Failure} (h : budget options = .error failure) (s : Session) :
    (checker.examine unit options).run.run s = (.error failure, s) := by
  show ((do let budget ← budget options; _ : Check _)).run.run s = _
  rw [h]
  rfl

/-- What the walk collects is what there is to find at each visit, whatever the session, as long as
that serves the unit. -/
lemma fst_run_evidence (n : Int) (hfile : unit.file = file.numbered) {s : Session}
    (hs : s.Serves unit) :
    ((evidence unit n unit.file.node.walk).run s).1 =
      unit.file.node.walk.filterMap (evidence? unit n) :=
  (answers_evidence n hfile (fun _ hv _ ha => Node.above_mem_preorder hv ha) s hs).1

/-- What the checker finds, as a list of evidence. -/
lemma found_eq (hfile : unit.file = file.numbered) (h : budget options = .ok n) :
    checker.found unit options =
      .ok ((unit.file.node.walk.filterMap (evidence? unit n)).map
        (checker.finding ∘ Evidence.draft)) := by
  have hfound := fst_run_evidence n hfile (Runner.serves_start unit)
  rw [Checker.found, run_examine h, ← List.map_map, ← hfound]
  rfl

/-! ## Where findings are -/

/-- What the checker finds at a visit, with the number of the node. -/
def locate? (unit : CompilationUnit) (budget : Int) (v : Visit) : Option (Nat × Finding) :=
  ((evidenceAt unit budget v).run (Runner.start unit)).1.map fun e =>
    (v.node.id, checker.finding e.draft)

/-- **The findings of the checker for headers**, each with the number of its node. -/
def located (unit : CompilationUnit) (budget : Int) : List (Nat × Finding) :=
  unit.file.node.walk.filterMap (locate? unit budget)

lemma locate?_eq (hfile : unit.file = file.numbered) {v : Visit} (hv : v ∈ unit.file.node.walk) :
    locate? unit n v = (evidence? unit n v).map fun e => (v.node.id, checker.finding e.draft) := by
  rw [locate?,
    (answers_evidenceAt hfile (fun _ ha => Node.above_mem_preorder hv ha) _
      (Runner.serves_start unit)).1]

/-- What the checker finds is what it finds at the visits of the walk. -/
lemma found_eq_located (hfile : unit.file = file.numbered) (h : budget options = .ok n) :
    checker.found unit options = .ok ((located unit n).map Prod.snd) := by
  have hlocated : located unit n =
      unit.file.node.walk.filterMap fun v => (evidence? unit n v).map fun e =>
          (v.node.id, checker.finding e.draft) :=
    List.filterMap_congr fun v hv => locate?_eq hfile hv
  rw [found_eq hfile h, hlocated, List.map_filterMap, List.map_filterMap]
  simp only [Option.map_map, Function.comp_def]

/-- Something is found at a node exactly if there is evidence at its visit. -/
lemma exists_mem_located_iff (hfile : unit.file = file.numbered) {v : Visit}
    (hv : v ∈ unit.file.node.walk) :
    (∃ d, (v.node.id, d) ∈ located unit n) ↔ ∃ e, evidence? unit n v = some e := by
  have hdistinct : (unit.file.node.preorder.map Node.id).Nodup := hfile ▸ file.nodup_map_id_preorder
  constructor
  · rintro ⟨d, hd⟩
    obtain ⟨w, hw, hlocate⟩ := List.mem_filterMap.mp hd
    rw [locate?_eq hfile hw] at hlocate
    obtain ⟨e, he, heq⟩ := Option.map_eq_some_iff.mp hlocate
    obtain rfl := Visit.eq_of_id_eq hdistinct hw hv (congrArg Prod.fst heq)
    exact ⟨e, he⟩
  · rintro ⟨e, he⟩
    refine ⟨checker.finding e.draft, List.mem_filterMap.mpr ⟨v, hv, ?_⟩⟩
    rw [locate?_eq hfile hv, he]
    rfl

/-! ## Nodes of interest -/

/-- A composite literal whose type is a header. -/
def isHeaderLiteral (info : Info) : Node → Bool
  | .composite m type elements =>
    (info.typeOf (.composite m type elements)).isHeaderShaped info.underlying
  | _ => false

/-- An assignment whose targets are judged unsafe. -/
def isUnsafeAssignment (unit : CompilationUnit) (budget : Int) (v : Visit) : Bool :=
  match v.node with
  | .assign m targets _ _ => isUnsafe unit budget m v.above targets
  | _ => false

/-- The finding at a node of interest.  That at a literal has the spelling of its type. -/
def findingAt : Node → Finding
  | .composite m type _ =>
    { id := "headerLiteral", message := "header literal construction found",
      severity := .warning, loc := m.loc
      checker := "header-misuse", extra := spelledOption type }
  | n =>
    { id := "unsafeHeaderAssignment", message := "assignment to unsafely derived header object",
      severity := .warning
      loc := n.loc, checker := "header-misuse" }

/-- There is evidence exactly at the nodes of interest, and of their kind. -/
lemma evidence?_eq (v : Visit) :
    evidence? unit n v =
      if isHeaderLiteral unit.info v.node then some (.literal v.node.loc (findingAt v.node).extra)
      else if isUnsafeAssignment unit n v then some (.write v.node.loc)
      else none := by
  obtain ⟨node, above⟩ := v
  cases node with
  | composite m type elements => rfl
  | assign m targets op values => rfl
  | _ => rfl

lemma map_finding_evidence? (v : Visit) :
    (evidence? unit n v).map (checker.finding ∘ Evidence.draft) =
      if isHeaderLiteral unit.info v.node || isUnsafeAssignment unit n v then some (findingAt
        v.node) else none := by
  obtain ⟨node, above⟩ := v
  rw [evidence?_eq]
  cases node with
  | composite m type elements =>
    cases isHeaderLiteral unit.info (.composite m type elements) <;> rfl
  | assign m targets op values =>
    cases isUnsafeAssignment unit n ⟨.assign m targets op values, above⟩ <;> rfl
  | _ => rfl

lemma isLiteral_evidence? (v : Visit) :
    ((evidence? unit n v).map Evidence.isLiteral).getD false =
      isHeaderLiteral unit.info v.node := by
  rw [evidence?_eq]
  cases isHeaderLiteral unit.info v.node <;> cases isUnsafeAssignment unit n v <;> rfl

lemma not_isLiteral_evidence? (v : Visit) :
    ((evidence? unit n v).map (!·.isLiteral)).getD false = isUnsafeAssignment unit n v := by
  obtain ⟨node, above⟩ := v
  rw [evidence?_eq]
  cases node with
  | composite m type elements =>
    cases isHeaderLiteral unit.info (.composite m type elements) <;> rfl
  | assign m targets op values =>
    cases isUnsafeAssignment unit n ⟨.assign m targets op values, above⟩ <;> rfl
  | _ => rfl

/-- **The findings are the nodes of interest, in pre-order.**  There is one for each header literal
and one for each unsafe assignment, at its place, and there is no other; no node is visited twice;
and the two statistics are the numbers of each kind. -/
theorem found_in_preorder (hfile : unit.file = file.numbered) (hbudget : budget options = .ok n) :
    let visits := unit.file.node.visits []
    let stats := ((checker.examine unit options).run.run (Runner.start unit)).2.stats
    checker.found unit options =
      .ok ((visits.filter fun v => isHeaderLiteral unit.info v.node ||
        isUnsafeAssignment unit n v).map
        fun v => findingAt v.node) ∧
    (visits.map fun v => v.node.id).Nodup ∧
    stats.find? "header-misuse_literals" =
      some (visits.countP fun v => isHeaderLiteral unit.info v.node) ∧
    stats.find? "header-misuse_assignments" = some (visits.countP (isUnsafeAssignment unit n)) := by
  intro visits stats
  have hvisits : unit.file.node.walk = visits := unit.file.node.walk_eq
  have hfound := fst_run_evidence n hfile (Runner.serves_start unit)
  have hstats : stats = (counted ((evidence unit n unit.file.node.walk).run (Runner.start unit)).2
      (visits.filterMap (evidence? unit n))).stats := by
    rw [← hvisits, ← hfound]
    exact congrArg (·.2.stats) (run_examine hbudget _)
  refine ⟨?_, ?_, ?_, ?_⟩
  · rw [found_eq hfile hbudget, hvisits, List.map_filterMap]
    simp only [map_finding_evidence?]
    rw [← List.filterMap_eq_map, List.filterMap_filter]
    rfl
  · have hids := file.nodup_map_id_preorder
    rwa [← hfile, Node.preorder_eq_map_walk, hvisits, List.map_map] at hids
  · rw [hstats, counted, Table.find?_insert, if_neg (by decide), Table.find?_insert, if_pos rfl,
      List.countP_filterMap]
    simp only [isLiteral_evidence?]
  · rw [hstats, counted, Table.find?_insert, if_pos rfl, List.countP_filterMap]
    simp only [not_isLiteral_evidence?]

end Findings

/-! ## A sample

A literal under `&` at package level, and in a function a write to a field of a variable that does
not exist:

    var h = &Header{}
    x.Len = 1
-/

namespace Mixed

def header : Ty :=
  .struct 0 [⟨"Data", some (.basic .uintptr), false⟩, ⟨"Len", some (.basic .int), false⟩]

def file : File where
  mark := {}
  package := ⟨{}, "main"⟩
  imports := []
  decls := [
    .varSpec {} [⟨{}, "h"⟩] none
      [.unary {} "&" (.composite { loc := ⟨"mixed", 1, 2⟩ } (some (.ident ⟨{}, "Header"⟩)) [])],
    .funcDecl {} ⟨{}, "f"⟩ (.mk {} [] []) (some (.mk {} [
      .assign { loc := ⟨"mixed", 3, 1⟩ } [.select {} (.ident ⟨{}, "x"⟩) ⟨{}, "Len"⟩] "="
        [.literal {} .int "1"]]))]

def unit : CompilationUnit where
  name := "mixed"
  file := file.numbered
  info := { types := ⟨[(5, header)]⟩ }

end Mixed

/-- The literal and the write of the sample are found, in this order. -/
theorem found_in_preorder_mixed :
    checker.found Mixed.unit {} = .ok [
      { id := "headerLiteral", message := "header literal construction found", severity := .warning
        loc := ⟨"mixed", 1, 2⟩, checker := "header-misuse", extra := "Header" },
      { id := "unsafeHeaderAssignment", message := "assignment to unsafely derived header object",
        severity := .warning
        loc := ⟨"mixed", 3, 1⟩, checker := "header-misuse" }] := by
  have hfile : Mixed.unit.file = Mixed.file.numbered := rfl
  rw [(found_in_preorder hfile (n := Flow.defaultBudget) rfl).1]
  exact congrArg Except.ok (by decide +kernel)

end HeaderMisuse

end Recast
