import Recast.Proofs.Checker.Located
import Recast.Proofs.Lockstep.Bodies

/-!
# Another body for one function

What is found outside the body of a function does not depend on that body.  The two runs of the
resolver agree about everything outside it, so that the checkers find the same there, at the same
nodes and in the same order.

**The function itself.**  An assignment may stand in the signature of the function, in a length for
example.  Then the function encloses it, and the ways through its body count; but none leads to such
a place, whatever the body is.

* `Surroundings.mirrored` — what the two resolutions have in common.
* `Surroundings.unaffected_by_body` — types, bindings and findings outside the body.
-/

namespace Recast

open List
open Ty (Alike Matches)
open Relabeling (renumber)
open Lockstep (unserial resolved bodyChange)

namespace Surroundings

variable (S : Surroundings) (body body' : Option Block)

/-- The nodes of the body in the numbered unit. -/
def bodyNodes : List Node := preorderAll (blockOfBody (numberBody body S.start).1)

/-- The nodes outside the body are those that are not in it. -/
lemma outside_iff {n : Node} (hn : n ∈ (S.root body).preorder) :
    S.Outside body n.id ↔ n ∉ S.bodyNodes body := by
  constructor
  · intro hout hbody
    exact S.id_body body hbody hout
  · intro hbody
    have hwalk : (S.root body).preorder = S.root body :: (preorderAll S.numbered.front ++
        (S.decl body :: (preorderAll S.numbered.head ++ S.bodyNodes body) ++
            preorderAll (S.rear body))) := by
      rw [Node.preorder_eq_map_walk, S.walk_root]
      simp only [map_cons, map_append, map_node_visitsAll, bodyNodes]
    simp only [hwalk, mem_cons, mem_append] at hn
    rcases hn with rfl | hn | (rfl | hn | hn) | hn
    · exact S.outside_root body
    · exact S.outside_front body hn
    · exact S.outside_decl body
    · exact S.outside_head body hn
    · exact absurd hn hbody
    · exact S.outside_rear body hn

/-! ## Two resolutions -/

/-- The nodes outside the body, but for the unit and the function, which have it in them. -/
def Around (n : Node) : Prop :=
  n ∈ preorderAll (S.numbered.front ++ (S.numbered.head ++ S.rear body))

lemma around_iff {n : Node} : S.Around body n ↔
    n ∈ preorderAll S.numbered.front ∨ n ∈ preorderAll S.numbered.head ∨
    n ∈ preorderAll (S.rear body) := by
  rw [Around, preorderAll_append, preorderAll_append, mem_append, mem_append]

lemma outside_of_around {n : Node} (h : S.Around body n) : S.Outside body n.id := by
  rcases (S.around_iff body).mp h with h | h | h
  · exact S.outside_front body h
  · exact S.outside_head body h
  · exact S.outside_rear body h

lemma hereditary_around : Flow.Hereditary (S.Around body) :=
  fun _ hn _ hc => mem_preorderAll_of_child hn hc

/-- The nodes outside the body one by one: the unit, the function, and relabeled nodes. -/
lemma forall₂_nodesAround {R : Node → Node → Prop} (hroot : R (S.root body) (S.root body'))
    (hdecl : R (S.decl body) (S.decl body'))
    (hrelabel : ∀ n, S.Around body n → R n (n.relabel (renumber (S.shift body body')))) :
    Forall₂ R (S.nodesAround body) (S.nodesAround body') := by
  have hpart : ∀ ns : List Node, (∀ n ∈ preorderAll ns, S.Around body n) →
      Forall₂ R (preorderAll ns)
          (preorderAll (ns.map (Node.relabel (renumber (S.shift body body'))))) := by
    intro ns hns
    rw [preorderAll_relabel]
    exact forall₂_map_right_iff.mpr (forall₂_same.mpr fun n hn => hrelabel n (hns n hn))
  have hfront := hpart S.numbered.front fun n hn => (S.around_iff body).mpr (Or.inl hn)
  have hhead := hpart S.numbered.head fun n hn => (S.around_iff body).mpr (Or.inr (Or.inl hn))
  have hrear := hpart (S.rear body) fun n hn => (S.around_iff body).mpr (Or.inr (Or.inr hn))
  rw [relabel_front] at hfront
  rw [relabel_head] at hhead
  rw [rear, relabel_after] at hrear
  exact .cons hroot (rel_append hfront (rel_append (.cons hdecl hhead) hrear))

variable (name : String)

/-- The bindings that belong together in the two units. -/
def binds : Nat → Nat → Prop := ((bodyChange S body body').behind name).binds

/-- **What the two resolutions have in common.** -/
lemma mirrored : (resolved name (S.fill body).numbered).info.Mirrored unserial
    (renumber (S.shift body body')) (S.Around body)
    (S.binds body body' name) (resolved name (S.fill body').numbered).info :=
  ((bodyChange S body body').agree_resolved name).mirrored
    ((bodyChange S body body').sound_behind name).lawful
    (S.hereditary_around body) (S.outside_of_around body)
    (fun _ => Node.isQualified_relabel rfl _ _ _)
    fun _ _ => spelledOption_relabel rfl _

/-- Bindings that are the same but for their numbers. -/
structure SameBinding (x x' : Binding) : Prop where
  name : x'.name = x.name
  kind : x'.kind = x.kind
  package : x'.package = x.package
  loc : x'.loc = x.loc
  type : Alike unserial x.type x'.type

lemma sameBinding {b b' : Nat} (h : S.binds body body' name b b') :
    SameBinding ((resolved name (S.fill body).numbered).info.binding b)
      ((resolved name (S.fill body').numbered).info.binding b') := by
  have hrel := ((bodyChange S body body').agree_resolved name).binding h
  exact ⟨hrel.name (Or.inr rfl), hrel.kind, hrel.package, hrel.loc, hrel.type⟩

/-- **A node and its counterpart** in the other unit: they have alike types, and identifiers have
the same name and bindings that belong together. -/
structure Counterpart (info info' : Info) (n n' : Node) : Prop where
  id : n'.id = S.shift body body' n.id
  kind : n'.kind = n.kind
  loc : n'.loc = n.loc
  type : Option.Rel (Alike unserial) (info.types.find? n.id) (info'.types.find? n'.id)
  binding : ∀ i, n = .ident i → ∃ i', n' = .ident i' ∧ i'.name = i.name ∧
    Option.Rel (S.binds body body' name) (info.bindingOf? i) (info'.bindingOf? i')

/-- The unit and the function, which have the body in them, are in their places. -/
lemma shift_root : (S.root body').id = S.shift body body' (S.root body).id :=
  (S.shift_of_lt body body' (Nat.lt_trans (Nat.succ_pos _) S.declNumber_lt_start)).symm

lemma shift_decl : (S.decl body').id = S.shift body body' (S.decl body).id :=
  (S.shift_of_lt body body' (Nat.lt_of_succ_lt S.declNumber_lt_start)).symm

lemma counterpart_relabel {n : Node} (hn : S.Around body n) :
    S.Counterpart body body' name (resolved name (S.fill body).numbered).info
      (resolved name (S.fill body').numbered).info n
      (n.relabel (renumber (S.shift body body'))) where
  id := Node.id_relabel _ n
  kind := Node.kind_relabel _ n
  loc := Node.loc_relabel _ n
  type := by
    rw [Node.id_relabel]
    exact (S.mirrored body body' name).types hn
  binding i hi := by
    subst hi
    exact ⟨i.relabel (renumber (S.shift body body')), rfl, rfl,
      (S.mirrored body body' name).names hn⟩

/-- Every node outside the body has its counterpart. -/
lemma counterparts : Forall₂
    (S.Counterpart body body' name (resolved name (S.fill body).numbered).info
      (resolved name (S.fill body').numbered).info) (S.nodesAround body) (S.nodesAround body') := by
  have hagree := (bodyChange S body body').agree_resolved name
  refine S.forall₂_nodesAround body body' ⟨S.shift_root body body', rfl, rfl, ?_, nofun⟩
    ⟨S.shift_decl body body', rfl, rfl, ?_, nofun⟩ fun n => S.counterpart_relabel body body' name
  · rw [S.shift_root body body']
    exact hagree.types (S.outside_root body)
  · rw [S.shift_decl body body']
    exact hagree.types (S.outside_decl body)

/-! ## Findings -/

section Findings

variable {unit unit' : CompilationUnit} {budget : Int}

/-- No way through the function leads to a place outside its body. -/
lemma isSafe_decl (hgraphs : unit.graphs = {}) {stmt : Mark}
    (hstmt : S.Outside body stmt.id) (b : Nat) :
    HeaderMisuse.isSafe unit budget stmt [S.decl body, S.root body] b = false := by
  have hfn : Node.enclosingFunction [S.decl body, S.root body] = some (S.decl body) := rfl
  refine HeaderMisuse.isSafe_of_none hfn ?_
  have hgraph : unit.graphOf (S.decl body) = (Flow.Graph.ofFunction (S.decl body)).1 := by
    rw [CompilationUnit.graphOf, hgraphs]
    rfl
  have hnodes : (unit.graphOf (S.decl body)).AllNodes
      fun n => n ∈ preorderAll (blockOfBody (numberBody body S.start).1) := by
    rw [hgraph]
    refine Flow.Graph.allNodes_ofFunction (fun _ _ hn _ hc => mem_preorderAll_of_child hn hc)
      fun b hb => ?_
    exact mem_preorderAll_of_mem (mem_map_of_mem (Option.mem_toList.mpr hb))
  refine Flow.Graph.pathTo?_eq_none hnodes fun m hm hid => S.id_body body hm ?_
  rwa [hid]

/-- What the header checker finds outside the body is what it finds at the visits there. -/
lemma filter_located (hfile : unit.file = (S.fill body).numbered) :
    (HeaderMisuse.located unit budget).filter (fun x => S.Outside body x.1) =
      (S.visitsAround body).filterMap (HeaderMisuse.locate? unit budget) := by
  rw [HeaderMisuse.located, hfile, ← S.filter_walk, filter_filterMap, filterMap_filter]
  refine filterMap_congr fun v _ => ?_
  rw [HeaderMisuse.locate?]
  cases ((HeaderMisuse.evidenceAt unit budget v).run (Runner.start unit)).1 with
  | none => simp
  | some e => simp [Option.filter]

/-- What the checker for casts finds outside the body is what it finds at the nodes there. -/
lemma filter_located_cast (hfile : unit.file = (S.fill body).numbered) :
    (StructCast.located unit).filter (fun x => S.Outside body x.1) =
      (S.nodesAround body).filterMap (StructCast.locate? unit.info) := by
  rw [StructCast.located, hfile, ← S.filter_preorder, filter_filterMap, filterMap_filter]
  refine filterMap_congr fun n _ => ?_
  rw [StructCast.locate?]
  cases StructCast.mismatchAt? unit.info n with
  | none => simp
  | some e => simp [Option.filter]

/-- **The two units.** -/
structure Checked (unit unit' : CompilationUnit) : Prop where
  file : unit.file = (S.fill body).numbered
  file' : unit'.file = (S.fill body').numbered
  graphs : unit.graphs = {}
  graphs' : unit'.graphs = {}
  info : unit.info = (resolved name (S.fill body).numbered).info
  info' : unit'.info = (resolved name (S.fill body').numbered).info

variable {S body body' name}

namespace Checked

/-- Units of the two files that are resolved are such units. -/
lemma of_ofFile {log log' : Log}
    (hunit : CompilationUnit.ofFile name (S.fill body) = .ok (unit, log))
    (hunit' : CompilationUnit.ofFile name (S.fill body') = .ok (unit', log')) :
    S.Checked body body' name unit unit' := by
  obtain ⟨hfile, hgraphs, hinfo⟩ := CompilationUnit.of_ofFile hunit
  obtain ⟨hfile', hgraphs', hinfo'⟩ := CompilationUnit.of_ofFile hunit'
  exact ⟨hfile, hfile', hgraphs, hgraphs', hinfo.trans (Lockstep.ofFile_eq_resolved name _).1,
    hinfo'.trans (Lockstep.ofFile_eq_resolved name _).1⟩

variable (h : S.Checked body body' name unit unit')
include h

lemma mirrored : unit.info.Mirrored unserial (renumber (S.shift body body')) (S.Around body)
    (S.binds body body' name)
    unit'.info := by
  rw [h.info, h.info']
  exact S.mirrored body body' name

/-- Below the same nodes, or below the function, the same is found. -/
lemma locate?_visitsAll (budget : Int) (outer outer' ns : List Node)
    (hns : ∀ n ∈ ns, S.Around body n)
    (houter : ∀ n, S.Around body n → ∀ b b', HeaderMisuse.isSafe unit' budget
      (n.mark.relabel (renumber (S.shift body body'))) outer' b' =
        HeaderMisuse.isSafe unit budget n.mark outer b) :
    Forall₂ (fun v v' => v ∈ unit.file.node.walk → v' ∈ unit'.file.node.walk →
      HeaderMisuse.locate? unit' budget v' =
        (HeaderMisuse.locate? unit budget v).map (relocate (renumber (S.shift body body'))))
      (visitsAll outer ns)
      (visitsAll outer' (ns.map (Node.relabel (renumber (S.shift body body'))))) := by
  have hmirrors : Forall₂
    (Visit.Mirrors (renumber (S.shift body body')) (S.Around body) outer outer')
      (visitsAll ([] ++ outer) ns)
      (visitsAll ([] ++ outer') (ns.map (Node.relabel (renumber (S.shift body body'))))) :=
    mirrors_visitsAll (S.hereditary_around body) nofun hns
  refine hmirrors.imp fun v v' hv hwalk hwalk' => ?_
  exact HeaderMisuse.locate?_mirrors h.mirrored h.file h.file' h.graphs h.graphs'
    (fun n hn b b' _ => houter n hn b b') hv
    hwalk hwalk'

/-- **The header checker** finds the same outside the body. -/
lemma header_findings (budget : Int) :
    (HeaderMisuse.located unit' budget).filter (fun x => S.Outside body' x.1) =
    ((HeaderMisuse.located unit budget).filter fun x => S.Outside body x.1).map
      (relocate (renumber (S.shift body body'))) := by
  have hfront := h.locate?_visitsAll budget [S.root body] [S.root body'] S.numbered.front
    (fun n hn => (S.around_iff body).mpr (Or.inl (mem_preorderAll_of_mem hn))) fun _ _ _ _ => rfl
  have hhead :=
    h.locate?_visitsAll budget [S.decl body, S.root body]
      [S.decl body', S.root body'] S.numbered.head
    (fun n hn => (S.around_iff body).mpr (Or.inr (Or.inl (mem_preorderAll_of_mem hn))))
    fun n hn b b' => by
      have hout := S.outside_of_around body hn
      rw [S.isSafe_decl body h.graphs hout, S.isSafe_decl body' h.graphs'
        (S.outside_shift body body' hout)]
  have hrear := h.locate?_visitsAll budget [S.root body] [S.root body'] (S.rear body)
    (fun n hn => (S.around_iff body).mpr (Or.inr (Or.inr (mem_preorderAll_of_mem hn))))
    fun _ _ _ _ => rfl
  rw [relabel_front] at hfront
  rw [relabel_head] at hhead
  rw [rear, relabel_after, ← rear, ← rear] at hrear
  rw [S.filter_located body h.file, S.filter_located body' h.file']
  refine filterMap_of_forall₂
    (.cons (fun _ _ => rfl) (rel_append hfront (rel_append (.cons (fun _ _ => rfl) hhead)
    hrear))) fun v hv v' hv' hfound => hfound ?_ ?_
  · rw [h.file]
    exact mem_of_mem_filter (S.filter_walk body ▸ hv)
  · rw [h.file']
    exact mem_of_mem_filter (S.filter_walk body' ▸ hv')

/-- **The checker for casts** finds the same outside the body. -/
lemma cast_findings : (StructCast.located unit').filter (fun x => S.Outside body' x.1) =
    ((StructCast.located unit).filter fun x => S.Outside body x.1).map
      (relocate (renumber (S.shift body body'))) := by
  rw [S.filter_located_cast body h.file, S.filter_located_cast body' h.file']
  exact filterMap_of_forall₂ (S.forall₂_nodesAround body body' rfl rfl
    fun n hn => StructCast.locate?_relabel h.mirrored hn) fun _ _ _ _ hfound => hfound

end Checked

variable (S body body' name)

/-- **What goes on in a body stays there.**  Two units that are resolved, and that differ in nothing
but the body of one function, have the same nodes outside that body, in the same order.  Each has
alike types in both and, if it is an identifier, bindings that belong together; these are the same,
and no binding belongs to two.  Declared types stand for types that are alike.  For every budget
both checkers find the same outside the body: the same findings, at the same nodes, in the same
order.  These are the findings that the checkers return. -/
theorem unaffected_by_body {log log' : Log}
    (hunit : CompilationUnit.ofFile name (S.fill body) = .ok (unit, log))
    (hunit' : CompilationUnit.ofFile name (S.fill body') = .ok (unit', log')) :
    List.Forall₂ (S.Counterpart body body' name unit.info unit'.info)
      (unit.file.node.preorder.filter fun n => S.Outside body n.id)
      (unit'.file.node.preorder.filter fun n => S.Outside body' n.id) ∧
    (∀ n ∈ unit.file.node.preorder, S.Outside body n.id ↔ n ∉ S.bodyNodes body) ∧
    (∀ n ∈ unit'.file.node.preorder, S.Outside body' n.id ↔ n ∉ S.bodyNodes body') ∧
    (∀ {b b'}, S.binds body body' name b b' →
      SameBinding (unit.info.binding b) (unit'.info.binding b')) ∧
    (∀ {b b' c c'}, S.binds body body' name b b' →
      S.binds body body' name c c' → (b = c ↔ b' = c')) ∧
    Matches unserial unit.info.underlying unit'.info.underlying ∧
    (∀ budget, (HeaderMisuse.located unit' budget).filter (fun x => S.Outside body' x.1) =
      ((HeaderMisuse.located unit budget).filter fun x => S.Outside body x.1).map
        (relocate (renumber (S.shift body body')))) ∧
    (StructCast.located unit').filter (fun x => S.Outside body' x.1) =
      ((StructCast.located unit).filter fun x => S.Outside body x.1).map
        (relocate (renumber (S.shift body body'))) ∧
    (∀ options budget, HeaderMisuse.budget options = .ok budget →
      HeaderMisuse.checker.found unit options =
        .ok ((HeaderMisuse.located unit budget).map Prod.snd) ∧
      HeaderMisuse.checker.found unit' options =
        .ok ((HeaderMisuse.located unit' budget).map Prod.snd)) ∧
    ∀ options, StructCast.checker.found unit options =
      .ok ((StructCast.located unit).map Prod.snd) ∧
      StructCast.checker.found unit' options = .ok ((StructCast.located unit').map Prod.snd) := by
  have h := Checked.of_ofFile hunit hunit'
  refine ⟨?_, fun n hn => ?_, fun n hn => ?_, ?_, h.mirrored.one, h.mirrored.env,
    h.header_findings, h.cast_findings, fun _ _ hbudget =>
      ⟨HeaderMisuse.found_eq_located h.file hbudget, HeaderMisuse.found_eq_located h.file' hbudget⟩,
    fun options =>
      ⟨StructCast.found_eq_located unit options, StructCast.found_eq_located unit' options⟩⟩
  · rw [h.file, h.file', h.info, h.info']
    have hcounterparts := S.counterparts body body' name
    rwa [← S.filter_preorder, ← S.filter_preorder] at hcounterparts
  · rw [h.file] at hn
    exact S.outside_iff body hn
  · rw [h.file'] at hn
    exact S.outside_iff body' hn
  · rw [h.info, h.info']
    exact S.sameBinding body body' name

end Findings

/-! ## A sample

The function `f` writes to a field of a variable that does not exist there.  Before it stands a
function that has no body, or else one that declares a variable of that name and writes to a field
of another one that does not exist:

    func g() { x := 1; z.Len = 2 }
    func f() { x.Len = 3 }
-/

namespace Sample

/-- The statement `name.Len = value` on a line. -/
def write (line : Int) (name value : String) : Node :=
  .assign { loc := ⟨"sample", line, 1⟩ } [.select {} (.ident ⟨{}, name⟩) ⟨{}, "Len"⟩] "="
    [.literal {} .int value]

def surroundings : Surroundings where
  mark := {}
  package := ⟨{}, "main"⟩
  imports := []
  before := []
  declMark := {}
  name := ⟨{}, "g"⟩
  type := .mk {} [] []
  after := [.funcDecl {} ⟨{}, "f"⟩ (.mk {} [] []) (some (.mk {} [write 5 "x" "3"]))]

def bodyOfG : Option Block :=
  some (.mk {} [.assign {} [.ident ⟨{}, "x"⟩] ":=" [.literal {} .int "1"], write 3 "z" "2"])

/-- The finding at a write on a line. -/
def finding (line : Int) : Finding :=
  { id := "unsafeHeaderAssignment", message := "assignment to unsafely derived header object",
    severity := .warning
    loc := ⟨"sample", line, 1⟩, checker := "header-misuse" }

end Sample

/-- Whether or not `g` has its body, the same is found in `f`. -/
theorem unaffected_by_body_sample : ∃ unit log unit' log',
    CompilationUnit.ofFile "sample" (Sample.surroundings.fill none) = .ok (unit, log) ∧
    CompilationUnit.ofFile "sample" (Sample.surroundings.fill Sample.bodyOfG) = .ok (unit', log') ∧
    HeaderMisuse.located unit 10 = [(9, Sample.finding 5)] ∧
    (HeaderMisuse.located unit' 10).filter
      (fun x => Sample.surroundings.Outside Sample.bodyOfG x.1) =
      [(18, Sample.finding 5)] := by
  have hfirst : (CompilationUnit.ofFile "sample" (Sample.surroundings.fill none)).toOption.map
      (fun p => HeaderMisuse.located p.1 10) = some [(9, Sample.finding 5)] := by decide +kernel
  have hsecond :
      (CompilationUnit.ofFile "sample"
          (Sample.surroundings.fill Sample.bodyOfG)).toOption.isSome := by
    decide +kernel
  obtain ⟨⟨unit, log⟩, hunit, hlocated⟩ := Option.map_eq_some_iff.mp hfirst
  obtain ⟨⟨unit', log'⟩, hunit'⟩ := Option.isSome_iff_exists.mp hsecond
  replace hunit := eq_ok_of_toOption hunit
  replace hunit' := eq_ok_of_toOption hunit'
  obtain ⟨-, -, -, -, -, -, hfound, -⟩ :=
    Sample.surroundings.unaffected_by_body none Sample.bodyOfG "sample" hunit hunit'
  refine ⟨unit, log, unit', log', hunit, hunit', hlocated, ?_⟩
  rw [hfound 10, hlocated]
  decide +kernel

end Surroundings

end Recast
