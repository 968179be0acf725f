import Recast.Proofs.Checker.Located
import Recast.Proofs.Lockstep.Renaming
import Recast.Proofs.Syntax.Lines

/-!
# Findings and the names of variables

The name of a variable has no influence on what the checkers find: if it gets another one, the unit
is resolved as before and the same is found.

**Where names count.**  A raw conversion is recognised by the spelling `unsafe.Pointer`.  No
variable is called `unsafe` before or after, and a name behind a dot never stands for a variable.  A
literal is reported with the spelling of its type; if that is a header, there is no variable in it.

* `CompilationUnit.rename` — the file in which a variable has another name.
* `CompilationUnit.unaffected_by_renaming` — types, bindings and findings are the same.
-/

namespace Recast

open List
open Relabeling (respell)
open Lockstep (resolved respelling Renames Selected)
open Lockstep.Reading (respelled)

variable {name : String} {file : File} {b : Nat} {new : String}

/-! ## Two resolutions -/

namespace Lockstep.Renames

variable {c : Change} (h : Renames name file c)

/-- How the identifiers that stand for the variable are spelled. -/
abbrev labels (name : String) (file : File) (c : Change) : Relabeling :=
  respell (respelling (resolved name file).info c.binding c.new)

include h

/-- A name is `unsafe` as before. -/
lemma spell_eq_unsafe (hold : c.old ≠ "unsafe") (hnew : c.new ≠ "unsafe") {i : Ident}
    (hi : i ∈ identifiers file.decls) :
    ((i.relabel (labels name file c)).name == "unsafe") = (i.name == "unsafe") := by
  show (respelling (resolved name file).info c.binding c.new i == "unsafe") = _
  rw [respelling]
  split
  next hb =>
    rw [(h.stands hi hb).1, beq_false_of_ne hold, beq_false_of_ne hnew]
  next => rfl

/-- **A raw conversion is one as before.** -/
lemma isQualified_relabel (hold : c.old ≠ "unsafe") (hnew : c.new ≠ "unsafe") {n : Node}
    (hn : n ∈ preorderAll file.decls) :
    (n.relabel (labels name file c)).isQualified "unsafe" "Pointer" =
      n.isQualified "unsafe" "Pointer" := by
  cases n with
  | select m base sel =>
    have hsel : sel ∈ identifiers file.decls :=
      mem_identifiers.mpr (mem_preorderAll_of_child hn (mem_cons_of_mem _ mem_cons_self))
    have hkept : (sel.relabel (labels name file c)).name = sel.name :=
      if_neg fun hb => (h.stands hsel hb).2 ⟨m, base, hn⟩
    cases base with
    | ident i =>
      have hi : i ∈ identifiers file.decls :=
        mem_identifiers.mpr (mem_preorderAll_of_child hn mem_cons_self)
      show ((i.relabel (labels name file c)).name == "unsafe" &&
        (sel.relabel (labels name file c)).name == "Pointer") = _
      rw [h.spell_eq_unsafe hold hnew hi, hkept]
      rfl
    | _ => rfl
  | _ => rfl

/-- **The type of a header literal is spelled as before.** -/
lemma spelled_header {m : Mark} {type : Option Node} {elements : List Node}
    (hn : .composite m type elements ∈ preorderAll file.decls)
    (hheader : ((resolved name file).info.typeOf (.composite m type elements)).isHeaderShaped
      (resolved name file).info.underlying = true) :
    spelledOption (relabelOption (labels name file c) type) = spelledOption type := by
  have hplain := Ty.Plain.of_isHeaderShaped hheader
  rw [Info.typeOf] at hplain
  cases ht : (resolved name file).info.types.find? (Node.composite m type elements).id with
  | none =>
    rw [ht] at hplain
    cases hplain
  | some t =>
    rw [ht] at hplain
    exact h.agree.suits hn ht hplain

/-- **What the two resolutions have in common.** -/
lemma mirrored (hold : c.old ≠ "unsafe") (hnew : c.new ≠ "unsafe") :
    (resolved name file).info.Mirrored ⟨Eq, Eq⟩ (labels name file c) (· ∈ file.node.preorder) Eq
      (resolved name (file.relabel (labels name file c))).info := by
  have hdecls : ∀ {n}, n ∈ file.node.preorder → n = file.node ∨ n = .ident file.package ∨
      (∃ spec, n = .importSpec spec) ∨ n ∈ preorderAll file.decls := by
    intro n hn
    rw [file.preorder_eq_append] at hn
    simp only [cons_append, mem_cons, mem_append, mem_map] at hn
    rcases hn with hn | hn | ⟨spec, -, rfl⟩ | hn
    · exact Or.inl hn
    · exact Or.inr (Or.inl hn)
    · exact Or.inr (Or.inr (Or.inl ⟨spec, rfl⟩))
    · exact Or.inr (Or.inr (Or.inr hn))
  refine h.agree.mirrored (Reading.sound_respelled h.nodup h.old_ne h.new_ne).lawful ?_
    (fun _ => trivial) (fun hn => ?_)
    fun hn hheader => ?_
  · intro n hn m hm
    rw [Node.preorder_eq] at hn ⊢
    exact mem_preorderAll_of_child hn hm
  · rcases hdecls hn with rfl | rfl | ⟨spec, rfl⟩ | hn
    · rfl
    · rfl
    · rfl
    · exact h.isQualified_relabel hold hnew hn
  · rcases hdecls hn with heq | heq | ⟨spec, heq⟩ | hn
    · cases heq
    · cases heq
    · cases heq
    · exact h.spelled_header hn hheader

end Lockstep.Renames

/-! ## Findings -/

section Findings

variable {unit unit' : CompilationUnit} {file' : File} {spell : Ident → String}
  (h : unit.info.Mirrored ⟨Eq, Eq⟩ (respell spell) (· ∈ unit.file.node.preorder) Eq unit'.info)
  (hfile' : unit'.file = unit.file.relabel (respell spell))

lemma walk_eq_visitsAll (root : Node) : root.walk = visitsAll [] [root] := by
  rw [Node.walk_eq, visitsAll_eq, flatMap_singleton]

lemma relocate_respell (spell : Ident → String) : relocate (respell spell) = id := rfl

include h hfile'

/-- **The header checker** finds the same in a unit that is spelled in another way. -/
lemma HeaderMisuse.located_respell (hnumbered : unit.file = file.numbered)
    (hnumbered' : unit'.file = file'.numbered)
    (hgraphs : unit.graphs = {}) (hgraphs' : unit'.graphs = {}) (budget : Int) :
    located unit' budget = located unit budget := by
  have hroot : unit'.file.node.walk = visitsAll [] [unit.file.node.relabel (respell spell)] := by
    rw [hfile', walk_eq_visitsAll]
    rfl
  have hmirrors : Forall₂ (Visit.Mirrors (respell spell) (· ∈ unit.file.node.preorder) [] [])
      (visitsAll ([] ++ []) [unit.file.node])
      (visitsAll ([] ++ []) ([unit.file.node].map (Node.relabel (respell spell)))) :=
    mirrors_visitsAll h.hereditary nofun fun n hn => by
      rw [mem_singleton.mp hn, Node.preorder_eq]
      exact mem_preorderAll_of_mem mem_cons_self
  have hfound : (visitsAll [] [unit.file.node.relabel (respell spell)]).filterMap
    (locate? unit' budget) =
      ((visitsAll [] [unit.file.node]).filterMap (locate? unit budget)).map
      (relocate (respell spell)) :=
    filterMap_of_forall₂ hmirrors fun v hv v' hv' hmirror => locate?_mirrors h hnumbered hnumbered'
      hgraphs hgraphs' (fun _ _ _ _ _ => rfl) hmirror
      (walk_eq_visitsAll _ ▸ hv) (hroot ▸ hv')
  rw [relocate_respell, map_id] at hfound
  rw [located, located, hroot, walk_eq_visitsAll]
  exact hfound

/-- **The checker for casts** finds the same. -/
lemma StructCast.located_respell : located unit' = located unit := by
  have hnodes : Forall₂ (fun n n' => n' = n.relabel (respell spell)) unit.file.node.preorder
      (unit.file.node.preorder.map (Node.relabel (respell spell))) :=
    forall₂_map_right_iff.mpr (forall₂_same.mpr fun _ _ => rfl)
  have hfound : (unit.file.node.preorder.map (Node.relabel (respell spell))).filterMap
    (locate? unit'.info) =
      (unit.file.node.preorder.filterMap (locate? unit.info)).map (relocate (respell spell)) :=
    filterMap_of_forall₂ hnodes fun n hn n' _ heq => by
      subst heq
      exact locate?_relabel h hn
  rw [relocate_respell, map_id] at hfound
  rw [located, located, ← hfound, hfile', Node.preorder_eq, Node.preorder_eq, ← preorderAll_relabel]
  rfl

end Findings

/-! ## Units -/

namespace CompilationUnit

variable {unit : CompilationUnit} {log : Log}

/-- A unit is made of a file whenever the resolver does not stop. -/
lemma stopped_of_ofFile (h : ofFile name file = .ok (unit, log)) :
    (resolved name file.numbered).stopped = none := by
  rw [← (Lockstep.ofFile_eq_resolved name file.numbered).2]
  rw [ofFile, Info.ofFile] at h
  split at h
  next => cases h
  next hstopped => exact hstopped

lemma exists_ofFile (h : (resolved name file.numbered).stopped = none) :
    ∃ unit log, ofFile name file = .ok (unit, log) := by
  rw [← (Lockstep.ofFile_eq_resolved name file.numbered).2] at h
  rw [ofFile, Info.ofFile, h]
  exact ⟨_, _, rfl⟩

/-- **The file in which a variable has another name**: every identifier that has its binding is
spelled anew. -/
def rename (unit : CompilationUnit) (b : Nat) (new : String) : File :=
  unit.file.relabel (respell (respelling unit.info b new))

/-- **Two units that are the same but for the name of a variable.**  Types are recorded for the same
nodes and are the same, and so is what declared types stand for.  There are the same bindings, and
all of them but the variable have the same name.  Every identifier has the binding that it had. -/
structure SameBut (b : Nat) (new : String) (unit unit' : CompilationUnit) : Prop where
  file : unit'.file = unit.rename b new
  types : ∀ k, unit'.info.types.find? k = unit.info.types.find? k
  underlying : ∀ d, unit'.info.underlying.find? d = unit.info.underlying.find? d
  size : unit'.info.bindings.size = unit.info.bindings.size
  binding : ∀ c < unit.info.bindings.size, unit'.info.binding c =
    { unit.info.binding c with name := if c = b then new else (unit.info.binding c).name }
  bindingOf? : ∀ i : Ident, unit'.info.bindingOf?
    (i.relabel (respell (respelling unit.info b new))) = unit.info.bindingOf? i

lemma renames_of_ofFile (hunit : ofFile name file = .ok (unit, log))
    (hvar : (unit.info.binding b).kind = .var)
    (hold : (unit.info.binding b).name ≠ "_") (hnew : new ≠ "_")
    (hfresh : ∀ i, .ident i ∈ unit.file.node.preorder → i.name ≠ new) :
    Renames name file.numbered ⟨b, (unit.info.binding b).name, new⟩ := by
  obtain ⟨hfile, -, hinfo⟩ := of_ofFile hunit
  replace hinfo := hinfo.trans (Lockstep.ofFile_eq_resolved name _).1
  refine ⟨Lexical.nodup_ids_decls file, ?_, hinfo ▸ hvar, hinfo ▸ rfl, hold, hnew,
    fun i hi => hfresh i ?_⟩
  · have hnodup := file.nodup_map_id_preorder
    rw [File.preorder_eq_append] at hnodup
    intro hmem
    have hpackage := (nodup_cons.mp (nodup_cons.mp hnodup).2).1
    obtain ⟨n, hn, hid⟩ := mem_map.mp hmem
    exact hpackage (mem_map.mpr ⟨n, mem_append_right _ hn, hid⟩)
  · rw [hfile, File.preorder_eq_append]
    exact mem_append_right _ (Lockstep.mem_identifiers.mp hi)

/-- The renamed file is resolved. -/
lemma exists_rename (h : Renames name file.numbered ⟨b, (unit.info.binding b).name, new⟩)
    (hunit : ofFile name file = .ok (unit, log)) :
    ∃ unit' log', ofFile name (unit.rename b new) = .ok (unit', log') ∧
      unit'.file = unit.rename b new ∧ unit'.graphs = {} ∧
      unit'.info = (resolved name (unit.rename b new)).info := by
  obtain ⟨hfile, -, hinfo⟩ := of_ofFile hunit
  replace hinfo := hinfo.trans (Lockstep.ofFile_eq_resolved name _).1
  have hagree := h.agree
  rw [← hinfo, ← hfile] at hagree
  have hnumbered : (unit.rename b new).numbered = unit.rename b new := by
    rw [rename, hfile]
    exact File.numbered_relabel _ file
  have hstopped : (resolved name (unit.rename b new).numbered).stopped = none := by
    have hstops : (resolved name unit.file).stopped.isSome =
      (resolved name (unit.rename b new)).stopped.isSome := hagree.stopped
    rw [hfile, stopped_of_ofFile hunit] at hstops
    rw [hnumbered]
    exact Option.not_isSome_iff_eq_none.mp (Bool.eq_false_iff.mp hstops.symm)
  obtain ⟨unit', log', hunit'⟩ := exists_ofFile hstopped
  obtain ⟨hfile', hgraphs', hinfo'⟩ := of_ofFile hunit'
  replace hinfo' := hinfo'.trans (Lockstep.ofFile_eq_resolved name _).1
  rw [hnumbered] at hfile' hinfo'
  exact ⟨unit', log', hunit', hfile', hgraphs', hinfo'⟩

lemma eq_of_rel {α : Type} {o o' : Option α} (h : Option.Rel Eq o o') : o' = o := by
  cases h with
  | none => rfl
  | some h => rw [h]

/-- What two runs record that agree but for a name. -/
lemma sameBut_of_agree {unit' : CompilationUnit} {r r' : Resolver}
    (hagree : (respelled unit.file.decls ⟨b, (unit.info.binding b).name, new⟩
      (respelling unit.info b new)).link.Agree r r')
    (hinfo : unit.info = r.info) (hinfo' : unit'.info = r'.info)
    (hfile' : unit'.file = unit.rename b new) :
    SameBut b new unit unit' := by
  have hmade : ∀ c, c < unit.info.bindings.size ↔ c < unit'.info.bindings.size := fun c => by
    rw [hinfo, hinfo']
    exact hagree.made rfl
  refine ⟨hfile', fun k => ?_, fun d => ?_, ?_, fun c hc => ?_, fun i => ?_⟩
  · rw [hinfo, hinfo']
    exact Ty.Alike.eqOption (hagree.types trivial)
  · rw [hinfo, hinfo']
    exact Ty.Alike.eqOption (hagree.underlying d d rfl)
  · have := hmade unit.info.bindings.size
    have := hmade unit'.info.bindings.size
    omega
  · have hrel := hagree.binding (b := c) rfl
    have hname := hagree.renamed (b := c) rfl (hinfo ▸ hc)
    rw [← hinfo, ← hinfo'] at hrel hname
    rw [Lockstep.Link.spelling_of_change (c := ⟨b, (unit.info.binding b).name, new⟩) rfl] at hname
    have hkept : (unit'.info.binding c).name = if c = b then new
        else (unit.info.binding c).name := by
      rw [hname]
      refine if_congr ⟨fun hmoved => Option.some.inj hmoved.1, ?_⟩ rfl rfl
      rintro rfl
      exact ⟨rfl, rfl⟩
    have htype := Ty.Alike.eq hrel.type
    have hkind := hrel.kind
    have hloc := hrel.loc
    have hpackage := hrel.package
    generalize unit'.info.binding c = x' at hkept htype hkind hloc hpackage
    cases x'
    simp only at hkept htype hkind hloc hpackage
    rw [hkept, htype, hkind, hloc, hpackage]
  · have hnames := hagree.bindingOf? (i := i) trivial
    rw [← hinfo, ← hinfo'] at hnames
    exact eq_of_rel hnames

/-- **The name of a variable makes no difference.**  In a unit that is resolved, let a variable that
is not called `unsafe` get another name, which occurs nowhere in the unit and is not `unsafe`
either: every identifier that has its binding is spelled with the new name.  The new file is
resolved too.  All nodes have the types and all identifiers the bindings that they had, and with all
options both checkers find the same, down to what is said about it. -/
theorem unaffected_by_renaming (hunit : ofFile name file = .ok (unit, log))
    (hvar : (unit.info.binding b).kind = .var)
    (hold : (unit.info.binding b).name ≠ "_") (hraw : (unit.info.binding b).name ≠ "unsafe")
    (hnew : new ≠ "_")
    (hraw' : new ≠ "unsafe") (hfresh : ∀ i, .ident i ∈ unit.file.node.preorder → i.name ≠ new) :
    ∃ unit' log', ofFile name (unit.rename b new) = .ok (unit', log') ∧
    SameBut b new unit unit' ∧ ∀ options,
      HeaderMisuse.checker.found unit' options = HeaderMisuse.checker.found unit options ∧
      StructCast.checker.found unit' options = StructCast.checker.found unit options := by
  have h := renames_of_ofFile hunit hvar hold hnew hfresh
  obtain ⟨hfile, hgraphs, hinfo⟩ := of_ofFile hunit
  replace hinfo := hinfo.trans (Lockstep.ofFile_eq_resolved name _).1
  obtain ⟨unit', log', hunit', hfile', hgraphs', hinfo'⟩ := exists_rename h hunit
  have hagree := h.agree
  rw [← hinfo, ← hfile] at hagree
  have hmirrored : unit.info.Mirrored ⟨Eq, Eq⟩ (respell (respelling unit.info b new))
    (· ∈ unit.file.node.preorder) Eq
      unit'.info := by
    rw [hinfo', rename, hinfo, hfile]
    exact h.mirrored hraw hraw'
  refine ⟨unit', log', hunit', sameBut_of_agree hagree (hinfo.trans (by rw [hfile])) hinfo' hfile',
    fun options => ⟨?_, ?_⟩⟩
  · cases hbudget : HeaderMisuse.budget options with
    | error failure =>
      rw [Checker.found, Checker.found, HeaderMisuse.run_examine_error hbudget,
        HeaderMisuse.run_examine_error hbudget]
    | ok n =>
      have hnumbered' : unit'.file = (unit.rename b new).numbered := (of_ofFile hunit').1
      rw [HeaderMisuse.found_eq_located hfile hbudget,
        HeaderMisuse.found_eq_located hnumbered' hbudget,
        HeaderMisuse.located_respell hmirrored hfile' hfile hnumbered' hgraphs hgraphs']
  · rw [StructCast.found_eq_located, StructCast.found_eq_located,
      StructCast.located_respell hmirrored hfile']

/-! ## A sample

The parameter `h` of a function is called `k`; the variable `h` in the block is another one, and
keeps its name.

    func f(h struct { a int; b int }) {
        { h := 2; h = 3 }
        (*struct { a int })(unsafe.Pointer(&h))
    }
-/

def renamingSample : String :=
  "(func f ((h (struct (a int) (b int)))) () (block (define h 2) (assign h 3))
  (expr (conv (ptr (struct (a int))) (call unsafe.Pointer (addr h)))))"

/-- The names of the identifiers of a file, in pre-order. -/
def namesOf (f : File) : List String := (f.node.preorder.filterMap Node.ident?).map Ident.name

/-- What is found at the cast. -/
def renamingFinding : Finding where
  id := "structCastPlatformFields"
  message := "unsafe cast between structs with mismatching platform-dependent field counts"
  severity := .warning
  loc := ⟨"sample", 5, 2⟩
  checker := "struct-cast-size"
  extra := "2 vs 1"

theorem unaffected_by_renaming_sample :
    ∃ unit unit' log', (∃ p, ofText "sample" renamingSample = .ok (unit, p)) ∧
    ofFile "sample" (unit.rename 28 "k") = .ok (unit', log') ∧
    namesOf unit'.file =
      ["main", "f", "k", "a", "int", "b", "int", "h", "h", "a", "int", "unsafe", "Pointer", "k"] ∧
    StructCast.checker.found unit' {} = .ok [renamingFinding] := by
  have hread : (ofText "sample" renamingSample).toOption.map
    (fun p => (((p.1.info.binding 28).kind, (p.1.info.binding 28).name),
      (namesOf p.1.file, namesOf (p.1.rename 28 "k")),
        (StructCast.checker.found p.1 {}).toOption)) =
      some ((.var, "h"),
        (["main", "f", "h", "a", "int", "b", "int", "h", "h", "a", "int", "unsafe", "Pointer", "h"],
        ["main", "f", "k", "a", "int", "b", "int", "h", "h", "a", "int", "unsafe", "Pointer", "k"]),
        some [renamingFinding]) := by decide +kernel
  obtain ⟨⟨unit, expectations, log⟩, htext, hread⟩ := Option.map_eq_some_iff.mp hread
  simp only [Prod.mk.injEq] at hread
  obtain ⟨⟨hkind, hname⟩, ⟨hnames, hrenamed⟩, hfound⟩ := hread
  replace htext := eq_ok_of_toOption htext
  obtain ⟨file, -, hunit⟩ := of_ofText htext
  have hfresh : ∀ i, .ident i ∈ unit.file.node.preorder → i.name ≠ "k" := by
    intro i hi heq
    have hmem : i.name ∈ namesOf unit.file :=
      List.mem_map_of_mem (List.mem_filterMap.mpr ⟨_, hi, rfl⟩)
    rw [hnames, heq] at hmem
    revert hmem
    decide
  obtain ⟨unit', log', hunit', hsame, hsameFound⟩ :=
    unaffected_by_renaming hunit hkind (by rw [hname]; decide)
    (by rw [hname]; decide) (by decide) (by decide) hfresh
  refine ⟨unit, unit', log', ⟨_, htext⟩, hunit', ?_, ?_⟩
  · rw [hsame.file, hrenamed]
  · rw [(hsameFound {}).2]
    exact eq_ok_of_toOption hfound

end CompilationUnit

end Recast
