import Recast.Proofs.Checker.Findings
import Recast.Proofs.Checker.StructCasts
import Recast.Proofs.Syntax.Lines

/-!
# Places of findings

The findings of the two checkers in a unit that was read from a description, and the places that
they say.

**Sites.**  A finding has the place of the node it is about, and the findings are in the order of
the walk.  The checker for headers finds something at literals and assignments, the one for casts at
calls.  These are the nodes that stand one behind the other.

* `CompilationUnit.found_sorted` — the findings of a checker come sorted by place, and no two
  findings share one.
* `CompilationUnit.lines_counted` — on which lines terms and findings are.
-/

namespace Recast

open List

/-! ## Sites -/

/-- Findings at nodes of some kind, in the order of the walk. -/
def FoundAt (unit : CompilationUnit) (kind : Node → Bool) (found : List Finding) : Prop :=
  ∃ sites : List Visit, sites.Sublist unit.file.node.walk ∧ (∀ v ∈ sites, kind v.node = true) ∧
    found.map Finding.loc = sites.map fun v => v.node.loc

lemma foundAt_filterMap {unit : CompilationUnit} {kind : Node → Bool}
    {find : Visit → Option Finding}
    (h : ∀ v d, find v = some d → kind v.node = true ∧ d.loc = v.node.loc) :
    FoundAt unit kind (unit.file.node.walk.filterMap find) := by
  refine ⟨unit.file.node.walk.filter fun v => (find v).isSome, filter_sublist, ?_, ?_⟩
  · intro v hv
    obtain ⟨d, hd⟩ := Option.isSome_iff_exists.mp (mem_filter.mp hv).2
    exact (h v d hd).1
  · induction unit.file.node.walk with
    | nil => rfl
    | cons v vs ih =>
      cases hv : find v with
      | none => rw [filterMap_cons_none hv, filter_cons_of_neg (by simp [hv]), ih]
      | some d =>
        rw [filterMap_cons_some hv, filter_cons_of_pos (by simp [hv]), map_cons,
          map_cons, ih, (h v d hv).2]

namespace HeaderMisuse

lemma foundAt_of_found {file : File} {unit : CompilationUnit} {options : Options}
    {found : List Finding}
    (hfile : unit.file = file.numbered) (h : checker.found unit options = .ok found) :
    FoundAt unit isSite found := by
  cases hbudget : budget options with
  | error failure =>
    rw [Checker.found, run_examine_error hbudget] at h
    cases h
  | ok n =>
    rw [found_eq hfile hbudget, map_filterMap] at h
    rw [← Except.ok.inj h]
    refine foundAt_filterMap fun v d hd => ?_
    rw [map_finding_evidence?] at hd
    obtain ⟨node, above⟩ := v
    split at hd
    · rename_i hsite
      cases hd
      cases node with
      | composite | assign => exact ⟨rfl, rfl⟩
      | _ => cases hsite
    · cases hd

end HeaderMisuse

namespace StructCast

lemma loc_of_mismatch? {env : Underlying} {loc : Loc} {source target : Ty} {m : Mismatch}
    (h : mismatch? env loc source target = some m) : m.loc = loc := by
  rw [mismatch?] at h
  split at h
  · dsimp only at h
    split at h
    · cases h
    · cases h
      rfl
  · cases h

lemma foundAt_of_found {unit : CompilationUnit} {options : Options} {found : List Finding}
    (h : checker.found unit options = .ok found) : FoundAt unit isSite found := by
  have hfound : found = unit.file.node.walk.filterMap fun v =>
      (mismatchAt? unit.info v.node).map fun m => checker.finding m.draft := by
    rw [← Except.ok.inj h]
    show ((filterMap _ _).map Mismatch.draft).map checker.finding = _
    rw [filterMap_sites, Node.preorder_eq_map_walk, filterMap_map, map_map, map_filterMap]
    rfl
  rw [hfound]
  refine foundAt_filterMap fun v d hd => ?_
  obtain ⟨m, hm, rfl⟩ := Option.map_eq_some_iff.mp hd
  obtain ⟨node, above⟩ := v
  cases node with
  | call mark fn args =>
    refine ⟨rfl, ?_⟩
    show m.loc = mark.loc
    rw [mismatchAt?] at hm
    split at hm
    · exact loc_of_mismatch? hm
    · cases hm
  | _ => cases hm

end StructCast

lemma FoundAt.exists_site {unit : CompilationUnit} {kind : Node → Bool} {found : List Finding}
    (h : FoundAt unit kind found)
    (hkind : ∀ n, kind n = true → n.isLandmark = true) {d : Finding} (hd : d ∈ found) :
    ∃ v ∈ unit.file.node.walk, d.loc = v.node.loc ∧ v.node.isLandmark = true := by
  obtain ⟨sites, hsites, hnodes, hlocs⟩ := h
  have hmem : d.loc ∈ sites.map fun v => v.node.loc := hlocs ▸ mem_map_of_mem hd
  obtain ⟨v, hv, heq⟩ := mem_map.mp hmem
  exact ⟨v, hsites.subset hv, heq.symm, hkind _ (hnodes v hv)⟩

/-! ## Order -/

/-- The landmarks of declarations that are laid out stand one behind the other. -/
lemma LaidApart.sorted {file : String} {p : Spot} {ds : List Node} (h : LaidApart file p ds) :
    ∃ q, p.UpTo q ∧ Sorted p q (landmarks ds) := by
  induction h with
  | nil p =>
    refine ⟨p, .refl p, ?_⟩
    rw [landmarks, preorderAll]
    exact sorted_nil p p
  | @cons p p' q d ds hgap hd _ ih =>
    obtain ⟨q', hq', hsorted⟩ := ih
    refine ⟨q', (hgap.trans hd.upTo).trans hq', ?_⟩
    rw [← singleton_append, landmarks_append]
    exact (hd.sorted.append hsorted hd.upTo hq').widen hgap (.refl q')

namespace CompilationUnit

variable {name text : String} {unit : CompilationUnit} {expectations : List Expectation} {log : Log}

/-- The landmarks of a unit stand one behind the other. -/
lemma sorted_landmarks (h : ofText name text = .ok (unit, expectations, log)) :
    ((unit.file.node.preorder.filter Node.isLandmark).map Node.loc).Pairwise Loc.Before := by
  obtain ⟨file, htext, hunit⟩ := of_ofText h
  have hlaid : LaidApart name ⟨0, 0⟩ file.numbered.decls := (File.laid_ofText htext).numbered _
  obtain ⟨q, _, hsorted⟩ := hlaid.sorted
  have himports : (file.numbered.imports.map Node.importSpec).filter Node.isLandmark = [] := by
    simp [filter_eq_nil_iff, Node.isLandmark]
  rw [(of_ofFile hunit).1, File.preorder_eq_append, filter_append,
    filter_cons_of_neg Bool.false_ne_true, filter_cons_of_neg Bool.false_ne_true, himports]
  exact hsorted.1

lemma sublist_landmarks {kind : Node → Bool} {found : List Finding}
    (hfound : FoundAt unit kind found) (hkind : ∀ n, kind n = true → n.isLandmark = true) :
    (found.map Finding.loc).Sublist
      ((unit.file.node.preorder.filter Node.isLandmark).map Node.loc) := by
  obtain ⟨sites, hsites, hnodes, hlocs⟩ := hfound
  have hall : (sites.map Visit.node).filter Node.isLandmark = sites.map Visit.node := by
    refine filter_eq_self.mpr fun n hn => ?_
    obtain ⟨v, hv, rfl⟩ := mem_map.mp hn
    exact hkind _ (hnodes v hv)
  have hsub := ((hsites.map Visit.node).filter Node.isLandmark).map Node.loc
  rw [hall, map_map, ← Node.preorder_eq_map_walk] at hsub
  rw [hlocs]
  exact hsub

lemma isLandmark_header {n : Node} (h : HeaderMisuse.isSite n = true) : n.isLandmark = true := by
  cases n with
  | composite | assign => rfl
  | _ => cases h

lemma isLandmark_cast {n : Node} (h : StructCast.isSite n = true) : n.isLandmark = true := by
  cases n with
  | call => rfl
  | _ => cases h

/-- At one place there is at most one landmark, so that findings at nodes of different kinds are at
different places. -/
lemma disjoint_locs (h : ofText name text = .ok (unit, expectations, log))
    {found found' : List Finding} (hfound : FoundAt unit HeaderMisuse.isSite found)
    (hfound' : FoundAt unit StructCast.isSite found') :
    (found.map Finding.loc).Disjoint (found'.map Finding.loc) := by
  obtain ⟨sites, hsites, hnodes, hlocs⟩ := hfound
  obtain ⟨sites', hsites', hnodes', hlocs'⟩ := hfound'
  rw [hlocs, hlocs']
  intro loc hloc hloc'
  obtain ⟨v, hv, rfl⟩ := mem_map.mp hloc
  obtain ⟨v', hv', heq⟩ := mem_map.mp hloc'
  have hmem : ∀ {v : Visit}, v ∈ unit.file.node.walk → v.node.isLandmark = true →
      v.node ∈ unit.file.node.preorder.filter Node.isLandmark := fun hv hn =>
    mem_filter.mpr ⟨Node.mem_preorder_of_walk hv, hn⟩
  have hnodup : ((unit.file.node.preorder.filter Node.isLandmark).map Node.loc).Nodup :=
    (sorted_landmarks h).imp Loc.Before.ne
  have hsame : v'.node = v.node := inj_on_of_nodup_map hnodup
    (hmem (hsites'.subset hv') (isLandmark_cast (hnodes' v' hv')))
    (hmem (hsites.subset hv) (isLandmark_header (hnodes v hv))) heq
  have hcall := hnodes' v' hv'
  have hheader := hnodes v hv
  rw [hsame] at hcall
  revert hcall hheader
  cases v.node with
  | call => exact fun _ hheader => Bool.noConfusion hheader
  | _ => exact fun hcall => Bool.noConfusion hcall

/-- **Findings come sorted by place.**  In a unit that was read from a description the findings of
either checker are on strictly increasing lines and columns, and no two findings of the two checkers
share a place. -/
theorem found_sorted (h : ofText name text = .ok (unit, expectations, log)) (options : Options) :
    (∀ found, HeaderMisuse.checker.found unit options = .ok found →
      (found.map Finding.loc).Pairwise Loc.Before) ∧
    (∀ found, StructCast.checker.found unit options = .ok found →
      (found.map Finding.loc).Pairwise Loc.Before) ∧
    ∀ found found', HeaderMisuse.checker.found unit options = .ok found →
      StructCast.checker.found unit options = .ok found' →
        ((found ++ found').map Finding.loc).Nodup := by
  obtain ⟨file, -, hunit⟩ := of_ofText h
  have hheaders : ∀ found, HeaderMisuse.checker.found unit options = .ok found →
      FoundAt unit HeaderMisuse.isSite found :=
    fun _ hfound => HeaderMisuse.foundAt_of_found (of_ofFile hunit).1 hfound
  have hsorted : ∀ found, HeaderMisuse.checker.found unit options = .ok found →
      (found.map Finding.loc).Pairwise Loc.Before :=
    fun found hfound => (sorted_landmarks h).sublist
      (sublist_landmarks (hheaders found hfound) fun _ => isLandmark_header)
  have hsorted' : ∀ found, StructCast.checker.found unit options = .ok found →
      (found.map Finding.loc).Pairwise Loc.Before :=
    fun found hfound =>
      (sorted_landmarks h).sublist
        (sublist_landmarks (StructCast.foundAt_of_found hfound) fun _ => isLandmark_cast)
  refine ⟨hsorted, hsorted', fun found found' hfound hfound' => ?_⟩
  rw [List.map_append]
  exact List.Nodup.append ((hsorted found hfound).imp Loc.Before.ne)
    ((hsorted' found' hfound').imp Loc.Before.ne)
    (disjoint_locs h (hheaders found hfound) (StructCast.foundAt_of_found hfound'))

/-! ## A sample

Three findings, each on a line of its own:

    func f(x struct { a int; b int }) {
        y.Len = 1
        struct { Data uintptr; Len int }{}
        (*struct { a int })(unsafe.Pointer(&x))
    }
-/

def sample : String := "(func f ((x (struct (a int) (b int)))) () (assign y.Len 1)
  (expr (lit (struct (Data uintptr) (Len int))))
  (expr (conv (ptr (struct (a int))) (call unsafe.Pointer (addr x)))))"

/-- The places of what the two checkers find in a description. -/
def placesOf (text : String) : Option (Option (List Loc) × Option (List Loc)) :=
  (ofText "sample" text).toOption.map fun p =>
    ((HeaderMisuse.checker.found p.1 {}).toOption.map (map Finding.loc),
      (StructCast.checker.found p.1 {}).toOption.map (map Finding.loc))

theorem found_sorted_sample : ∃ unit expectations log found found',
    ofText "sample" sample = .ok (unit, expectations, log) ∧
    HeaderMisuse.checker.found unit {} = .ok found ∧ StructCast.checker.found unit {} = .ok found' ∧
    (found ++ found').map Finding.loc = [⟨"sample", 2, 1⟩, ⟨"sample", 3, 2⟩, ⟨"sample", 4, 2⟩] ∧
    ((found ++ found').map Finding.loc).Nodup := by
  have hplaces : placesOf sample =
      some (some [⟨"sample", 2, 1⟩, ⟨"sample", 3, 2⟩], some [⟨"sample", 4, 2⟩]) := by
    decide +kernel
  obtain ⟨⟨unit, expectations, log⟩, hunit, hfound⟩ := Option.map_eq_some_iff.mp hplaces
  obtain ⟨hheaders, hcasts⟩ := Prod.mk.inj hfound
  obtain ⟨found, hheaders, hlocs⟩ := Option.map_eq_some_iff.mp hheaders
  obtain ⟨found', hcasts, hlocs'⟩ := Option.map_eq_some_iff.mp hcasts
  replace hunit := eq_ok_of_toOption hunit
  replace hheaders := eq_ok_of_toOption hheaders
  replace hcasts := eq_ok_of_toOption hcasts
  refine ⟨unit, expectations, log, found, found', hunit, hheaders, hcasts, ?_, ?_⟩
  · rw [List.map_append, hlocs, hlocs']
    rfl
  · exact (found_sorted hunit {}).2.2 found found' hheaders hcasts

/-! ## Lines -/

/-- **On which lines terms and findings are.**  In a unit that was read from a description a term is
on the line of the statement, clause or declaration that holds it, moved down by every line that was
begun between the two (`File.Counted`), and so is what is found there; and the messages that a
statement, clause or declaration ends with are recorded with its own line. -/
theorem lines_counted (h : ofText name text = .ok (unit, expectations, log)) :
    (∀ v ∈ unit.file.node.walk, v.node.isTerm = true → v.node = .ident unit.file.package ∨
      ∃ holder, v.above.find? Node.isHolder = some holder ∧ unit.file.Counted holder v.node) ∧
    (∀ options found, HeaderMisuse.checker.found unit options = .ok found ∨
      StructCast.checker.found unit options = .ok found →
      ∀ d ∈ found, ∃ v ∈ unit.file.node.walk, d.loc = v.node.loc ∧ (v.node.isHolder = true ∨
        ∃ holder, v.above.find? Node.isHolder = some holder ∧
          d.loc.line = holder.loc.line + unit.file.linesBetween holder.id v.node.id)) ∧
    (∀ form c n c', form.reading.stmt.run c = .ok (n, c') → Annotated form c n c') ∧
    (∀ form c clause c', form.reading.clause.run c = .ok (clause, c') →
      Annotated form c (.clause clause) c') ∧
    ∀ form c n c', (itemOf form).run c = .ok (.decl n, c') → Annotated form c n c' := by
  obtain ⟨file, htext, hunit⟩ := of_ofText h
  have hfile := (of_ofFile hunit).1
  have hterms : ∀ v ∈ unit.file.node.walk, v.node.isTerm = true →
    v.node = .ident unit.file.package ∨
      ∃ holder, v.above.find? Node.isHolder = some holder ∧ unit.file.Counted holder v.node := by
    rw [hfile]
    exact fun v hv hterm => File.counted_ofText htext hv hterm
  refine ⟨hterms, fun options found hfound d hd => ?_, fun _ _ _ _ => annotated_stmt,
    fun _ _ _ _ => annotated_clause, fun _ _ _ _ => annotated_decl⟩
  obtain ⟨v, hv, hloc, hlandmark⟩ : ∃ v ∈ unit.file.node.walk, d.loc = v.node.loc ∧
      v.node.isLandmark = true := by
    rcases hfound with hfound | hfound
    · exact (HeaderMisuse.foundAt_of_found hfile hfound).exists_site (fun _ => isLandmark_header) hd
    · exact (StructCast.foundAt_of_found hfound).exists_site (fun _ => isLandmark_cast) hd
  refine ⟨v, hv, hloc, ?_⟩
  rw [hloc]
  have hline := hterms v hv
  revert hlandmark hline
  cases v.node with
  | assign => exact fun _ _ => Or.inl rfl
  | composite | call =>
    intro _ hline
    rcases hline rfl with heq | ⟨holder, hfind, hcounted⟩
    · cases heq
    · exact Or.inr ⟨holder, hfind, hcounted.line rfl⟩
  | _ => exact fun hlandmark => Bool.noConfusion hlandmark

/-! ## A statement of two lines

A header literal behind a function literal, in a statement that asks for the finding:

    func f() { g(func() { return }, struct { Data uintptr; Len int }{})  // header literal
        construction found }
-/

def shifted : String :=
  "(func f () () (call g (func-lit () () (return)) (lit (struct (Data uintptr) (Len int)))" ++
  " (want \"header literal construction found\")))"

/-- The line of a node and that of what holds it. -/
def linesAt (v : Visit) : Option (Int × Int) :=
  (v.above.find? Node.isHolder).map fun holder => (v.node.loc.line, holder.loc.line)

/-- What is found in a description, on which lines the literals are and what holds them, and on
which lines something is asked for. -/
def linesOf (text : String) : Option (Option (List Int) × List (Option (Int × Int)) × List Nat) :=
  (ofText "sample" text).toOption.map fun p =>
    ((HeaderMisuse.checker.found p.1 {}).toOption.map (map fun d => d.loc.line),
      (p.1.file.node.walk.filter fun v => v.node.isTerm && HeaderMisuse.isSite v.node).map linesAt,
      p.2.1.map Expectation.line)

lemma linesOf_shifted : linesOf shifted = some (some [3], [some (3, 2)], [2]) := by decide +kernel

/-- The literal is found one line below the statement that it belongs to. -/
theorem lines_counted_shifted : ∃ unit expectations log found,
    ofText "sample" shifted = .ok (unit, expectations, log) ∧
    HeaderMisuse.checker.found unit {} = .ok found ∧
    found.map (fun d => d.loc.line) = [3] ∧
    ∀ d ∈ found, ∃ v ∈ unit.file.node.walk, d.loc = v.node.loc ∧ (v.node.isHolder = true ∨
      ∃ holder, v.above.find? Node.isHolder = some holder ∧
        d.loc.line = holder.loc.line + unit.file.linesBetween holder.id v.node.id) := by
  obtain ⟨⟨unit, expectations, log⟩, hunit, hfound⟩ := Option.map_eq_some_iff.mp linesOf_shifted
  obtain ⟨found, hfound, hlocs⟩ := Option.map_eq_some_iff.mp (Prod.mk.inj hfound).1
  replace hunit := eq_ok_of_toOption hunit
  replace hfound := eq_ok_of_toOption hfound
  exact ⟨unit, expectations, log, found, hunit, hfound, hlocs,
    (lines_counted hunit).2.1 {} found (Or.inl hfound)⟩

/-- **A finding may be on another line than its statement**, and than the message that asks for
it. -/
theorem finding_below_statement : ∃ unit expectations log found,
    ofText "sample" shifted = .ok (unit, expectations, log) ∧
    HeaderMisuse.checker.found unit {} = .ok found ∧
    (∃ v ∈ unit.file.node.walk, v.node.isTerm = true ∧
      ∃ holder, v.above.find? Node.isHolder = some holder ∧
      v.node.loc.line = 3 ∧ holder.loc.line = 2) ∧
    found.map (fun d => d.loc.line) = [3] ∧ expectations.map Expectation.line = [2] := by
  obtain ⟨⟨unit, expectations, log⟩, hunit, hlines⟩ := Option.map_eq_some_iff.mp linesOf_shifted
  obtain ⟨hfound, hlines⟩ := Prod.mk.inj hlines
  obtain ⟨hterms, hexpected⟩ := Prod.mk.inj hlines
  obtain ⟨found, hfound, hlocs⟩ := Option.map_eq_some_iff.mp hfound
  have hmem : some (3, 2) ∈ (unit.file.node.walk.filter fun v =>
      v.node.isTerm && HeaderMisuse.isSite v.node).map linesAt :=
    hterms ▸ List.mem_cons_self
  obtain ⟨v, hv, hline⟩ := List.mem_map.mp hmem
  obtain ⟨hwalk, hterm⟩ := List.mem_filter.mp hv
  obtain ⟨holder, hholder, hlines⟩ := Option.map_eq_some_iff.mp hline
  obtain ⟨hnode, hheld⟩ := Prod.mk.inj hlines
  exact ⟨unit, expectations, log, found, eq_ok_of_toOption hunit, eq_ok_of_toOption hfound,
    ⟨v, hwalk, ((Bool.and_eq_true _ _).mp hterm).1, holder, hholder, hnode, hheld⟩, hlocs,
    hexpected⟩

end CompilationUnit

end Recast
