import Recast.Proofs.Lockstep.Bodies
import Recast.Proofs.Syntax.Renumbering

/-!
# A new name for a variable

A unit is read again after one of its variables was renamed: all identifiers that stand for it are
spelled with a name that occurs nowhere in the unit.  Both runs record the same types, and bindings
with the same numbers.

**Which identifiers change** is known only at the end of the first run.  So that run is looked at
three times.  First nothing is renamed, which shows that the variable is made behind all types and
functions and that their names do not stand for it.  Then only those identifiers are renamed that
have its old name, as the link of two readings asks for.  This shows that no other identifier stands
for the variable, so that in the end all that do are renamed.

* `Renames` — a variable, and a name that it may get.
* `Renames.agree` — the two runs agree.
-/

namespace Recast.Lockstep

open List
open Lexical
open Ty (Alike Matching Matches)
open Relabeling (respell)

variable {ns : List Node} {n : Node} {i : Ident}

/-! ## Names behind a dot -/

/-- Every node of some trees is a root, or a child of one of them. -/
lemma perm_preorderAll (ns : List Node) :
    (preorderAll ns).Perm (ns ++ (preorderAll ns).flatMap Node.children) := by
  induction ns using preorderAll.induct with
  | case1 =>
    rw [preorderAll]
    exact .refl _
  | case2 n ns ih =>
    rw [preorderAll, flatMap_cons, cons_append]
    refine (ih.trans ?_).cons n
    rw [append_assoc]
    exact perm_append_comm_assoc ..

section Places

variable (hnodup : (ids ns).Nodup)

include hnodup

/-- Different nodes stand in different places. -/
lemma nodup_places : (ns ++ (preorderAll ns).flatMap Node.children).Nodup :=
  (perm_preorderAll ns).nodup_iff.mp hnodup.of_map

lemma eq_of_id_eq {n' : Node} (hn : n ∈ preorderAll ns) (hn' : n' ∈ preorderAll ns)
    (hid : n'.id = n.id) : n' = n :=
  inj_on_of_nodup_map hnodup hn' hn hid

/-- What stands elsewhere does not stand behind a dot. -/
lemma not_selected_of_root (hi : .ident i ∈ ns) : ¬Selected (· ∈ preorderAll ns) i := by
  rintro ⟨m, base, hselect⟩
  refine disjoint_of_nodup_append (nodup_places hnodup) hi (mem_flatMap.mpr ⟨_, hselect, ?_⟩)
  exact mem_cons_of_mem _ mem_cons_self

lemma not_selected_of_operand (hn : n ∈ preorderAll ns) (hi : .ident i ∈ operands n) :
    ¬Selected (· ∈ preorderAll ns) i := by
  rintro ⟨m, base, hselect⟩
  obtain ⟨hchildren, hpairs⟩ := nodup_flatMap.mp (nodup_places hnodup).of_append_right
  have hname : .ident i ∈ (Node.select m base i).children := mem_cons_of_mem _ mem_cons_self
  by_cases heq : n = .select m base i
  · subst heq
    have hbase : [base, .ident i].Nodup := hchildren _ hselect
    rw [mem_singleton.mp hi] at hbase
    simp at hbase
  · have : Std.Symm (Function.onFun List.Disjoint Node.children) := ⟨fun _ _ h _ hi hi' => h hi' hi⟩
    refine hpairs.forall hn hselect heq ?_ hname
    cases n with
    | select m' base' name' =>
      rw [mem_singleton.mp hi]
      exact mem_cons_self
    | _ => exact hi

/-- All parts of declarations are read. -/
lemma known_part {part : Node → List Node} (hpart : Picks part) :
    Known (fun _ => True) (· ∈ preorderAll ns) (ns.flatMap part) where
  reads n hn := by
    have hmem := hpart.mem_preorderAll hn
    exact ⟨trivial, fun hn' => eq_of_id_eq hnodup hmem hn', not_selected_of_operand hnodup hmem⟩
  own {i} hi := by
    obtain ⟨d, hd, hi⟩ := mem_flatMap.mp hi
    rcases hpart d _ hi with rfl | hi
    · exact not_selected_of_root hnodup hd
    · exact not_selected_of_operand hnodup (mem_preorderAll_of_mem hd) hi

end Places

lemma Picks.mem_identifiers {part : Node → List Node} (hpart : Picks part)
    (hi : i ∈ identifiers (ns.flatMap part)) :
    i ∈ identifiers ns := by
  obtain ⟨n, hn, hident⟩ := mem_filterMap.mp hi
  exact mem_filterMap.mpr ⟨n, hpart.mem_preorderAll hn, hident⟩

lemma mem_identifiers : i ∈ identifiers ns ↔ .ident i ∈ preorderAll ns := by
  rw [identifiers, mem_filterMap]
  constructor
  · rintro ⟨n, hn, hident⟩
    cases n <;> cases hident
    exact hn
  · exact fun hi => ⟨_, hi, rfl⟩

/-! ## Two readings -/

variable {ds : List Node} {c : Change} {spell : Ident → String}

namespace Reading

/-- A unit is read again with another spelling of identifiers; all numbers stay the same. -/
def respelled (ds : List Node) (c : Change) (spell : Ident → String) : Reading where
  matching := ⟨Eq, Eq⟩
  labels := respell spell
  knows _ := True
  binds := Eq
  change := some c
  occurs i := i ∈ identifiers ds
  tree n := n ∈ preorderAll ds

lemma sound_respelled (hnodup : (ids ds).Nodup) (hold : c.old ≠ "_") (hnew : c.new ≠ "_") :
    (respelled ds c spell).Sound where
  apart _ _ heq := heq
  plain := nofun
  one := by
    rintro b b' c c' rfl rfl
    rfl
  fits _ _ := trivial
  stops := rfl
  kept _ _ _ := Iff.rfl
  blank := by
    rintro c ⟨⟩
    exact ⟨hold, hnew⟩
  distinct _ {i j} hi hj hid :=
    Node.ident.inj (eq_of_id_eq hnodup (mem_identifiers.mp hj) (mem_identifiers.mp hi) hid)
  child hn hc := mem_preorderAll_of_child hn hc

lemma begins_respelled : (respelled ds c spell).Begins :=
  ⟨fun _ => rfl, fun _ _ => Iff.rfl, fun hb => hb, fun _ => rfl, fun _ => rfl⟩

end Reading

open Lockstep.Reading

/-! ## Parts of a unit -/

/-- What is read behind the types of a unit: signatures, package variables, and the statements of
bodies. -/
def behindTypes (ds : List Node) : List Node :=
  ds.flatMap headNodes ++ (ds.flatMap varNodes ++ ds.flatMap bodyNodes)

lemma identifiers_blocks (ds : List Node) :
    identifiers (ds.flatMap blockNodes) = identifiers (ds.flatMap bodyNodes) := by
  have hdecl : ∀ d, identifiers (blockNodes d) = identifiers (bodyNodes d) := by
    intro d
    cases d with
    | funcDecl m name type body =>
      rcases body with _ | ⟨bm, stmts⟩
      · rfl
      · show identifiers [.block (.mk bm stmts)] = identifiers stmts
        rw [identifiers_cons, identifiers_nil, append_nil]
        rfl
    | _ => rfl
  induction ds with
  | nil => rfl
  | cons d ds ih =>
    rw [flatMap_cons, flatMap_cons, identifiers_append, identifiers_append, hdecl, ih]

lemma identsBehind_eq (name : String) (f : File) :
    identsBehind name f (declared name f).1.1.length = identifiers (behindTypes f.decls) := by
  rw [identsBehind, take_length, bodies_eq, bodies_declared, blocks_declBodies, identifiers_blocks,
    heads_declared, behindTypes, identifiers_append, identifiers_append]

/-- These are parts of the unit. -/
lemma mem_identifiers_of_behindTypes (hi : i ∈ identifiers (behindTypes ds)) :
    i ∈ identifiers ds := by
  rw [behindTypes, identifiers_append, identifiers_append, ← identifiers_blocks,
    mem_append, mem_append] at hi
  rcases hi with hi | hi | hi
  · exact picks_head.mem_identifiers hi
  · exact picks_var.mem_identifiers hi
  · exact picks_block.mem_identifiers hi

/-- The names of types and functions, types, and what comes behind them have no node in common. -/
lemma nodup_parts (hnodup : (ids ds).Nodup) : (ids (ds.flatMap nameNodes) ++
    (ids (ds.flatMap typeNodes) ++ ids (behindTypes ds))).Nodup := by
  have hparts := nodup_partIds hnodup
  rwa [partIds, ← ids_append (ds.flatMap varNodes), ← ids_append (ds.flatMap headNodes)]
    at hparts

section Unit

variable (name : String) {f : File} (hnodup : (ids f.decls).Nodup)

lemma length_signed (name : String) (f : File) :
    (signed name f).1.length = (declared name f).1.1.length := by
  have hbodies :=
    congrArg length (signAll_bodies (completer name f) (packageScope name f)
      (declared name f).1.1 (completed name f))
  rwa [length_map, length_map] at hbodies

lemma before_length (name : String) (f : File) :
    before name f (declared name f).1.1.length = resolved name f := by
  rw [before, ← length_signed, take_length, resolved]

include hnodup

lemma unitRel_respelled (hpackage : spell f.package = f.package.name)
    (hnames : ∀ i, .ident i ∈ f.decls.flatMap nameNodes → spell i = i.name) :
    (respelled f.decls c spell).UnitRel f (f.relabel (respell spell)) where
  package := hpackage
  imports := rfl
  decls := by
    rw [File.relabel, relabelAll_eq]
    exact forall₂_map_right_iff.mpr (forall₂_same.mpr fun d _ => .same d)
  nodup := hnodup
  names i hi := ⟨hnames i hi, trivial⟩
  types := known_part hnodup picks_type
  occurs _ _ hi := picks_type.mem_identifiers hi

/-- **The two runs go in step** behind the names of types and functions. -/
lemma inStep_respelled (hold : c.old ≠ "_") (hnew : c.new ≠ "_")
    (hpackage : spell f.package = f.package.name)
    (hnames : ∀ i, .ident i ∈ f.decls.flatMap nameNodes → spell i = i.name)
    (hlater : (declared name f).2.info.bindings.size ≤ c.binding) :
    (respelled f.decls c spell).InStep name f (f.relabel (respell spell))
    (declared name f).1.1.length := by
  have hstarts : UnitRel.Starts (respelled f.decls c spell) (declared name f).2 := by
    refine ⟨trivial, ?_⟩
    rintro c ⟨⟩
    exact hlater
  refine (unitRel_respelled hnodup hpackage hnames).sim_run (sound_respelled hnodup hold hnew)
    begins_respelled name hstarts
    (by rintro d d' e e' rfl rfl; rfl) _ ?_ ?_ (known_part hnodup picks_var) ?_
  · rw [map_take, map_take, bodies_declared, bodies_declared, File.relabel,
      relabelAll_eq, declBodies_relabel, map_take]
    rfl
  · rw [heads_declared]
    exact known_part hnodup picks_head
  · rw [take_length, bodies_eq, bodies_declared, blocks_declBodies]
    exact known_part hnodup picks_block

lemma ready_declared : (respelled f.decls c spell).link.Ready [] (identifiers (behindTypes f.decls))
    (declared name f).2 := by
  intro hc
  have hparts := nodup_parts hnodup
  have hearly := (early_declared name f).1
  have hbusy : ∀ i ∈ (respelled f.decls c spell).link.busy (declared name f).2,
      i.mark.id ∈ ids (f.decls.flatMap typeNodes) := by
    intro i hi
    rw [busy_of_change hc] at hi
    obtain ⟨d, hd, hi⟩ := mem_declIdents.mp hi
    refine mem_ids_of_identifier ?_
    rw [← declIdents_declared name f]
    exact mem_declIdents.mpr ⟨d, (mem_waiting.mp hd).1, hi⟩
  have hdefs : ∀ i ∈ identifiers (behindTypes f.decls),
      (declared name f).2.info.defs.find? i.mark.id = none := by
    intro i hi
    refine Option.eq_none_iff_forall_not_mem.mpr fun b hb => ?_
    exact disjoint_of_nodup_append hparts (hearly.defs _ b hb).1
      (mem_append_right _ (mem_ids_of_identifier hi))
  refine ⟨fun i hi => mem_identifiers_of_behindTypes hi, nofun,
    nodup_identifiers hparts.of_append_right.of_append_right,
    fun _ _ => not_mem_nil, fun i hi hmem => ?_, nofun, hdefs, fun i _ => hearly.uses _⟩
  exact disjoint_of_nodup_append hparts.of_append_right (hbusy i hmem) (mem_ids_of_identifier hi)

/-- What the rest of the run leaves alone. -/
lemma moved_resolved :
    (respelled f.decls ⟨(declared name f).2.info.bindings.size, "", ""⟩ Ident.name).link.Moved
    (identifiers (behindTypes f.decls)) (declared name f).2 (resolved name f) := by
  have hblank : "" ≠ "_" := by decide
  have hstep :
      (respelled f.decls ⟨(declared name f).2.info.bindings.size, "", ""⟩ Ident.name).InStep
      name f _ _ :=
    inStep_respelled name hnodup hblank hblank rfl (fun _ _ => rfl) (Nat.le_refl _)
  have hmoves := hstep.moves (declared name f).2
  rw [run_behindNames, before_length, identsBehind_eq] at hmoves
  have hokay :=
    (unitRel_respelled (c := ⟨(declared name f).2.info.bindings.size, "", ""⟩) hnodup rfl fun _ _ =>
      rfl).pends_declared name
  exact hmoves hokay
    ((sound_respelled hnodup hblank hblank).lawful.free hokay (ready_declared name hnodup))

/-- Variables are made behind the names of types and functions. -/
lemma size_declared_le_of_var {b : Nat} (hvar : ((resolved name f).info.binding b).kind = .var) :
    (declared name f).2.info.bindings.size ≤ b := by
  by_contra hb
  rw [(moved_resolved name hnodup).kind b (Nat.lt_of_not_le hb)] at hvar
  exact (early_declared name f).1.kind b (Nat.lt_of_not_le hb) hvar

/-- An identifier that is read with the names of types and functions, or not at all, stands for no
variable. -/
lemma not_stands_of_early {b : Nat} (hb : (declared name f).2.info.bindings.size ≤ b)
    (htypes : i.mark.id ∉ ids (f.decls.flatMap typeNodes))
    (hbehind : i.mark.id ∉ ids (behindTypes f.decls)) :
    (resolved name f).info.bindingOf? i ≠ some b := by
  have hnumbers : ∀ {ns : List Node} {k : Nat}, k ∉ ids ns → k ∉ Link.numbers (identifiers ns) := by
    intro ns k hk hmem
    obtain ⟨j, hj, rfl⟩ := mem_map.mp hmem
    exact hk (mem_ids_of_identifier hj)
  have hbusy : i.mark.id ∉ Link.numbers
    ((respelled f.decls ⟨(declared name f).2.info.bindings.size, "", ""⟩ Ident.name).link.busy
      (declared name f).2) := by
    rw [busy_of_change (Option.some_ne_none _)]
    intro hmem
    obtain ⟨j, hj, hid⟩ := mem_map.mp hmem
    obtain ⟨d, hd, hj⟩ := mem_declIdents.mp hj
    refine hnumbers htypes (hid ▸ Link.mem_numbers_of_mem ?_)
    rw [← declIdents_declared name f]
    exact mem_declIdents.mpr ⟨d, (mem_waiting.mp hd).1, hj⟩
  have hearly := (early_declared name f).1
  rw [(moved_resolved name hnodup).bindingOf? (Option.some_ne_none _) (hnumbers hbehind) hbusy,
    Info.bindingOf?, hearly.uses]
  split
  next b' hfind =>
    rintro ⟨⟩
    have := (hearly.defs _ _ hfind).2
    omega
  next => rintro ⟨⟩

end Unit

/-! ## Renaming a variable -/

/-- **A variable and a name that it may get**: one that occurs nowhere. -/
structure Renames (name : String) (f : File) (c : Change) : Prop where
  nodup : (ids f.decls).Nodup
  package : f.package.mark.id ∉ ids f.decls
  var : ((resolved name f).info.binding c.binding).kind = .var
  old : ((resolved name f).info.binding c.binding).name = c.old
  old_ne : c.old ≠ "_"
  new_ne : c.new ≠ "_"
  fresh : ∀ i ∈ identifiers f.decls, i.name ≠ c.new

/-- The identifiers that have the old name of a binding and stand for it get its new one. -/
def strictRespelling (info : Info) (c : Change) (i : Ident) : String :=
  if info.bindingOf? i = some c.binding ∧ i.name = c.old then c.new else i.name

/-- The identifiers that stand for a binding get a new spelling. -/
def respelling (info : Info) (b : Nat) (new : String) (i : Ident) : String :=
  if info.bindingOf? i = some b then new else i.name

namespace Renames

variable {name : String} {f : File} (h : Renames name f c)

include h

lemma later : (declared name f).2.info.bindings.size ≤ c.binding :=
  size_declared_le_of_var name h.nodup h.var

lemma not_stands_package : (resolved name f).info.bindingOf? f.package ≠ some c.binding := by
  have hparts : ∀ {k}, k ∈ ids (f.decls.flatMap nameNodes) ++
      (ids (f.decls.flatMap typeNodes) ++ ids (behindTypes f.decls)) → k ∈ ids f.decls := by
    intro k hk
    rw [behindTypes, ids_append, ids_append] at hk
    exact count_pos_iff.mp (Nat.lt_of_lt_of_le (count_pos_iff.mpr hk) (count_partIds f.decls k))
  refine not_stands_of_early name h.nodup h.later (fun hmem => h.package (hparts ?_))
    fun hmem => h.package (hparts ?_)
  · exact mem_append_right _ (mem_append_left _ hmem)
  · exact mem_append_right _ (mem_append_right _ hmem)

lemma not_stands_name (hi : .ident i ∈ f.decls.flatMap nameNodes) :
    (resolved name f).info.bindingOf? i ≠ some c.binding := by
  have hdisjoint := disjoint_of_nodup_append (nodup_parts h.nodup)
  refine not_stands_of_early name h.nodup h.later (fun hmem => ?_) fun hmem => ?_
  · exact hdisjoint (mem_ids_names hi) (mem_append_left _ hmem)
  · exact hdisjoint (mem_ids_names hi) (mem_append_right _ hmem)

/-- The two runs agree if those identifiers are renamed that have the old name and stand for the
variable. -/
lemma agree_of_spell (hpackage : spell f.package = f.package.name)
    (hspell : ∀ i ∈ identifiers f.decls,
      spell i = strictRespelling (resolved name f).info c i) :
    (respelled f.decls c spell).link.Agree (resolved name f)
    (resolved name (f.relabel (respell spell))) := by
  have hnames : ∀ i, .ident i ∈ f.decls.flatMap nameNodes → spell i = i.name := by
    intro i hi
    rw [hspell i (mem_identifiers.mpr (picks_name.mem_preorderAll (mem_preorderAll_of_mem hi))),
      strictRespelling, if_neg]
    exact fun hmoved => h.not_stands_name hi hmoved.1
  have hunit := unitRel_respelled (c := c) h.nodup hpackage hnames
  have hsound : (respelled f.decls c spell).Sound := sound_respelled h.nodup h.old_ne h.new_ne
  have hstarts : UnitRel.Starts (respelled f.decls c spell) (declared name f).2 := by
    refine ⟨trivial, ?_⟩
    rintro c ⟨⟩
    exact h.later
  have hforetold : (respelled f.decls c spell).link.Foretold [] (resolved name f) := by
    refine ⟨fun _ i hi _ _ => ⟨?_, ?_⟩, ?_, ?_, trivial⟩
    · rw [Link.spelling_of_change (c := c) rfl]
      exact hspell i hi
    · rintro c ⟨⟩
      exact h.fresh i hi
    · rintro c ⟨⟩ -
      exact h.old
    · rintro c ⟨⟩ -
      exact h.var
  have hlength : (declared name (f.relabel (respell spell))).1.1.length =
      (declared name f).1.1.length :=
    (hunit.declared_rel hsound name).1.length_eq.symm
  have hrun := (inStep_respelled name h.nodup h.old_ne h.new_ne hpackage hnames h.later).run trivial
    [] (declared name f).2
    (declared name (f.relabel (respell spell))).2
  rw [run_behindNames, run_behindNames, identsBehind_eq, before_length, ← hlength, before_length]
    at hrun
  exact (hrun (ready_declared name h.nodup)
    (hunit.agree_declared hsound begins_respelled name hstarts) hforetold).1

/-- **What stands for the variable** has its name, and does not stand behind a dot. -/
lemma stands (hi : i ∈ identifiers f.decls)
    (hb : (resolved name f).info.bindingOf? i = some c.binding) :
    i.name = c.old ∧ ¬Selected (· ∈ preorderAll f.decls) i := by
  have hagree : (respelled f.decls c (strictRespelling (resolved name f).info c)).link.Agree
      (resolved name f) _ :=
    h.agree_of_spell (if_neg fun hmoved => h.not_stands_package hmoved.1) fun _ _ => rfl
  exact hagree.named hi hb c rfl rfl

/-- **The two runs agree.** -/
theorem agree : (respelled f.decls c (respelling (resolved name f).info c.binding c.new)).link.Agree
    (resolved name f)
    (resolved name (f.relabel (respell (respelling (resolved name f).info c.binding c.new)))) := by
  refine h.agree_of_spell (if_neg h.not_stands_package) fun i hi =>
    if_congr ⟨fun hb => ⟨hb, (h.stands hi hb).1⟩, And.left⟩ rfl rfl

end Renames

end Recast.Lockstep
