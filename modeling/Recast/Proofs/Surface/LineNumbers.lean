import Recast.Proofs.Surface.Placing

/-!
# Lines are numbered in order

The forms of a description that get a line are numbered in the order in which they are written: the
forms at the top, the statements but for those that stand in front of a condition or behind it, and
the cases of a switch.  The number of a form is the line of what is built from it and of the
messages that it ends with.

* `numbered_in_order` — the lines of a whole description.
-/

namespace Recast.Surface

open List
open Build

variable {lined : List (Role × Form)} {forms : List Form} {c c' : Cursor} {items : List Item}

lemma linedAll_replicate (forms : List Form) (ρ : Role) :
    linedAll forms (replicate forms.length ρ) = forms.flatMap (linedForms · ρ) := by
  induction forms with
  | nil => rfl
  | cons form forms ih => rw [length_cons, replicate_succ, linedAll, ih, flatMap_cons]

/-! ## Nodes -/

/-- A form on a line has been built, and what was made of it is found below some nodes. -/
def BuiltIn (lined : List (Role × Form)) (ns : List Node) (i : Nat) : Prop :=
  ∃ ρ form v, Built lined i ρ form v ∧ ∀ n ∈ nodesOf ρ v, n ∈ preorderAll ns

lemma BuiltIn.mono {ns ms : List Node} {i : Nat} (h : BuiltIn lined ns i)
    (hns : ∀ n ∈ preorderAll ns, n ∈ preorderAll ms) :
    BuiltIn lined ms i := by
  obtain ⟨ρ, form, v, hbuilt, hv⟩ := h
  exact ⟨ρ, form, v, hbuilt, fun n hn => hns n (hv n hn)⟩

lemma map_node_bareRows (item : Item) : (bareRows .item item).map Row.node = item.nodes := by
  cases item with
  | imports specs => simp [bareRows, Item.nodes, inline, Function.comp_def]
  | _ => rfl

lemma mem_ownNodes {rows : List Row} {n : Node} (h : n ∈ ownNodes rows) :
    n ∈ preorderAll (rows.map Row.node) := by
  obtain ⟨r, hr, rfl⟩ := mem_map.mp h
  rw [← map_node_unroll]
  exact mem_map_of_mem (mem_of_mem_filter hr)

/-- **All lines of a top-level form** have been given to forms in it, in their order. -/
lemma builtIn_item {form : Form} {item : Item} (hrun : (itemOf form).run c = .ok (item, c'))
    (hlined : linedForms form .item <+: lined.drop c.line) {i : Nat}
    (hfrom : c.line ≤ i) (hto : i < c'.line) :
    BuiltIn lined (item.nodes) i := by
  obtain ⟨c₁, hfile, hspot, hsound⟩ := sound_item (L := False) False.elim hrun hlined
  have hline : c₁.line = c.line + 1 := congrArg Spot.line hspot
  rcases Nat.eq_or_lt_of_le hfrom with rfl | hlater
  · cases form with
    | list forms =>
      exact ⟨.item, _, item, built_list rfl hrun hlined (hline ▸ hsound.line),
        fun n hn => mem_preorderAll_of_mem hn⟩
    | _ => cases hrun
  · have hlast := hsound.entered.line
    obtain ⟨n, hn⟩ : ∃ n, (ownNodes (bareRows .item item))[i - c₁.line]? = some n :=
      ⟨_, getElem?_eq_getElem (by omega)⟩
    obtain ⟨ρ, form, v, hbuilt, hv⟩ := hsound.entered.built _ n hn
    rw [Nat.add_sub_cancel' (by omega)] at hbuilt
    refine ⟨ρ, form, v, hbuilt, fun m hm => ?_⟩
    rw [hv, mem_singleton] at hm
    rw [hm, ← map_node_bareRows]
    exact mem_ownNodes (mem_of_getElem? hn)

lemma builtIn_items (hrun : (forms.mapM itemOf).run c = .ok (items, c'))
    (hlined : forms.flatMap (linedForms · .item) <+: lined.drop c.line) {i : Nat}
    (hfrom : c.line ≤ i) (hto : i < c'.line) :
    BuiltIn lined (items.flatMap Item.nodes) i := by
  induction forms generalizing c items with
  | nil =>
    cases hrun
    omega
  | cons form forms ih =>
    rw [mapM_cons] at hrun
    obtain ⟨item, c₁, hitem, hrest⟩ := run_bind_ok hrun
    obtain ⟨items', c₂, hitems, hpure⟩ := run_bind_ok hrest
    cases hpure
    obtain ⟨hfirst, hlater⟩ := drop_read (ρ := .item) rfl hitem hlined
    rw [flatMap_cons]
    rcases Nat.lt_or_ge i c₁.line with hi | hi
    · exact (builtIn_item hitem hfirst hfrom hi).mono fun n hn =>
        preorderAll_append _ _ ▸ mem_append_left _ hn
    · exact (ih hitems hlater hi).mono fun n hn => preorderAll_append _ _ ▸ mem_append_right _ hn

/-! ## Messages -/

/-- The messages that the forms on some lines end with. -/
def messagesOn (file : String) (line : Nat) (lined : List (Role × Form)) : List Expectation :=
  (lined.zipIdx line).flatMap fun p => p.1.2.wants.map (⟨file, p.2 + 1, ·⟩)

lemma noted_signsOf (file : String) (line : Nat) (lined : List (Role × Form)) :
    noted file line (signsOf lined) = messagesOn file line lined := by
  induction lined generalizing line with
  | nil => rfl
  | cons p lined ih =>
    rw [signsOf, flatMap_cons, cons_append, noted, noted_wants, messagesOn,
      zipIdx_cons, flatMap_cons]
    exact congrArg (_ ++ ·) (ih (line + 1))

lemma line_messagesOn {file : String} {line : Nat} {e : Expectation}
    (h : e ∈ messagesOn file line lined) : line < e.line := by
  obtain ⟨⟨p, i⟩, hp, he⟩ := mem_flatMap.mp h
  obtain ⟨message, -, rfl⟩ := mem_map.mp he
  have hi : line ≤ i := (mem_zipIdx hp).1
  exact Nat.lt_succ_of_le hi

/-- Messages come in the order of their lines. -/
lemma sorted_messagesOn (file : String) (line : Nat) (lined : List (Role × Form)) :
    (messagesOn file line lined).Pairwise (·.line ≤ ·.line) := by
  induction lined generalizing line with
  | nil => exact .nil
  | cons p lined ih =>
    rw [messagesOn, zipIdx_cons, flatMap_cons]
    refine pairwise_append.mpr ⟨?_, ih (line + 1), fun e he e' he' => ?_⟩
    · exact pairwise_map.mpr (pairwise_of_forall fun _ _ => Nat.le_refl _)
    · obtain ⟨message, -, rfl⟩ := mem_map.mp he
      exact Nat.le_of_lt (line_messagesOn he')

/-! ## Descriptions -/

lemma played_items (hrun : (forms.mapM itemOf).run c = .ok (items, c')) :
    Played (signsOf (forms.flatMap (linedForms · .item))) c c' := by
  obtain ⟨es, hes, hplayed⟩ := (follows_items forms).of_ok hrun
  rw [← scriptAll_replicate] at hes
  rw [← linedAll_replicate, ← scriptAll_lined forms _ hes]
  exact hplayed

/-- Only a name of the package that a later one replaces is left out of the tree of a unit. -/
lemma mem_preorder_ofItems {file : String} {n : Node}
    (h : n ∈ preorderAll (items.flatMap Item.nodes)) :
    n ∈ (File.ofItems file items).node.preorder ∨
    ∃ name, .package name ∈ items ∧ n = .ident name := by
  obtain ⟨m, hm, hn⟩ := Node.mem_preorderAll_iff.mp h
  obtain ⟨item, hitem, hm⟩ := mem_flatMap.mp hm
  have hchild : m ∈ (File.ofItems file items).node.children →
    n ∈ (File.ofItems file items).node.preorder := fun hc =>
    Node.mem_preorder_iff.mpr (.inr ⟨m, hc, hn⟩)
  cases item with
  | package name =>
    obtain rfl := mem_singleton.mp hm
    rcases Node.mem_preorder_iff.mp hn with rfl | ⟨c, hc, -⟩
    · exact .inr ⟨name, hitem, rfl⟩
    · exact absurd hc not_mem_nil
  | imports specs =>
    obtain ⟨spec, hspec, rfl⟩ := mem_map.mp hm
    have hspecs : spec ∈ (File.ofItems file items).imports :=
      mem_flatMap.mpr ⟨.imports specs, hitem, hspec⟩
    exact .inl (hchild (mem_append_left _ (mem_cons_of_mem _ (mem_map_of_mem hspecs))))
  | decl d =>
    obtain rfl := mem_singleton.mp hm
    have hdecl : m ∈ (File.ofItems file items).decls := mem_filterMap.mpr ⟨.decl m, hitem, rfl⟩
    exact .inl (hchild (mem_append_right _ hdecl))

/-- **Lines are consecutive numbers.**

If a description is accepted, the forms in it that get a line are numbered from one, in the order in
which they are written: then each of them was built when the lines before its own had been given
out, all that was built from it is on the line with its number and belongs to the tree (but for a
name of the package that a later one replaces), the messages that it ends with are recorded with
this line, messages are recorded in the order of lines, and the last line is the number of these
forms. -/
theorem numbered_in_order {file : String} {forms : List Form} {f : File}
    {expectations : List Expectation} (h : File.ofForms file forms = .ok (f, expectations)) :
    let lined := forms.flatMap (linedForms · .item)
    ∃ items c, (forms.mapM itemOf).run { file := file } = .ok (items, c) ∧
      f = File.ofItems file items ∧ expectations = c.expectations ∧
      (∀ i ρ form, lined[i]? = some (ρ, form) → ∃ v, Built lined i ρ form v ∧
        ∀ n ∈ nodesOf ρ v, n.loc.line = i + 1 ∧ n ∈ preorderAll (items.flatMap Item.nodes) ∧
          (n ∈ f.node.preorder ∨ ∃ name, .package name ∈ items ∧ n = .ident name)) ∧
      c.expectations = (lined.zipIdx.flatMap fun p => p.1.2.wants.map (⟨file, p.2 + 1, ·⟩)) ∧
      c.expectations.Pairwise (·.line ≤ ·.line) ∧ c.line = lined.length := by
  intro lined
  obtain ⟨items, c, hrun, rfl, rfl⟩ := File.run_of_ofForms h
  have hplayed := played_items hrun
  have hline : c.line = lined.length := by
    rw [hplayed.line, lineCount_signsOf, Nat.zero_add]
  have hexpectations : c.expectations = messagesOn file 0 lined := by
    rw [hplayed.expectations, noted_signsOf]
    rfl
  refine ⟨items, c, hrun, rfl, rfl, fun i ρ form hi => ?_, hexpectations,
    hexpectations ▸ sorted_messagesOn file 0 lined, hline⟩
  obtain ⟨hlt, -⟩ := List.getElem?_eq_some_iff.mp hi
  have hall : lined <+: lined.drop 0 := List.prefix_rfl
  obtain ⟨σ, g, v, hbuilt, hv⟩ := builtIn_items hrun hall (Nat.zero_le i) (hline ▸ hlt)
  have hsame : (σ, g) = (ρ, form) := Option.some_inj.mp (hbuilt.form.symm.trans hi)
  cases hsame
  exact ⟨v, hbuilt, fun n hn => ⟨hbuilt.line n hn, hv n hn, mem_preorder_ofItems (hv n hn)⟩⟩

/-- In `(func f () () (for (block (break (want "a"))) (want "b")))` the loop is on line 2 and what
it breaks off with on line 3. -/
theorem numbered_in_order_loop :
    let forms : List Form :=
      [.list [.symbol "func", .symbol "f", .list [], .list [], .list [.symbol "for",
      .list [.symbol "block", .list [.symbol "break", .list [.symbol "want", .text "a"]]],
      .list [.symbol "want", .text "b"]]]]
    ∃ f, File.ofForms "u" forms = .ok (f, [⟨"u", 2, "b"⟩, ⟨"u", 3, "a"⟩]) ∧
      ∃ n ∈ f.node.preorder, n.kind = "BranchStmt" ∧ n.loc.line = 3 := by
  intro forms
  obtain ⟨f, expectations, h⟩ : ∃ f expectations, File.ofForms "u" forms = .ok (f, expectations) :=
    ⟨_, _, rfl⟩
  obtain ⟨items, c, -, -, rfl, hnodes, hexpectations, -⟩ := numbered_in_order h
  replace hexpectations : c.expectations = [⟨"u", 2, "b"⟩, ⟨"u", 3, "a"⟩] := hexpectations
  refine ⟨f, hexpectations ▸ h, ?_⟩
  obtain ⟨n, hbuilt, hn⟩ :=
    hnodes 2 .stmt (.list [.symbol "break", .list [.symbol "want", .text "a"]]) rfl
  obtain ⟨c₁, c₂, -, hrun⟩ := hbuilt.run
  cases hrun
  obtain ⟨hloc, -, hmem | ⟨name, -, hname⟩⟩ := hn _ List.mem_cons_self
  · exact ⟨_, hmem, rfl, hloc⟩
  · cases hname

end Recast.Surface
