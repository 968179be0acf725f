import Recast.Proofs.Names.Ledger

/-!
# What the resolver spends

Every expression, type and statement of a regular tree is resolved at the cost of its own nodes, and
the types that it needs are recorded: that is what a strict visit does.  To complete a type
declaration costs its own nodes too, which were owed before it was begun.

* `spends_of_visits` — what is visited strictly is paid for.
* `spends_completeWithin` — completing on demand costs nothing but what is owed.
-/

namespace Recast.Ledger

open List
open Resolve hiding bind
open Lexical Regular

variable {complete : Nat → Resolve Ty} {scope : Scope} {m : Mark} {n : Node} {ns : List Node}

/-! ## Single steps of a visit -/

/-- Where whole literals are numerals, no length of an array stops resolution. -/
lemma silent_legible (h : n.isLegible = true) : Silent (arrayLength n) := by
  rw [arrayLength.eq_def]
  split
  · rename_i m value
    rw [Node.isLegible, Numeral.integer?] at h
    cases hread : Numeral.readInteger value with
    | ok v => exact silent_pure _
    | error fault =>
      rw [hread] at h
      cases h
  · exact silent_pure _

lemma spendsOn_ident {α : Type} {x : Resolve α} {i : Ident} {X : List Nat}
    (h : Spends [i.mark.id] [i.mark.id] X x) :
    SpendsOn [.ident i] x :=
  h.on (by grind [Node.children, Node.id, Node.mark]) (by grind [Node.children, needsType])

lemma spends_use (hcomplete : ∀ b, Spends [] [] [] (complete b)) (i : Ident) :
    Spends [i.mark.id] [i.mark.id] [i.mark.id]
    (do typed i.mark (← identType complete scope i)) :=
  (spends_identType hcomplete scope i).bind fun t => spends_typed i.mark t

lemma spends_target (i : Ident) (t : Ty) : Spends [i.mark.id] [i.mark.id] []
    (if i.name == "_" then pure scope else defineOrReuse i t scope) :=
  spends_ite (spends_nothing (silent_pure scope)) (spends_defineOrReuse i t scope)

/-- A key that names a field is typed, but not looked up. -/
lemma spendsOn_key (hcomplete : ∀ b, Spends [] [] [] (complete b)) (m : Mark)
    (u : Ty) (key : Ident) :
    SpendsOn [.ident key] (keyOf complete scope m u (.ident key)) := by
  have hexpr : SpendsOn [.ident key] (do
      let _ ← expr complete scope none (.ident key)
      pure (u.elem?.getD .invalid)) :=
        spendsOn_ident ((spends_use hcomplete key).thenSilent fun _ => silent_pure _)
  cases u with
  | struct serial fields => exact spendsOn_ident (spends_keyType m _ key)
  | _ => exact hexpr

/-- Before a dot, an identifier that names a package is not typed. -/
lemma spendsOn_selectIdent (hcomplete : ∀ b, Spends [] [] [] (complete b))
    {expected : Option Ty} {i name : Ident} :
    SpendsOn [.select m (.ident i) name]
      (expr complete scope expected (.select m (.ident i) name)) := by
  have hexpr : expr complete scope expected (.select m (.ident i) name) =
      packageOf? scope (.ident i) >>= selectIdent complete scope m i name := by
    rw [expr]
    rfl
  have hnone : SpendsOn [.select m (.ident i) name] (selectIdent complete scope m i name none) :=
    ((spends_use hcomplete i).bind fun t => (spends_fieldType m t name).bind
      fun u => spends_node m u).on
      (by grind [Node.children, Node.id, Node.mark])
      (by grind [Node.children, Node.id, Node.mark, needsType])
  have hsome : ∀ b, SpendsOn [.select m (.ident i) name]
    (selectIdent complete scope m i name (some (i, b))) := fun b =>
    ((spends_memberType m i b name).bind fun t => spends_typed m t).mono
      (by grind [Node.children, Node.id, Node.mark])
      (by grind [Node.children, Node.id, Node.mark])
      (by grind [Node.children, Node.id, Node.mark, needsType])
  rw [hexpr]
  refine (spends_silent (still_packageOf? scope (.ident i)).silent).bindRun fun r => ?_
  cases hscope : scope.lookup i.name with
  | none =>
    rw [packageOf?, hscope]
    exact hnone
  | some b =>
    have hpackage : ((packageOf? scope (.ident i)).run r).1 =
        if (r.info.binding b).kind == .package then some (i, b) else none := by
      rw [packageOf?, hscope]
      rfl
    rw [hpackage]
    split
    · exact hsome b
    · exact hnone

/-! ## Visits -/

lemma mem_needed_perm {ms : List Node} {k : Nat} (h : ns.Perm ms) (hk : k ∈ needed ms) :
    k ∈ needed ns := by
  induction h with
  | nil => exact hk
  | cons n _ ih => grind
  | swap n m ns => grind
  | trans _ _ ih ih' => exact ih (ih' hk)

/-- A node is paid for when its parts are, and its own type besides. -/
lemma spendsOn_whole {α : Type} {x : Resolve α} {T X : List Nat} (hparts : ns.Perm n.children)
    (h : Spends (ids ns ++ T) (ids ns ++ T) (needed ns ++ X) x)
    (hT : ∀ k, T.count k ≤ [n.id].count k)
    (hX : needsType n = true → n.id ∈ X) : SpendsOn [n] x := by
  refine h.on (fun k => ?_) fun k hk => ?_
  · rw [ids_cons, ids_nil, append_nil, count_append, count_ids_perm hparts]
    have := hT k
    grind
  · rcases mem_needed_cons.mp hk with ⟨hn, rfl⟩ | hk | hk
    · exact mem_append_right _ (hX hn)
    · exact mem_append_left _ (mem_needed_perm hparts hk)
    · rw [needed_nil] at hk
      cases hk

/-- **What is visited strictly is paid for.** -/
lemma spends_of_visits (hcomplete : ∀ b, Spends [] [] [] (complete b)) {own : List Nat}
    {literal : Option (Nat × Ty)}
    {w : List Event} {α : Type} {x : (Nat → Resolve Ty) → Resolve α} {after : Option (α → Scope)}
    (h : Visits True own literal scope ns w x after) : SpendsOn ns (x complete) := by
  induction h with
  | still h _ => exact (spends_silent h.silent).on (by grind) (by grind)
  | mark => exact (spends_silent (silent_denotesType _)).on (by grind) (by grind)
  | length h => exact (spends_silent (silent_legible (h trivial))).on (by grind) (by grind)
  | define i t => exact spendsOn_ident (spends_define i t _)
  | target i t => exact spendsOn_ident (spends_target i t)
  | field m t name => exact spendsOn_ident (spends_fieldType m t name)
  | use i => exact spendsOn_ident (spends_use hcomplete i)
  | member => exact spendsOn_selectIdent hcomplete
  | key m key => exact spendsOn_key hcomplete m _ key
  | composite _ _ iht ihx =>
    refine spendsOn_whole (n := .composite _ _ _) .rfl (X := [_]) ?_ (fun _ => Nat.le_refl _)
      fun _ => mem_cons_self
    rw [Node.children, ids_append, needed_append, append_assoc, append_assoc]
    exact Spends.bind iht fun t => .afterSilent still_underlyings.silent fun env => Spends.bind
      (ihx (t.underlying env)) fun _ => spends_node _ t
  | @node _ _ _ _ n _ _ _ hparts hn ih =>
    refine spendsOn_whole hparts (X := [n.id]) (Spends.bind ih fun t => ?_) (fun _ => Nat.le_refl _)
      fun _ => mem_cons_self
    cases n with
    | funcType type => cases hn trivial
    | _ => exact spends_node _ t
  | signed _ hparts ih =>
    exact spendsOn_whole hparts
      (Spends.bind ih fun p => (spends_node _ p.1).thenSilent fun _ => silent_pure _)
      (fun _ => Nat.le_refl _) fun _ => mem_cons_self
  | whole _ hparts hn ih =>
    refine spendsOn_whole hparts (T := []) (X := []) ?_ (fun _ => Nat.zero_le _) fun h => ?_
    · simpa only [append_nil, SpendsOn] using ih
    · rw [hn trivial] at h
      cases h
  | more _ hms ih => exact ih.on (by grind) (by grind)
  | bind _ _ ihx ihf => exact (Spends.bind ihx ihf).on (by grind) (by grind)
  | forget _ ih => exact ih
  | bracketed _ _ ih => exact ih

section Trees

variable (hcomplete : ∀ b, Spends [] [] [] (complete b))

include hcomplete

lemma spendsExpr (n : Node) (h : Operand n) (scope : Scope) (expected : Option Ty) :
    SpendsOn [n] (expr complete scope expected n) := by
  have hvisits : Visits True [] none scope _ _ _ _ := visits_expr n (fun _ => h) scope expected
  exact spends_of_visits hcomplete hvisits

lemma spendsSignature (type : FuncType) (h : (Node.funcType type).Regular) (scope : Scope) :
    SpendsOn [.funcType type] (signature complete scope type) := by
  have hvisits : Visits True [] none scope _ _ _ _ := visits_signature type (fun _ => h) scope
  exact spends_of_visits hcomplete hvisits

lemma spendsStmt (n : Node) (h : Statement n) (scope : Scope) :
    SpendsOn [n] (stmt complete scope n) := by
  have hvisits : Visits True [] none scope _ _ _ _ := visits_stmt n (fun _ => h) scope
  exact spends_of_visits hcomplete hvisits

lemma spendsStmts (ns : List Node) (h : ∀ n ∈ ns, Statement n) (scope : Scope) :
    SpendsOn ns (stmts complete scope ns) := by
  have hvisits : Visits True [] none scope _ _ _ _ := visits_stmts ns (fun n hn _ => h n hn) scope
  exact spends_of_visits hcomplete hvisits

end Trees

/-! ## Completing type declarations -/

section Completion

variable {r : Resolver} {d : Pending} {package : Scope}

/-- What a declaration owes is taken out when it becomes active. -/
lemma count_owed_activate (hr : Orderly r) (hd : d ∈ r.pending)
    (hactive : d.binding ∉ r.active) (k : Nat) :
    (ids [d.type]).count k + (owed { r with active := d.binding :: r.active }).count k =
      (owed r).count k := by
  obtain ⟨before, behind, hpending⟩ := append_of_mem hd
  have hnodup := hr.nodup
  rw [hpending, map_append, map_cons, nodup_append, nodup_cons] at hnodup
  obtain ⟨-, ⟨hbehind, -⟩, hbefore⟩ := hnodup
  have hkept : ∀ ds : List Pending, (∀ d' ∈ ds, d'.binding ≠ d.binding) →
      ds.filter (fun d' => !(d.binding :: r.active).contains d'.binding) =
        ds.filter fun d' => !r.active.contains d'.binding := by
    intro ds hds
    refine filter_congr fun d' hd' => ?_
    rw [contains_cons, beq_false_of_ne (hds d' hd'), Bool.false_or]
  have hlater : r.pending.filter (fun d' => !(d.binding :: r.active).contains d'.binding) =
      before.filter (fun d' => !r.active.contains d'.binding) ++ behind.filter fun d' =>
          !r.active.contains d'.binding := by
    rw [hpending, filter_append, filter_cons_of_neg (by simp),
      hkept before fun d' hd' => hbefore _ (mem_map_of_mem hd') _ mem_cons_self,
      hkept behind fun d' hd' heq => hbehind (heq ▸ mem_map_of_mem hd')]
  have hnow : r.pending.filter (fun d' => !r.active.contains d'.binding) =
      before.filter (fun d' => !r.active.contains d'.binding) ++
        d :: behind.filter fun d' => !r.active.contains d'.binding := by
    rw [hpending, filter_append, filter_cons_of_pos (by simpa using hactive)]
  show _ +
    (typeIds (r.pending.filter fun d' => !(d.binding :: r.active).contains d'.binding)).count k = _
  rw [owed, hlater, hnow]
  simp only [typeIds, flatMap_append, flatMap_cons, count_append]
  omega

lemma spends_settle (d : Pending) (t : Ty) : Spends [] [] [] (settle d t) := by
  refine spends_ite (spends_setType d.binding t)
    (.afterSilent (still_bindingAt d.binding).silent fun binding => ?_)
  cases binding.type with
  | named n =>
    exact spends_of_writes {} (fun _ => writes_nothing rfl rfl rfl rfl) (fun _ => rfl)
      (fun _ => rfl) fun _ => rfl
  | _ => exact spends_silent (silent_pure _)

/-- **Completing a declaration** is paid for with what it owes. -/
lemma completeDecl_settles {complete : Nat → Resolve Ty}
    (hcomplete : ∀ b, Spends [] [] [] (complete b)) (hr : Orderly r)
    (hd : d ∈ r.pending) (hactive : d.binding ∉ r.active) :
    ∃ e, Settles [] [] [] e r ((completeDecl complete package d).run r).2 := by
  have hread : Spends (ids [d.type] ++ []) (ids [d.type] ++ []) (needed [d.type] ++ [])
      ((do asType d.type (← expr complete package none d.type)) >>= settle d) :=
    ((spendsExpr hcomplete d.type (hr.operand d hd) package none).thenSilent fun t =>
      (still_asType d.type t).silent).bind
      fun t => spends_settle d t
  simp only [append_nil] at hread
  obtain ⟨e, h⟩ := hread { r with active := d.binding :: r.active } ⟨hr.nodup, hr.operand⟩
  have hrun : ((completeDecl complete package d).run r).2 =
      let r' := (((do asType d.type (← expr complete package none d.type)) >>= settle d).run
        { r with active := d.binding :: r.active }).2
      { r' with
        active := r'.active.filter (· != d.binding)
        pending := r'.pending.filter (·.binding != d.binding) } := rfl
  rw [hrun]
  generalize (((do asType d.type (← expr complete package none d.type)) >>= settle d).run
    { r with active := d.binding :: r.active }).2 = r' at h ⊢
  have hactive' : r'.active.filter (· != d.binding) = r.active := by
    rw [h.active, filter_cons, bne_self_eq_false, if_neg Bool.false_ne_true]
    exact filter_eq_self.mpr fun c hc => bne_iff_ne.mpr fun heq => hactive (heq ▸ hc)
  -- Nothing else is owed than while it was active.
  have howed : owed { r' with
      active := r'.active.filter (· != d.binding)
      pending := r'.pending.filter (·.binding != d.binding) } = owed r' := by
    rw [owed, owed, hactive', h.active, filter_filter]
    refine congrArg typeIds (filter_congr fun d' _ => ?_)
    rw [contains_cons, Bool.not_or, Bool.and_comm]
    rfl
  have hpaid := count_owed_activate hr hd hactive
  refine ⟨e, {
    writes := ⟨h.writes.recorded, fun hr => ?_, h.writes.defs, h.writes.uses⟩
    names := fun k => ?_
    types := fun k => ?_
    covered := fun _ hk => absurd hk not_mem_nil
    completed := fun d' hd' hdone => ?_
    pending := filter_sublist.trans h.pending
    active := hactive'
    stopped := h.stopped }⟩
  · obtain ⟨hmem, hkeys⟩ := h.writes.faithful ⟨hr.mem, hr.keys⟩
    exact ⟨hmem, hkeys⟩
  · rw [howed, count_nil, Nat.zero_add, ← hpaid k]
    exact h.names k
  · rw [howed, count_nil, Nat.zero_add, ← hpaid k]
    exact h.types k
  · by_cases heq : d'.binding = d.binding
    · rw [inj_on_of_nodup_map hr.nodup hd' hd heq]
      exact h.covered
    · exact h.completed d' hd' fun hmem => hdone (mem_filter.mpr ⟨hmem, bne_iff_ne.mpr heq⟩)

/-- **Completing on demand**, however deep, is paid for with what was owed. -/
lemma spends_completeWithin (package : Scope) (n b : Nat) :
    Spends [] [] [] (completeWithin package n b) := by
  -- The induction is on how many declarations may still be started.
  induction n generalizing b with
  | zero => exact spends_silent ((still_bindingAt b).silent.bind fun _ => silent_pure _)
  | succ n ih =>
    intro r hr
    have hdone : ∃ e, Settles [] [] [] e r r := spends_silent (silent_pure ()) r hr
    rw [completeWithin_succ]
    cases hfind : r.pending.find? (·.binding == b) with
    | none => exact hdone
    | some d =>
      have hb : d.binding = b := by simpa using find?_some hfind
      subst hb
      dsimp only
      split
      · exact hdone
      · rename_i hactive
        rw [contains_iff_mem] at hactive
        exact completeDecl_settles ih hr (mem_of_find?_eq_some hfind) hactive

/-- **After all declarations have been completed**, none is pending. -/
lemma completeAll_settles (package : Scope) (n : Nat) (bs : List Nat) (hr : Orderly r)
    (hactive : r.active = []) (hbs : ∀ d ∈ r.pending, d.binding ∈ bs) :
    (∃ e, Settles [] [] [] e r ((completeAll (completeWithin package (n + 1)) bs).run r).2) ∧
      ((completeAll (completeWithin package (n + 1)) bs).run r).2.pending = [] := by
  induction bs generalizing r with
  | nil =>
    have hnil : r.pending = [] := eq_nil_iff_forall_not_mem.mpr fun d hd => not_mem_nil (hbs d hd)
    exact ⟨spends_silent (silent_pure ()) r hr, hnil⟩
  | cons b bs ih =>
    obtain ⟨e, h⟩ := spends_completeWithin package (n + 1) b r hr
    have hne := Declarations.completeWithin_pending package n b hactive
    obtain ⟨⟨e', h'⟩, hnil⟩ := ih (hr.sublist h.pending) (h.active.trans hactive) fun d hd =>
      (mem_cons.mp (hbs d (h.pending.subset hd))).resolve_left (hne d hd)
    exact ⟨⟨e.before e', h.trans h'⟩, hnil⟩

end Completion

end Recast.Ledger
