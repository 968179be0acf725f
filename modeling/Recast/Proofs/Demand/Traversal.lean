import Recast.Proofs.Demand.Steps

/-!
# What resolution keeps

Whatever holds of a state of resolution holds until the end of an expression or a statement, if it
is kept by all steps that complete nothing and by the completions that are asked for on the way.
And if two ways to complete a declaration have the same results wherever they are asked, so have the
expressions and statements that ask.

**Regimes.**  A `Regime` has an invariant and two ways to complete a declaration.  It says of which
nodes something may be recorded, which names may be looked up, and which declarations may have to be
completed.  A tree is covered by a regime if its nodes and names are (`Covers`).

* `Regime.Keeps` — two computations with the same results, which keep the invariant.
* `Regime.keepsExpr`, `Regime.keepsStmt` — expressions and statements.
-/

namespace Recast.Lexical

open List
open Resolve hiding bind

/-- The name that is looked up in an event, where a type of this name would be completed. -/
def Event.mention : Event → List String
  | .use i => [i.name]
  | .key _ i => if i.name == "_" then [] else [i.name]
  | _ => []

/-- The names that are looked up in a word. -/
def mentioned (w : List Event) : List String := w.flatMap Event.mention

@[simp, grind =] lemma mentioned_nil : mentioned [] = [] := rfl

@[simp, grind =] lemma mentioned_cons (e : Event) (w : List Event) :
    mentioned (e :: w) = e.mention ++ mentioned w := rfl

@[simp, grind =] lemma mentioned_append (w w' : List Event) :
    mentioned (w ++ w') = mentioned w ++ mentioned w' :=
  flatMap_append

@[simp, grind =] lemma mentioned_bracketed (w : List Event) :
    mentioned (bracketed w) = mentioned w := by
  simp [bracketed, Event.mention]

end Recast.Lexical

namespace Recast.Demand

open List
open Lexical
open Resolve hiding bind

/-- What has to be kept while declarations are completed in either of two ways. -/
structure Regime where
  complete : Nat → Resolve Ty
  complete' : Nat → Resolve Ty
  inv : Resolver → Prop
  /-- The nodes about which something may be recorded. -/
  nodes : Nat → Prop
  /-- The nodes whose types may be recorded. -/
  typed : Nat → Prop
  /-- The names that may be looked up. -/
  names : String → Prop
  /-- The bindings that may be asked for. -/
  wanted : Nat → Prop
  fresh : ∀ {r}, inv r → wanted r.info.bindings.size
  stable : ∀ {r r'}, inv r → Recorded nodes typed r r' → inv r'
  completes : ∀ {b r}, wanted b → inv r → (complete b).run r = (complete' b).run r ∧
    inv ((complete b).run r).2

namespace Regime

variable (B : Regime) {α β : Type}

/-- **Two computations keep a regime**: they have the same results, keep its invariant, and give
something of which `Q` holds. -/
def Keeps (x x' : Resolve α) (Q : α → Prop) : Prop :=
  ∀ r, B.inv r → x.run r = x'.run r ∧ B.inv (x.run r).2 ∧ Q (x.run r).1

/-- The names that may be looked up in a scope are those of bindings that may be asked for. -/
def Sees (scope : Scope) : Prop := ∀ name b, B.names name → scope.lookup name = some b → B.wanted b

/-- Trees with nodes and names that are covered. -/
structure Covers (ns : List Node) (w : List Event) : Prop where
  nodes : ∀ k ∈ ids ns, B.nodes k
  typed : ∀ k ∈ ids ns, B.typed k
  names : ∀ name ∈ mentioned w, B.names name

/-- An expression whose parts are covered. -/
structure CoversParts (n : Node) : Prop extends B.Covers n.children (exprWord n) where
  own : ∀ k ∈ marks n, B.nodes k

variable {B} {x y x' y' : Resolve α} {f f' : α → Resolve β} {Q : α → Prop} {Q' : β → Prop}

lemma Keeps.bind (hx : B.Keeps x x' Q) (hf : ∀ a, Q a → B.Keeps (f a) (f' a) Q') :
    B.Keeps (x >>= f) (x' >>= f') Q' := by
  intro r hr
  obtain ⟨heq, hinv, hQ⟩ := hx r hr
  obtain ⟨heq', hinv', hQ'⟩ := hf _ hQ _ hinv
  refine ⟨?_, hinv', hQ'⟩
  rw [run_bind, run_bind, ← heq, heq']

lemma keeps_pure {a : α} (ha : Q a) : B.Keeps (pure a) (pure a) Q := fun _ hr => ⟨rfl, hr, ha⟩

/-- What a computation gives need not be known. -/
lemma Keeps.forget (hx : B.Keeps x x' Q) : B.Keeps x x' fun _ => True := fun r hr =>
  ⟨(hx r hr).1, (hx r hr).2.1, trivial⟩

/-- The scope to go on with is the one of before. -/
lemma Keeps.seeing {s : Scope} (hx : B.Keeps x x' Q) (hs : B.Sees s) :
    B.Keeps x x' fun _ => B.Sees s := fun r hr =>
  ⟨(hx r hr).1, (hx r hr).2.1, hs⟩

lemma keeps_plain (hx : Plain B.nodes B.typed x) : B.Keeps x x fun _ => True := fun r hr =>
  ⟨rfl, B.stable hr (hx r), trivial⟩

/-- Something that completes nothing comes first. -/
lemma Keeps.after (hx : Plain B.nodes B.typed x) (hf : ∀ a, B.Keeps (f a) (f' a) Q') :
    B.Keeps (x >>= f) (x >>= f') Q' :=
  (keeps_plain hx).bind fun a _ => hf a

/-- Something is given back at the end. -/
lemma Keeps.give {b : β} (hx : B.Keeps x x' Q) (hb : Q' b) :
    B.Keeps (do let _ ← x; return b) (do let _ ← x'; return b) Q' :=
  hx.bind fun _ _ => keeps_pure hb

lemma Covers.sub {ns ms : List Node} {w v : List Event} (h : B.Covers ns w)
    (hids : ∀ k ∈ ids ms, k ∈ ids ns)
    (hnames : ∀ name ∈ mentioned v, name ∈ mentioned w) : B.Covers ms v :=
  ⟨fun k hk => h.nodes k (hids k hk), fun k hk => h.typed k (hids k hk), fun name hname =>
    h.names name (hnames name hname)⟩

lemma Sees.nested {scope : Scope} (h : B.Sees scope) : B.Sees scope.nested := h

/-! ## Names -/

section Names

variable {scope : Scope} {i : Ident}

lemma keeps_define (hi : B.nodes i.mark.id) (ht : B.typed i.mark.id) (t : Ty) (hs : B.Sees scope) :
    B.Keeps (define i t scope) (define i t scope) B.Sees := by
  intro r hr
  refine ⟨rfl, B.stable hr (plain_define hi ht t scope r), ?_⟩
  by_cases hblank : (i.name == "_") = true
  · rw [define_blank hblank]
    exact hs
  · rw [define_eq hblank]
    intro name b hname hb
    replace hb : (scope.declare i.name r.info.bindings.size).lookup name = some b := hb
    rw [Scope.lookup_declare] at hb
    split at hb
    · cases hb
      exact B.fresh hr
    · exact hs name b hname hb

lemma keeps_defineOrReuse (hi : B.nodes i.mark.id) (ht : B.typed i.mark.id)
    (t : Ty) (hs : B.Sees scope) :
    B.Keeps (defineOrReuse i t scope) (defineOrReuse i t scope) B.Sees := by
  rw [defineOrReuse.eq_def]
  cases scope.lookupHere i.name with
  | none => exact keeps_define hi ht _ hs
  | some b =>
    exact .after (plain_refers hi b) fun _ => .after (plain_of_still (still_bindingAt b)) fun _ =>
      .after (plain_typed hi ht _) fun _ => keeps_pure hs

/-- **Names**: a type is completed where its name is looked up. -/
lemma keeps_identType (hi : B.nodes i.mark.id) (hname : ¬(i.name == "_") = true → B.names i.name)
    (hs : B.Sees scope) :
    B.Keeps (identType B.complete scope i) (identType B.complete' scope i) fun _ => True := by
  rw [identType.eq_def, identType.eq_def]
  split
  · exact keeps_pure trivial
  next hblank =>
    cases hlookup : scope.lookup i.name with
    | none => exact keeps_plain (plain_of_still (still_unresolved _ _))
    | some b =>
      refine .after (plain_refers hi b) fun _ =>
        .after (plain_of_still (still_bindingAt b)) fun binding => ?_
      cases binding.kind with
      | type =>
        refine .after (plain_denotesType hi) fun _ r hr => ?_
        obtain ⟨heq, hinv⟩ := B.completes (hs i.name b (hname hblank) hlookup) hr
        exact ⟨heq, hinv, trivial⟩
      | _ => exact keeps_pure trivial

end Names

/-! ## Visits -/

section Visits

variable {strict : Prop} {own : List Nat} {literal : Option (Nat × Ty)} {s : Scope}
  {n : Node} {ns ms : List Node}
  {w v : List Event} {X : (Nat → Resolve Ty) → Resolve α} {after : Option (α → Scope)}

lemma Covers.left (h : B.Covers (ns ++ ms) (w ++ v)) : B.Covers ns w := h.sub (by grind) (by grind)

lemma Covers.right (h : B.Covers (ns ++ ms) (w ++ v)) : B.Covers ms v := h.sub (by grind) (by grind)

lemma mem_marks {k : Nat} (hk : k ∈ marks n) : k = n.id := by
  rw [marks.eq_def] at hk
  split at hk
  all_goals first | exact mem_singleton.mp hk | cases hk

lemma mem_ids_self (n : Node) (ns : List Node) : n.id ∈ ids (n :: ns) := by
  rw [ids_cons]
  exact mem_cons_self

/-- The parts of a node that is covered. -/
lemma Covers.parts (h : B.Covers [n] w) (hparts : ns.Perm n.children) : B.Covers ns w :=
  h.sub (fun k hk => by grind [(ids_perm hparts).mem_iff (a := k)]) fun _ hname => hname

lemma Covers.ident {i : Ident} (h : B.Covers [.ident i] w) :
    B.nodes i.mark.id ∧ B.typed i.mark.id :=
  ⟨h.nodes _ (mem_ids_self (.ident i) []), h.typed _ (mem_ids_self (.ident i) [])⟩

/-- An identifier that is looked up, unless it is blank. -/
lemma keeps_use {i : Ident} (h : B.Covers [.ident i] w)
    (hname : ¬(i.name == "_") = true → i.name ∈ mentioned w)
    (hs : B.Sees s) : B.Keeps (do Resolve.typed i.mark (← identType B.complete s i))
      (do Resolve.typed i.mark (← identType B.complete' s i)) fun _ => True :=
  (keeps_identType h.ident.1 (fun hblank => h.names _ (hname hblank)) hs).bind fun t _ =>
    keeps_plain (plain_typed h.ident.1 h.ident.2 t)

lemma mentioned_use {i : Ident} (hblank : ¬(i.name == "_") = true) :
    i.name ∈ mentioned [unlessBlank .use i] := by
  rw [unlessBlank, if_neg hblank]
  exact mem_cons_self

/-- A package is named by an identifier before the dot. -/
lemma keeps_packageOf? (i : Ident) :
    B.Keeps (packageOf? s (.ident i)) (packageOf? s (.ident i)) fun o => ∀ p ∈ o, p.1 = i := by
  intro r hr
  refine ⟨rfl, B.stable hr (plain_of_still (still_packageOf? s _) r), ?_⟩
  rw [packageOf?]
  cases s.lookup i.name with
  | none => rintro _ ⟨⟩
  | some b =>
    intro p hp
    replace hp : p ∈ if ((r.info.binding b).kind == .package) = true then some (i, b) else none :=
      hp
    split at hp
    · cases hp
      rfl
    · cases hp

/-- **Before a dot**: an identifier, which may name a package. -/
lemma keeps_select {m : Mark} {i name : Ident} {expected : Option Ty}
    (h : B.Covers [.ident i, .ident name] [baseEvent i]) (hm : B.nodes m.id) (hs : B.Sees s) :
    B.Keeps (evaluate B.complete s expected (.select m (.ident i) name))
      (evaluate B.complete' s expected (.select m (.ident i) name)) fun _ => True := by
  have hi : B.Covers [.ident i] [baseEvent i] := h.sub (by grind) fun _ hname => hname
  have hname : B.Covers [.ident name] [] := h.sub (by grind) (by grind)
  have hmention : ¬(i.name == "_") = true → i.name ∈ mentioned [baseEvent i] := by
    intro hblank
    rw [baseEvent, if_neg hblank]
    exact mem_cons_self
  refine (keeps_packageOf? i).bind fun package? hpackage => ?_
  cases package? with
  | none =>
    exact (keeps_use hi hmention hs).bind fun t _ => keeps_plain
      (plain_fieldType m t hname.ident.1 hname.ident.2)
  | some p =>
    refine keeps_plain (plain_memberType hm ?_ hname.ident.1 p.2)
    rw [hpackage p rfl]
    exact hi.ident.1

/-- A key is looked up, unless it names a field. -/
lemma keeps_key {m : Mark} {u : Ty} {l : Nat} {key : Ident} (h : B.Covers [.ident key] [.key l key])
    (hs : B.Sees s) :
    B.Keeps (keyOf B.complete s m u (.ident key)) (keyOf B.complete' s m u (.ident key)) fun _ =>
      True := by
  have hexpr : B.Keeps
    (do let _ ← expr B.complete s none (.ident key); pure (u.elem?.getD .invalid))
      (do let _ ← expr B.complete' s none (.ident key); pure (u.elem?.getD .invalid)) fun _ =>
      True := by
    refine (keeps_use h (fun hblank => ?_) hs).give trivial
    rw [mentioned_cons, Event.mention, if_neg hblank]
    exact mem_cons_self
  cases u with
  | struct serial fields => exact keeps_plain (plain_keyType m _ h.ident.1 h.ident.2)
  | _ => exact hexpr

/-- What a visit gives to go on with. -/
def SeesAfter (B : Regime) : Option (α → Scope) → α → Prop
  | some out => fun a => B.Sees (out a)
  | none => fun _ => True

/-- **What is visited keeps a regime.** -/
lemma keeps_of_visits (h : Visits strict own literal s ns w X after) (hown : ∀ k ∈ own, B.nodes k)
    (hcovers : B.Covers ns w)
    (hs : B.Sees s) : B.Keeps (X B.complete) (X B.complete') (B.SeesAfter after) := by
  induction h with
  | still h hout =>
    intro r hr
    exact ⟨rfl, B.stable hr (plain_of_still h r), ((hout r).symm ▸ hs : B.Sees _)⟩
  | mark h => exact (keeps_plain (plain_denotesType (hown _ h))).seeing hs
  | length => exact (keeps_plain (plain_arrayLength _)).seeing hs
  | define i t => exact keeps_define hcovers.ident.1 hcovers.ident.2 t hs
  | target i t =>
    split
    · exact keeps_pure hs
    · exact keeps_defineOrReuse hcovers.ident.1 hcovers.ident.2 t hs
  | field m t name =>
    exact (keeps_plain (plain_fieldType m t hcovers.ident.1 hcovers.ident.2)).seeing hs
  | use i => exact (keeps_use hcovers mentioned_use hs).seeing hs
  | member m i name expected =>
    have hm := mem_ids_self (.select m (.ident i) name) []
    simp only [expr_eq]
    exact ((keeps_select (hcovers.parts .rfl) (hcovers.nodes _ hm) hs).bind fun t _ =>
      keeps_plain (plain_record (hcovers.nodes _ hm) (hcovers.typed _ hm) t)).seeing hs
  | key m key => exact (keeps_key hcovers hs).seeing hs
  | @composite _ _ _ m type ns _ _ _ _ _ _ iht ihx =>
    have hm := mem_ids_self (.composite m type ns) []
    have hparts := hcovers.parts .rfl
    exact ((iht nofun hparts.left hs).bind fun t _ =>
      .after (plain_of_still still_underlyings) fun env =>
      (ihx (t.underlying env) nofun hparts.right hs).bind fun _ _ =>
        keeps_plain (plain_typed (hcovers.nodes _ hm) (hcovers.typed _ hm) t)).seeing hs
  | @node _ _ _ _ n _ _ _ hparts _ ih =>
    have hn := mem_ids_self n []
    exact ((ih (fun k hk => mem_marks hk ▸ hcovers.nodes _ hn) (hcovers.parts hparts) hs).bind
      fun t _ =>
      keeps_plain (plain_record (hcovers.nodes _ hn) (hcovers.typed _ hn) t)).seeing hs
  | @signed _ _ _ _ m params results _ _ _ hparts ih =>
    have hn := mem_ids_self (.funcType (.mk m params results)) []
    have hself : ∀ k ∈ [m.id], B.nodes k := fun k hk => mem_singleton.mp hk ▸ hcovers.nodes _ hn
    exact (ih hself (hcovers.parts hparts) hs).bind fun p hp =>
      .after (plain_typed (hcovers.nodes _ hn) (hcovers.typed _ hn) p.1) fun _ => keeps_pure hp
  | whole _ hparts _ ih => exact ih hown (hcovers.parts hparts) hs
  | more _ _ ih => exact ih hown (hcovers.sub (by grind) fun _ hname => hname) hs
  | bind _ _ ihx ihf =>
    exact (ihx hown hcovers.left hs).bind fun a ha => ihf a hown hcovers.right ha
  | forget _ ih => exact Keeps.forget (ih hown hcovers hs)
  | bracketed _ hout ih =>
    intro r hr
    obtain ⟨heq, hinv, -⟩ := ih hown (hcovers.sub (fun _ hk => hk) (by simp)) hs.nested r hr
    exact ⟨heq, hinv, ((hout B.complete r).symm ▸ hs : B.Sees _)⟩

end Visits

/-! ## Expressions and statements -/

section Trees

variable (B : Regime) {scope : Scope} {expected : Option Ty}

lemma keepsSignature (type : FuncType) (h : B.Covers [.funcType type] (signatureWord type))
    (hs : B.Sees scope) :
    B.Keeps (signature B.complete scope type) (signature B.complete' scope type)
      fun p => B.Sees p.2 := by
  have hvisits : Visits False [] none scope _ _ _ _ := visits_signature type nofun scope
  exact keeps_of_visits hvisits nofun h hs

lemma keepsStmt (n : Node) (h : B.Covers [n] (stmtWord n)) (hs : B.Sees scope) :
    B.Keeps (stmt B.complete scope n) (stmt B.complete' scope n) B.Sees := by
  have hvisits : Visits False [] none scope _ _ _ _ := visits_stmt n nofun scope
  exact keeps_of_visits hvisits nofun h hs

lemma keepsStmts (ns : List Node) (h : B.Covers ns (stmtsWord ns)) (hs : B.Sees scope) :
    B.Keeps (stmts B.complete scope ns) (stmts B.complete' scope ns) B.Sees := by
  have hvisits : Visits False [] none scope _ _ _ _ := visits_stmts ns (fun _ _ => nofun) scope
  exact keeps_of_visits hvisits nofun h hs

/-- **The evaluation of an expression keeps a regime**, in which the type of the expression itself
need not be covered. -/
lemma keepsEvaluate (n : Node) (h : B.CoversParts n) (hs : B.Sees scope) :
    B.Keeps (evaluate B.complete scope expected n) (evaluate B.complete' scope expected n) fun _ =>
      True := by
  have hparts : Evaluates False scope expected n := evaluates n False.elim scope expected
  rw [Evaluates] at hparts
  generalize hX : (fun complete => evaluate complete scope expected n) = X at hparts
  have hcomplete : ∀ complete, evaluate complete scope expected n = X complete := fun _ => hX ▸ rfl
  rw [hcomplete, hcomplete]
  have hcovers := h.toCovers
  have hown := h.own
  generalize exprWord n = w at hparts hcovers
  cases hparts with
  | ident i =>
    refine keeps_identType (hown _ mem_cons_self)
      (fun hblank => hcovers.names _ (mentioned_use hblank)) hs
  | member m i name expected => exact keeps_select hcovers (hown _ mem_cons_self) hs
  | composite ht hx =>
    exact (keeps_of_visits ht (forall_mem_nil _) hcovers.left hs).bind fun t _ =>
      .after (plain_of_still still_underlyings) fun env =>
      (keeps_of_visits (hx (t.underlying env)) (forall_mem_nil _) hcovers.right hs).give trivial
  | node hx hperm _ =>
    have hvisits : Visits False (marks n) none scope _ _ _ _ := hx
    exact (keeps_of_visits hvisits hown
      (hcovers.sub (fun k hk => (ids_perm hperm).mem_iff.mp hk) fun _ hname => hname) hs).forget

end Trees

end Regime

end Recast.Demand
