import Recast.Proofs.Lockstep.Beginning

/-!
# What a stretch of a run leaves alone

The rules by which two runs go in step also say what a single run leaves alone.  In a *steady* link
no two states agree, so only one side of each rule is left: a property of states that every single
step keeps is kept by whatever is built from such steps (`kept`).

When all types are complete,

* no declaration becomes pending again (`pending_before`), and
* a body changes nothing but what is recorded about its own nodes (`framed_bodies`).
-/

namespace Recast.Lockstep

open List
open Lexical
open Resolve hiding bind

variable {L : Link} {p : Prop} {s s' : Scope} {fs fs' : List Signed}
  {ds ds' : List Node} {r r' : Resolver}

/-! ## Steady links -/

/-- A link that is about one side only. -/
def steadyLink (knows : Nat → Prop) (okay : Resolver → Prop) : Link where
  matching := ⟨Eq, Eq⟩
  binds := Eq
  knows := knows
  scopes _ _ _ := False
  fits _ := True
  stops _ _ := True
  inv _ _ := False
  okay := okay
  change := none
  labels := ⟨fun k => k, Ident.name⟩
  occurs _ := True
  tree _ := False
  busy _ := []

/-- A property of states that every single step keeps, and that makes completion idle. -/
structure Steady (knows : Nat → Prop) (okay : Resolver → Prop) : Prop where
  pending : ∀ {r}, okay r → r.pending = []
  update : ∀ {r r' T}, okay r → (steadyLink knows okay).Update r T r' → okay r'

namespace Steady

variable {knows : Nat → Prop} {okay : Resolver → Prop} (h : Steady knows okay)

include h

lemma lawful : (steadyLink knows okay).Lawful where
  apart _ _ heq := heq
  plain _ := rfl
  idle _ _ := rfl
  blank := nofun
  distinct hc := absurd rfl hc
  occurs_busy hc := absurd rfl hc
  child := False.elim
  one hb hc := by rw [hb, hc]
  nested := False.elim
  carry := False.elim
  declare := False.elim
  lookup := False.elim
  here := False.elim
  here_none := False.elim
  named := False.elim
  fits _ _ := trivial
  stops := trivial
  okay hokay hupdate _ := ⟨h.update hokay hupdate, rfl⟩
  inv := False.elim

lemma completes (s : Scope) (n : Nat) :
    (steadyLink knows okay).Completes ⟨completeWithin s n, completeWithin s n⟩ := by
  have hmoves : ∀ b r, (steadyLink knows okay).Moves [] r ((completeWithin s n b).run r).2 := by
    intro b r hokay hfree
    rw [completeWithin_of_pending_eq_nil s n b (h.pending hokay)]
    exact Link.moves_refl hokay hfree
  exact ⟨hmoves, fun {b b'} _ => ⟨hmoves b, fun _ _ _ _ _ hagree _ => hagree.inv.elim⟩⟩

end Steady

/-- **What every step keeps is kept.** -/
lemma kept {α α' : Type} {knows : Nat → Prop} {okay : Resolver → Prop} {T : List Ident}
    {x : Resolve α} {x' : Resolve α'}
    {post : α → α' → Prop} (hx : Sim (steadyLink knows okay) False T x x' post) (hokay : okay r) :
    okay (x.run r).2 :=
  (hx.moves r hokay fun _ _ => not_mem_nil).okay

namespace Steady

variable {knows : Nat → Prop} {okay : Resolver → Prop} (h : Steady knows okay)
  {package : Scope} {n : Nat}

include h

lemma kept_signAll (hloose : (steadyLink knows okay).Loose)
    (hk : (steadyLink knows okay).Knows (heads fs)) (hokay : okay r) :
    okay ((signAll (completeWithin package n) s fs).run r).2 := by
  let relabeled (f : Signed) : Signed :=
    { f with type := f.type.relabel (steadyLink knows okay).labels }
  have hheads : Forall₂ (HeadRel (steadyLink knows okay)) fs (fs.map relabeled) :=
    forall₂_map_right_iff.mpr (forall₂_same.mpr fun f _ => ⟨rfl, rfl⟩)
  have hs : False → (steadyLink knows okay).scopes false s s := False.elim
  have := h.lawful
  exact kept (sim_signAll (h.completes package n) hloose hheads hk hs) hokay

lemma kept_declareVars (hk : (steadyLink knows okay).Knows (ds.flatMap varNodes)) (hokay : okay r) :
    okay ((declareVars (completeWithin package n) ds s).run r).2 := by
  have hdecls : Forall₂ (DeclRel (steadyLink knows okay).labels) ds (ds.map (Node.relabel _)) :=
    forall₂_map_right_iff.mpr (forall₂_same.mpr fun d _ => .same d)
  have hs : False → (steadyLink knows okay).scopes false s s := False.elim
  have := h.lawful
  exact kept (sim_declareVars (h.completes package n) hdecls hk hs) hokay

lemma kept_resolveBodies (hk : (steadyLink knows okay).Knows (bodies fs)) (hokay : okay r) :
    okay ((resolveBodies (completeWithin package n) s fs).run r).2 := by
  let relabeled (f : Signed) : Signed :=
    { f with body := relabelBody (steadyLink knows okay).labels f.body }
  have hbodies : (fs.map relabeled).map Signed.body =
      (fs.map Signed.body).map (relabelBody (steadyLink knows okay).labels) := by
    rw [map_map, map_map]
    rfl
  have hs : False → (steadyLink knows okay).scopes false s s := False.elim
  have := h.lawful
  exact kept (sim_resolveBodies (h.completes package n) hbodies False.elim hk hs) hokay

end Steady

/-! ## Nothing becomes pending -/

lemma steady_settled : Steady (fun _ => True) fun r => r.pending = [] where
  pending h := h
  update h hupdate := hupdate.samePending.1.trans h

lemma loose_settled : (steadyLink (fun _ => True) fun r => r.pending = []).Loose :=
  fun hsame _ _ h => ⟨hsame.1.trans h, rfl⟩

section Run

variable (name : String) (f : File)

/-- **All types are completed.** -/
lemma pending_completed (hnodup : (ids f.decls).Nodup) : (completed name f).pending = [] := by
  have hstart : Shows (initial name f).info start [{}, Library.predeclaredFrame] :=
    .cons (fun _ => .none) (.cons (frameShows_predeclared rfl) .nil)
  have hsize : (initial name f).info.bindings.size = Library.predeclared.length := size_toArray
  obtain ⟨himports, -, -⟩ : Stage (fun _ => none) {} start _ [] (initial name f) _ _ ∧ _ :=
    importPackages_stage f.imports hstart hsize rfl
  have hclear : (Background.idle (fun _ => none) {}).Clear
      (start.run (importsWord Library.predeclared.length f.imports)) (partIds f.decls) :=
    ⟨nodup_partIds hnodup, disjoint_nil_right _, disjoint_nil_right _,
      ids_run_importsWord _ _ ▸ disjoint_nil_right _, disjoint_nil_right _⟩
  have hnames := declareAll_stage f.decls hclear.left himports.shows
  obtain ⟨htypes, hbindings, hactive⟩ := pending_declared name f
  have huntouched : ∀ T, Untouched
      ((importPackages f.imports {}).run (initial name f)).2 T := fun T =>
    Untouched.kept (fun _ _ => ⟨rfl, rfl⟩) himports.step.changes (disjoint_nil_right T)
  exact (completeAll_stage htypes hbindings hactive (hclear.behind hnames.ids).left
    (hnames.untouched hclear (huntouched _)).left (fun _ _ => rfl) hnames.shows rfl).2

/-- When the first few bodies are resolved. -/
def before (k : Nat) : Resolver :=
  ((resolveBodies (completer name f) (varied name f).1 ((signed name f).1.take k)).run
    (varied name f).2).2

lemma resolveBodies_append (complete : Nat → Resolve Ty) (s : Scope) (fs gs : List Signed) :
    resolveBodies complete s (fs ++ gs) = (do
      resolveBodies complete s fs
      resolveBodies complete s gs) := by
  induction fs with
  | nil => rfl
  | cons f fs ih =>
    rw [cons_append, resolveBodies_cons, resolveBodies_cons, ih, bind_assoc]

lemma run_behindNames (k : Nat) : (Reading.behindNames name f k).run (declared name f).2 =
    (((varied name f).1, (signed name f).1), before name f k) := rfl

/-- Then one more follows. -/
lemma before_succ (k : Nat) :
    before name f (k + 1) = ((resolveBodies (completer name f) (varied name f).1
    (((signed name f).1.drop k).take 1)).run (before name f k)).2 := by
  rw [before, take_add, resolveBodies_append, run_bind, before]

/-- Then the others follow. -/
lemma resolved_eq (k : Nat) : resolved name f = ((resolveBodies (completer name f) (varied name f).1
    ((signed name f).1.drop k)).run (before name f k)).2 := by
  rw [resolved, ← (signed name f).1.take_append_drop k, resolveBodies_append, run_bind, before,
    take_append_drop]

/-- **When all types are complete, nothing becomes pending again.** -/
lemma pending_before (hnodup : (ids f.decls).Nodup) (k : Nat) : (before name f k).pending = [] := by
  have hknows : ∀ ns, (steadyLink (fun _ => True) fun r => r.pending = []).Knows ns :=
    fun _ => .of_ids rfl fun _ _ => trivial
  have hsigned : (signed name f).2.pending = [] :=
    steady_settled.kept_signAll loose_settled (hknows _) (pending_completed name f hnodup)
  have hvaried : (varied name f).2.pending = [] :=
    steady_settled.kept_declareVars (hknows _) hsigned
  exact steady_settled.kept_resolveBodies (hknows _) hvaried

end Run

/-! ## Bodies -/

/-- **A framed stretch of a run**: nothing has changed but what is recorded about some nodes, and
the new bindings. -/
structure Framed (inside : Nat → Prop) (r r' : Resolver) : Prop where
  pending : r'.pending = []
  active : r'.active = r.active
  package : r'.package = r.package
  members : r'.members = r.members
  underlying : r'.info.underlying = r.info.underlying
  size : r.info.bindings.size ≤ r'.info.bindings.size
  binding : ∀ b < r.info.bindings.size, r'.info.binding b = r.info.binding b
  types : ∀ k, ¬inside k → r'.info.types.find? k = r.info.types.find? k
  typeNodes : ∀ k, ¬inside k → r'.typeNodes.contains k = r.typeNodes.contains k
  defs : ∀ k, ¬inside k → r'.info.defs.find? k = r.info.defs.find? k
  uses : ∀ k, ¬inside k → r'.info.uses.find? k = r.info.uses.find? k

lemma framed_refl {inside : Nat → Prop} (h : r.pending = []) : Framed inside r r :=
  ⟨h, rfl, rfl, rfl, rfl, Nat.le_refl _, fun _ _ => rfl, fun _ _ => rfl, fun _ _ => rfl,
    fun _ _ => rfl, fun _ _ => rfl⟩

/-- What is recorded about a node inside concerns no node outside. -/
lemma find?_insert_inside {α : Type} {inside : Nat → Prop}
    {table table₀ : Table Nat α} {k l : Nat} {a : α}
    (hk : inside k) (hl : ¬inside l) (h : table.find? l = table₀.find? l) :
    (table.insert k a).find? l = table₀.find? l := by
  rw [Table.find?_insert, if_neg, h]
  rintro rfl
  exact hl hk

lemma steady_framed (inside : Nat → Prop) (r₀ : Resolver) : Steady inside (Framed inside r₀) where
  pending h := h.pending
  update {r r' T} h hupdate := by
    cases hupdate with
    | typed t hm => exact { h with types := fun k hk => find?_insert_inside hm hk (h.types k hk) }
    | @typeNode m hm =>
      refine { h with typeNodes := fun k hk => ?_ }
      rw [contains_cons, h.typeNodes k hk, beq_false_of_ne, Bool.false_or]
      rintro rfl
      exact hk hm
    | push x =>
      refine { h with size := ?_, binding := fun b hb => ?_ }
      · rw [Array.size_push]
        exact Nat.le_succ_of_le h.size
      · rw [← h.binding b hb]
        exact (binding_push r.info x b).trans (if_neg (Nat.ne_of_lt (Nat.lt_of_lt_of_le hb h.size)))
    | define b hi => exact { h with defs := fun k hk => find?_insert_inside hi hk (h.defs k hk) }
    | refer b hi => exact { h with uses := fun k hk => find?_insert_inside hi hk (h.uses k hk) }
    | quiet n k log stopped => exact { h with }

/-- **A body changes nothing** but what is recorded about its own nodes. -/
lemma framed_bodies {inside : Nat → Prop} {package : Scope} {n : Nat}
    (hk : ∀ m ∈ preorderAll (bodies fs), inside m.id) (h : r.pending = []) :
    Framed inside r ((resolveBodies (completeWithin package n) s fs).run r).2 :=
  (steady_framed inside r).kept_resolveBodies (.of_ids rfl hk) (framed_refl h)

end Recast.Lockstep
