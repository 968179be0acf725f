import Recast.Proofs.Lockstep.Completion
import Recast.Proofs.Names.Scoping

/-!
# The stages of resolution, in step

Types are completed, functions get their types, package variables are declared, and bodies are
resolved: each of these goes in step if the declarations of the two units differ in their labels
only.

* `sim_completeAll`, `sim_signAll`, `sim_declareVars`, `sim_resolveBodies` — one rule for each
  stage.
* `sim_upTo` — one for all of them.
-/

namespace Recast.Lockstep

open List
open Lexical
open Resolve hiding bind
open Ty (Alike Matching Matches)

variable {L : Link} {C : Completion} {p : Prop} {inner : Bool} {s s' : Scope}
  {fs fs' : List Signed} [hL : L.Lawful]

/-! ## Types and signatures -/

lemma sim_completeAll (hC : L.Completes C) {bs bs' : List Nat} (hbs : Forall₂ L.binds bs bs') :
    Sim L p [] (completeAll C.complete bs) (completeAll C.complete' bs') fun _ _ => True := by
  induction hbs generalizing p with
  | nil => exact sim_pure fun _ => trivial
  | cons hb _ ih => exact (sim_complete fun _ => hb).after fun _ _ => ih

/-- Functions with the same binding and the same signature, but for its labels. -/
structure HeadRel (L : Link) (f f' : Signed) : Prop where
  binding : L.binds f.binding f'.binding
  type : f'.type = f.type.relabel L.labels

/-- Frames that match in whatever scope they stand. -/
def FramesMatch (L : Link) (f f' : Frame) : Prop :=
  ∀ {inner : Bool} {t t' : Scope}, L.scopes inner t t' → L.scopes true (f :: t) (f' :: t')

/-- The signatures of functions. -/
def heads (fs : List Signed) : List Node := fs.map fun f => .funcType f.type

/-- **Signatures** are resolved in step. -/
lemma sim_signAll (hC : L.Completes C) (hloose : L.Loose) (hrel : Forall₂ (HeadRel L) fs fs')
    (hk : L.Knows (heads fs)) (hs : p → L.scopes inner s s') :
    Sim L p (identifiers (heads fs)) (signAll C.complete s fs) (signAll C.complete' s' fs')
      (Forall₂ fun f f' => FramesMatch L f.frame f'.frame) := by
  induction hrel generalizing p with
  | nil =>
    rw [heads, map_nil, identifiers_nil]
    exact sim_pure fun _ => .nil
  | @cons f f' fs fs' hf _ ih =>
    have hids : identifiers (heads (f :: fs)) = identifiers [.funcType f.type] ++
        identifiers (heads fs) :=
      identifiers_append [.funcType f.type] (heads fs)
    rw [signAll_cons, signAll_cons, hids]
    have hsign : Sim L p (identifiers [.funcType f.type]) (sign C.complete s f)
      (sign C.complete' s' f')
        (SignatureRel L) := by
      rw [sign, sign, hf.type]
      exact (simSignature f.type hk.head fun hp => hL.nested (hs hp)).close fun a a' =>
        (sim_setType hloose (fun _ => hf.binding) fun hp => hp.2.1).after fun _ _ =>
          sim_pure fun hp => hp.1.2
    refine hsign.bind fun a a' => (ih hk.tail fun hp => hs hp.1).close fun gs gs' =>
      sim_pure fun hp => .cons ?_ hp.2
    exact fun ht => hL.carry hp.1.2.2 ht

/-! ## Package variables -/

/-- Declarations of two units: the same but for the labels, and perhaps but for the body of a
function. -/
inductive DeclRel (ρ : Relabeling) : Node → Node → Prop where
  | same (d : Node) : DeclRel ρ d (d.relabel ρ)
  | body (m : Mark) (name : Ident) (type : FuncType) (body body' : Option Block) :
      DeclRel ρ (.funcDecl m name type body)
        (.funcDecl (m.relabel ρ) (name.relabel ρ) (type.relabel ρ) body')

variable {ds ds' : List Node}

/-- **Package variables** are declared in step. -/
lemma sim_declareVars (hC : L.Completes C) (hrel : Forall₂ (DeclRel L.labels) ds ds')
    (hk : L.Knows (ds.flatMap varNodes)) (hs : p → L.scopes inner s s') :
    Sim L p (identifiers (ds.flatMap varNodes)) (declareVars C.complete ds s)
      (declareVars C.complete' ds' s') (L.scopes inner) := by
  induction hrel generalizing p s s' with
  | nil =>
    rw [flatMap_nil, identifiers_nil]
    exact sim_pure hs
  | @cons d d' ds ds' hd _ ih =>
    cases hd with
    | body m name type body body' => exact ih hk hs
    | same d =>
      cases d with
      | varSpec m names type values =>
        have hids : identifiers ((Node.varSpec m names type values :: ds).flatMap varNodes) =
            identifiers [.varSpec m names type values] ++ identifiers (ds.flatMap varNodes) :=
          identifiers_append [.varSpec m names type values] (ds.flatMap varNodes)
        have hk' : L.Knows (Node.varSpec m names type values :: ds.flatMap varNodes) := hk
        rw [hids]
        exact (sim_varSpec (simDeclared type) (simExprs values) hk'.head hs).bind fun _ _ =>
          ih hk'.tail fun hp => hp.2
      | _ => exact ih hk hs

/-! ## Bodies -/

/-- The bodies of functions. -/
def bodies (fs : List Signed) : List Node := fs.flatMap fun f => f.body.toList.map .block

lemma bodies_eq (fs : List Signed) :
    bodies fs = (fs.map Signed.body).flatMap fun body => body.toList.map .block := by
  rw [bodies, flatMap_map]

/-- **Bodies** are resolved in step, if they differ in their labels only and the frames of their
functions match. -/
lemma sim_resolveBodies (hC : L.Completes C)
    (hbodies : fs'.map Signed.body = (fs.map Signed.body).map (relabelBody L.labels))
    (hframes : p → Forall₂ (fun f f' => FramesMatch L f.frame f'.frame) fs fs')
    (hk : L.Knows (bodies fs)) (hs : p → L.scopes inner s s') :
    Sim L p (identifiers (bodies fs)) (resolveBodies C.complete s fs)
      (resolveBodies C.complete' s' fs')
      fun _ _ => True := by
  induction fs generalizing fs' p with
  | nil =>
    obtain rfl : fs' = [] := map_eq_nil_iff.mp hbodies
    rw [bodies, flatMap_nil, identifiers_nil]
    exact sim_pure fun _ => trivial
  | cons f fs ih =>
    rw [map_cons, map_cons] at hbodies
    obtain ⟨f', fs', rfl, hbody, hbodies⟩ := map_eq_cons_iff.mp hbodies
    have hcons : bodies (f :: fs) = f.body.toList.map .block ++ bodies fs := flatMap_cons
    rw [hcons] at hk
    rw [resolveBodies_cons, resolveBodies_cons, hcons, identifiers_append]
    have hfirst : Sim L p (identifiers (f.body.toList.map .block)) (resolveBody C.complete s f)
        (resolveBody C.complete' s' f') fun _ _ => True := by
      rw [resolveBody, resolveBody, hbody]
      cases hsome : f.body with
      | none =>
        rw [Option.toList_none, map_nil, identifiers_nil]
        exact sim_pure fun _ => trivial
      | some body =>
        rw [hsome] at hk
        exact simBlock body hk.left fun hp => (forall₂_cons.mp (hframes hp)).1 (hs hp)
    exact hfirst.bind fun _ _ => ih hbodies (fun hp => (forall₂_cons.mp (hframes hp.1)).2)
      hk.right fun hp => hs hp.1

/-! ## A whole run -/

lemma signAll_bodies (complete : Nat → Resolve Ty) (s : Scope) (fs : List Signed) (r : Resolver) :
    ((signAll complete s fs).run r).1.map Signed.body = fs.map Signed.body := by
  have h := signAll_functions (fun _ body => [body]) complete s fs r
  rwa [← map_eq_flatMap, ← map_eq_flatMap] at h

/-- What comes behind the names of types and functions, up to some of the bodies: the scope of the
package and the functions with their frames come back. -/
def upTo (complete : Nat → Resolve Ty) (s : Scope) (bs : List Nat) (fs : List Signed)
    (ds : List Node) (k : Nat) :
    Resolve (Scope × List Signed) := do
  completeAll complete bs
  let gs ← signAll complete s fs
  let t ← declareVars complete ds s
  resolveBodies complete t (gs.take k)
  return (t, gs)

/-- **Types, signatures, package variables and bodies** are resolved in step. -/
lemma sim_upTo (hC : L.Completes C) (hloose : L.Loose) {bs bs' : List Nat}
    (hbs : Forall₂ L.binds bs bs') (hheads : Forall₂ (HeadRel L) fs fs')
    (hdecls : Forall₂ (DeclRel L.labels) ds ds') (k : Nat)
    (hbodies : (fs'.take k).map Signed.body =
      ((fs.take k).map Signed.body).map (relabelBody L.labels))
    (hkheads : L.Knows (heads fs)) (hkvars : L.Knows (ds.flatMap varNodes))
    (hkbodies : L.Knows (bodies (fs.take k))) (hs : p → L.scopes inner s s') :
    Sim L p
      (identifiers (heads fs) ++
        (identifiers (ds.flatMap varNodes) ++ identifiers (bodies (fs.take k))))
      (upTo C.complete s bs fs ds k) (upTo C.complete' s' bs' fs' ds' k)
      fun a a' => L.scopes inner a.1 a'.1 ∧
      Forall₂ (fun f f' => FramesMatch L f.frame f'.frame) a.2 a'.2 := by
  refine (sim_completeAll hC hbs).after fun _ _ => ?_
  refine (sim_signAll hC hloose hheads hkheads fun hp => hs hp.1).bind_of
    (fun gs => gs.map Signed.body = fs.map Signed.body)
    (fun gs' => gs'.map Signed.body = fs'.map Signed.body) (signAll_bodies _ s fs)
    (signAll_bodies _ s' fs')
    fun gs gs' hgs hgs' => ?_
  have hsame : bodies (fs.take k) = bodies (gs.take k) := by
    rw [bodies_eq, bodies_eq, map_take, map_take, hgs]
  rw [hsame] at hkbodies ⊢
  refine (sim_declareVars hC hdecls hkvars fun hp => hs hp.1.1).bind fun t t' => ?_
  refine (sim_resolveBodies hC ?_ (fun hp => forall₂_take k hp.1.2) hkbodies fun hp => hp.2).close
    fun _ _ =>
    sim_pure fun hp => ⟨hp.1.2, hp.1.1.2⟩
  rw [map_take, map_take, hgs, hgs', ← map_take, ← map_take, hbodies]

/-! ## Imports and names -/

lemma importPackages_relabel (ρ : Relabeling) (specs : List Import) (frame : Frame) :
    importPackages (specs.map (Import.relabel ρ)) frame = importPackages specs frame := by
  induction specs generalizing frame with
  | nil => rfl
  | cons spec specs ih =>
    rw [map_cons, importPackages, importPackages]
    exact bind_congr fun frame => ih frame

/-- A pending declaration with another label for its type. -/
def relabelPending (ρ : Relabeling) (d : Pending) : Pending :=
  ⟨d.binding, d.type.relabel ρ, d.isAlias⟩

/-- Two states before types are completed: they differ in the labels of what was declared only. -/
def Declared (ρ : Relabeling) (knows : Nat → Prop) (r r' : Resolver) : Prop :=
  ∃ defs : Table Nat Nat,
    r' =
      { r with info := { r.info with defs := defs }, pending := r.pending.map (relabelPending ρ) } ∧
    ∀ k, knows k → defs.find? (ρ.number k) = r.info.defs.find? k

section Names

variable {ρ : Relabeling} {knows : Nat → Prop}
  (hapart : ∀ {k l}, knows k → knows l → ρ.number k = ρ.number l → k = l)
  {r r' : Resolver} {name : Ident}

include hapart

lemma find?_insert_number {table table' : Table Nat Nat} {k l b : Nat} (hk : knows k) (hl : knows l)
    (htable : table'.find? (ρ.number l) = table.find? l) :
    (table'.insert (ρ.number k) b).find? (ρ.number l) = (table.insert k b).find? l := by
  rw [Table.find?_insert, Table.find?_insert]
  by_cases heq : k = l
  · rw [if_pos heq, if_pos (congrArg ρ.number heq)]
  · rw [if_neg heq, if_neg (mt (hapart hk hl) heq), htable]

lemma declareType_relabel (hr : Declared ρ knows r r') (hname : ρ.spell name = name.name)
    (hk : knows name.mark.id) (type : Node) (isAlias : Bool) :
    ((declareType (name.relabel ρ) (type.relabel ρ) isAlias).run r').1 =
        ((declareType name type isAlias).run r).1 ∧
      Declared ρ knows ((declareType name type isAlias).run r).2
        ((declareType (name.relabel ρ) (type.relabel ρ) isAlias).run r').2 := by
  obtain ⟨defs, rfl, hdefs⟩ := hr
  refine ⟨by cases isAlias <;> rfl,
    defs.insert (ρ.number name.mark.id) r.info.bindings.size, ?_, ?_⟩
  · rw [Ident.relabel, hname, (declares_type name type isAlias).pending, map_append]
    cases isAlias <;> rfl
  · intro l hl
    cases isAlias with
    | true => exact find?_insert_number hapart hk hl (hdefs l hl)
    | false => exact find?_insert_number hapart hk hl (hdefs l hl)

lemma declareFunc_relabel (hr : Declared ρ knows r r') (hname : ρ.spell name = name.name)
    (hk : knows name.mark.id) :
    ((declareFunc (name.relabel ρ)).run r').1 = ((declareFunc name).run r).1 ∧
      Declared ρ knows ((declareFunc name).run r).2 ((declareFunc (name.relabel ρ)).run r').2 := by
  obtain ⟨defs, rfl, hdefs⟩ := hr
  refine ⟨rfl, defs.insert (ρ.number name.mark.id) r.info.bindings.size, ?_, ?_⟩
  · rw [Ident.relabel, hname]
    rfl
  · exact fun l hl => find?_insert_number hapart hk hl (hdefs l hl)

/-- **The names of types and functions** are declared in the same way, if they keep their
spelling. -/
lemma declareAll_relabel {ds ds' : List Node} (hrel : Forall₂ (DeclRel ρ) ds ds')
    (hnames : ∀ i, .ident i ∈ ds.flatMap nameNodes → ρ.spell i = i.name ∧ knows i.mark.id)
    (frame : Frame) (hr : Declared ρ knows r r') {p p' : (List Signed × Frame) × Resolver}
    (hp : (declareAll ds frame).run r = p) (hp' : (declareAll ds' frame).run r' = p') :
    Forall₂ (fun f f' => f'.binding = f.binding ∧ f'.type = f.type.relabel ρ) p.1.1 p'.1.1 ∧
    p'.1.2 = p.1.2 ∧
      Declared ρ knows p.2 p'.2 := by
  induction hrel generalizing frame r r' p p' with
  | nil =>
    subst hp hp'
    exact ⟨.nil, rfl, hr⟩
  | @cons d d' ds ds' hd _ ih =>
    have hrest : ∀ i, .ident i ∈ ds.flatMap nameNodes → ρ.spell i = i.name ∧
      knows i.mark.id := fun i hi =>
      hnames i (flatMap_cons ▸ mem_append_right _ hi)
    have hfunc : ∀ m name type body body', d = .funcDecl m name type body →
        d' = .funcDecl (m.relabel ρ) (name.relabel ρ) (type.relabel ρ) body' →
        Forall₂ (fun f f' => f'.binding = f.binding ∧ f'.type = f.type.relabel ρ) p.1.1 p'.1.1 ∧
          p'.1.2 = p.1.2 ∧
          Declared ρ knows p.2 p'.2 := by
      rintro m name type body body' rfl rfl
      obtain ⟨hspell, hk⟩ := hnames name mem_cons_self
      obtain ⟨hb, hr'⟩ := declareFunc_relabel hapart hr hspell hk
      have hname : (name.relabel ρ).name = name.name := hspell
      rw [declareAll_funcDecl, run_bind] at hp hp'
      rw [hb, hname] at hp'
      obtain ⟨hfs, hframe, hdeclared⟩ := ih hrest (frame.insert name.name _) hr' rfl rfl
      subst hp hp'
      exact ⟨.cons ⟨rfl, rfl⟩ hfs, hframe, hdeclared⟩
    cases hd with
    | body m name type body body' => exact hfunc m name type body body' rfl rfl
    | same d =>
      cases d with
      | typeDecl m name type isAlias =>
        obtain ⟨hspell, hk⟩ := hnames name mem_cons_self
        obtain ⟨hb, hr'⟩ := declareType_relabel hapart hr hspell hk type isAlias
        rw [Node.relabel] at hp'
        rw [declareAll_typeDecl, run_bind] at hp hp'
        have hname : (name.relabel ρ).name = name.name := hspell
        rw [hb, hname] at hp'
        exact ih hrest _ hr' hp hp'
      | funcDecl m name type body => exact hfunc m name type body (relabelBody ρ body) rfl rfl
      | _ => exact ih hrest frame hr hp hp'

end Names

end Recast.Lockstep
