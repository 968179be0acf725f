import Recast.Proofs.Lockstep.Stages
import Recast.Proofs.Names.Scoping

/-!
# The beginning of a run

Packages are imported and the names of types and functions are declared before any node is looked
at.  So far nothing is known about identifiers but for the declared names, and there are no
variables.

* `Early` — what is so at the beginning, whatever the unit.
* `agree_early` — two readings of a unit agree when all names are declared.
-/

namespace Recast.Lockstep

open List
open Lexical
open Resolve hiding bind
open Ty (Alike Matching Matches)

/-! ## What is so at the beginning -/

/-- **The beginning of a run**: no binding is a variable, frames, members and pending declarations
are about bindings that there are, and only some identifiers are known. -/
structure Early (names : List Nat) (frame : Frame) (r : Resolver) : Prop where
  predeclared : Library.predeclared.length ≤ r.info.bindings.size
  kind : ∀ b < r.info.bindings.size, (r.info.binding b).kind ≠ .var
  frame : ∀ name b, frame.find? name = some b → b < r.info.bindings.size
  member : ∀ path name b, (r.members.find? path).bind (·.find? name) = some b →
    b < r.info.bindings.size
  pending : ∀ d ∈ r.pending, d.binding < r.info.bindings.size
  types : ∀ k, r.info.types.find? k = none
  uses : ∀ k, r.info.uses.find? k = none
  defs : ∀ k b, r.info.defs.find? k = some b → k ∈ names ∧ b < r.info.bindings.size
  typeNodes : r.typeNodes = []

variable {names : List Nat} {frame : Frame} {r r' : Resolver}

/-- A new binding that is no variable. -/
lemma Early.push (h : Early names frame r) {x : Binding} (hx : x.kind ≠ .var) :
    Early names frame { r with info := { r.info with bindings := r.info.bindings.push x } } := by
  have hsize : r.info.bindings.size < (r.info.bindings.push x).size := by simp
  refine ⟨Nat.le_trans h.predeclared (Nat.le_of_lt hsize), ?_, fun name b hb => Nat.lt_trans
    (h.frame name b hb) hsize, fun path name b hb => Nat.lt_trans (h.member path name b hb) hsize,
    fun d hd => Nat.lt_trans (h.pending d hd) hsize, h.types, h.uses,
    fun k b hb => ⟨(h.defs k b hb).1, Nat.lt_trans (h.defs k b hb).2 hsize⟩, h.typeNodes⟩
  intro b hb
  show ({ r.info with bindings := r.info.bindings.push x }.binding b).kind ≠ _
  rw [binding_push]
  split
  next => exact hx
  next hne =>
    have hlt : b < (r.info.bindings.push x).size := hb
    rw [Array.size_push] at hlt
    exact h.kind b (by omega)

lemma Early.insert (h : Early names frame r) (name : String) {b : Nat}
    (hb : b < r.info.bindings.size) :
    Early names (frame.insert name b) r := by
  refine { h with frame := fun name' b' hfind => ?_ }
  rw [Table.find?_insert] at hfind
  split at hfind
  next =>
    cases hfind
    exact hb
  next => exact h.frame name' b' hfind

/-- A name that is declared. -/
lemma Early.define (h : Early names frame r) {i : Ident} {b : Nat} (hi : i.mark.id ∈ names)
    (hb : b < r.info.bindings.size) :
    Early names frame
      { r with info := { r.info with defs := r.info.defs.insert i.mark.id b } } := by
  refine { h with defs := fun k b' hfind => ?_ }
  have hfind' : (r.info.defs.insert i.mark.id b).find? k = some b' := hfind
  rw [Table.find?_insert] at hfind'
  split at hfind'
  next heq =>
    cases hfind'
    exact ⟨heq ▸ hi, hb⟩
  next => exact h.defs k b' hfind'

/-! ## Imports -/

lemma bounds_predeclared :
    ∀ e ∈ Library.predeclaredFrame.entries, e.2 < Library.predeclared.length := by decide

lemma kind_predeclared : ∀ x ∈ Library.predeclared, x.kind ≠ .var := by decide

lemma early_initial (name : String) (f : File) : Early [] {} (initial name f) := by
  refine ⟨Nat.le_refl _, fun b hb => ?_, nofun, nofun, nofun, fun _ => rfl,
    fun _ => rfl, nofun, rfl⟩
  have hlt : b < Library.predeclared.length := hb
  have hbinding : (initial name f).info.binding b = Library.predeclared[b] := by
    rw [Info.binding, initial]
    simp [hlt]
  rw [hbinding]
  exact kind_predeclared _ (getElem_mem hlt)

lemma kind_packages : ∀ p ∈ Library.packages.entries, ∀ e ∈ p.2, e.kind ≠ .var := by decide

lemma findIn_mem {κ α : Type} [DecidableEq κ] {k : κ} {v : α} {es : List (κ × α)}
    (h : Table.findIn k es = some v) :
    (k, v) ∈ es := by
  induction es with
  | nil => cases h
  | cons e es ih =>
    rw [Table.findIn] at h
    split at h
    next heq =>
      cases h
      exact heq ▸ mem_cons_self
    next => exact mem_cons_of_mem _ (ih h)

lemma lt_of_predeclared {name : String} {b : Nat}
    (h : Library.predeclaredFrame.find? name = some b) :
    b < Library.predeclared.length := bounds_predeclared _ (findIn_mem h)

/-- No member of a known package is a variable. -/
lemma kind_members (path : String) :
    ∀ e ∈ (Library.packages.find? path).getD [], e.kind ≠ .var := by
  intro e he
  cases hfind : Library.packages.find? path with
  | none =>
    rw [hfind] at he
    cases he
  | some es =>
    rw [hfind] at he
    exact kind_packages _ (findIn_mem hfind) e he

/-- The members of a package get bindings of their own. -/
lemma early_bindMembers (path : String) (es : List Library.Entry)
    (hes : ∀ e ∈ es, e.kind ≠ .var) {members : Frame}
    (h : Early names frame r) (hmembers : Early names members r) :
    Early names frame ((bindMembers path es members).run r).2 ∧
      Early names ((bindMembers path es members).run r).1
        ((bindMembers path es members).run r).2 := by
  induction es generalizing members r with
  | nil => exact ⟨h, hmembers⟩
  | cons e es ih =>
    have hkind := hes e mem_cons_self
    refine ih (fun e he => hes e (mem_cons_of_mem _ he)) (h.push hkind)
      ((hmembers.push hkind).insert _ ?_)
    simp

lemma Early.load (h : Early names frame r) {members : Frame} (hmembers : Early names members r)
    (path : String) :
    Early names frame { r with members := r.members.insert path members } := by
  refine { h with member := fun path' name b hb => ?_ }
  have hfind : ((r.members.insert path members).find? path').bind (·.find? name) = some b := hb
  rw [Table.find?_insert] at hfind
  split at hfind
  next => exact hmembers.frame name b hfind
  next => exact h.member path' name b hfind

lemma early_loadMembers (path : String) (h : Early names frame r) :
    Early names frame ((loadMembers path).run r).2 := by
  have hold : Early names ((r.members.find? path).getD {}) r := by
    refine { h with frame := fun name b hb => ?_ }
    cases hfind : r.members.find? path with
    | none =>
      rw [hfind] at hb
      cases hb
    | some members =>
      rw [hfind] at hb
      exact h.member path name b (by rw [hfind]; exact hb)
  obtain ⟨hframe, hmembers⟩ := early_bindMembers path _ (kind_members path) h hold
  have hloaded := hframe.load hmembers path
  rw [loadMembers]
  split
  · exact { hloaded with }
  · exact hloaded

lemma early_importPackages (specs : List Import) (h : Early names frame r) {p : Frame × Resolver}
    (hp : (importPackages specs frame).run r = p) : Early names p.1 p.2 := by
  induction specs generalizing frame r with
  | nil =>
    subst hp
    exact h
  | cons spec specs ih =>
    rw [importPackages, importPackage_eq, run_bind] at hp
    refine ih ?_ hp
    have hbound : Early names (frame.insert (baseName spec.path) r.info.bindings.size)
        ((Resolve.bind (packageBinding spec)).run r).2 := by
      refine (h.push (x := packageBinding spec) (fun h => by cases h)).insert _ ?_
      simp
    exact early_loadMembers spec.path hbound

lemma records_importPackages (specs : List Import) (frame : Frame) :
    Records [] (importPackages specs frame) := by
  induction specs generalizing frame with
  | nil => exact (silent_pure frame).records
  | cons spec specs ih =>
    rw [importPackages, importPackage_eq]
    exact ((records_bind _).bind fun _ => (records_loadMembers _).bind fun _ =>
      (silent_pure _).records).bind ih

/-! ## Names of types and functions -/

lemma Early.mono {names' : List Nat} (h : Early names frame r) (hsub : ∀ k ∈ names, k ∈ names') :
    Early names' frame r :=
  { h with defs := fun k b hb => ⟨hsub k (h.defs k b hb).1, (h.defs k b hb).2⟩ }

/-- A declaration that is to be completed. -/
lemma Early.pend (h : Early names frame r) {d : Pending} (hd : d.binding < r.info.bindings.size) :
    Early names frame { r with pending := r.pending ++ [d] } := by
  refine { h with pending := fun d' hd' => ?_ }
  rcases mem_append.mp hd' with hd' | hd'
  · exact h.pending d' hd'
  · obtain rfl := mem_singleton.mp hd'
    exact hd

lemma early_declareType {name : Ident} (h : Early names frame r) (hname : name.mark.id ∈ names)
    (type : Node) (isAlias : Bool) :
    Early names (frame.insert name.name ((declareType name type isAlias).run r).1)
      ((declareType name type isAlias).run r).2 := by
  have hsize : ∀ x : Binding, r.info.bindings.size < (r.info.bindings.push x).size := by simp
  have hdeclared : ∀ x : Binding, x.kind = .type →
    Early names (frame.insert name.name r.info.bindings.size)
      { r with
        info := { r.info with
          bindings := r.info.bindings.push x
          defs := r.info.defs.insert name.mark.id r.info.bindings.size }
        pending := r.pending ++ [⟨r.info.bindings.size, type, isAlias⟩] } := by
    intro x hx
    exact (((h.push (x := x) (by rw [hx]; nofun)).define hname (hsize x)).insert name.name
      (hsize x)).pend (hsize x)
  cases isAlias with
  | true => exact hdeclared _ rfl
  | false => exact { hdeclared _ rfl with }

lemma early_declareFunc {name : Ident} (h : Early names frame r) (hname : name.mark.id ∈ names) :
    Early names (frame.insert name.name ((declareFunc name).run r).1)
      ((declareFunc name).run r).2 := by
  have hsize : ∀ x : Binding, r.info.bindings.size < (r.info.bindings.push x).size := by simp
  exact ((h.push (x := ⟨name.name, .func, _, _, _⟩) nofun).define hname (hsize _)).insert
    name.name (hsize _)

/-- **The names of types and functions** are declared, each with a binding of its own. -/
lemma early_declareAll (ds : List Node) (h : Early names frame r)
    (hnames : ∀ i, .ident i ∈ ds.flatMap nameNodes → i.mark.id ∈ names)
    {p : (List Signed × Frame) × Resolver} (hp : (declareAll ds frame).run r = p) :
    Early names p.1.2 p.2 ∧ r.info.bindings.size ≤ p.2.info.bindings.size ∧
      ∀ f ∈ p.1.1, f.binding < p.2.info.bindings.size := by
  induction ds generalizing frame r p with
  | nil =>
    subst hp
    exact ⟨h, Nat.le_refl _, nofun⟩
  | cons d ds ih =>
    have hrest : ∀ i, .ident i ∈ ds.flatMap nameNodes → i.mark.id ∈ names := fun i hi =>
      hnames i (flatMap_cons ▸ mem_append_right _ hi)
    cases d with
    | typeDecl m name type isAlias =>
      rw [declareAll_typeDecl, run_bind] at hp
      obtain ⟨hearly, hsize, hfuncs⟩ :=
        ih (early_declareType h (hnames name mem_cons_self) type isAlias) hrest hp
      rw [(declares_type name type isAlias).size] at hsize
      exact ⟨hearly, Nat.le_of_succ_le hsize, hfuncs⟩
    | funcDecl m name type body =>
      rw [declareAll_funcDecl, run_bind] at hp
      obtain ⟨hearly, hsize, hfuncs⟩ :=
        ih (early_declareFunc h (hnames name mem_cons_self)) hrest rfl
      rw [(declares_func name).size] at hsize
      subst hp
      refine ⟨hearly, Nat.le_of_succ_le hsize, fun f hf => ?_⟩
      rcases mem_cons.mp hf with rfl | hf
      · exact hsize
      · exact hfuncs f hf
    | _ => exact ih h hrest hp

/-! ## The states of a run -/

section Run

variable (name : String) (f : File)

/-- When the names of types and functions are declared: the functions, the frame of the package, and
the state. -/
def declared : (List Signed × Frame) × Resolver :=
  let p := (importPackages f.imports {}).run (initial name f)
  (declareAll f.decls p.1).run p.2

/-- The scope of the package without its variables. -/
def packageScope : Scope := [(declared name f).1.2, Library.predeclaredFrame]

/-- How types are completed. -/
def completer : Nat → Resolve Ty :=
  completeWithin (packageScope name f) (declared name f).2.pending.length

/-- When all types are complete. -/
def completed : Resolver :=
  ((completeAll (completer name f) ((declared name f).2.pending.map Pending.binding)).run
    (declared name f).2).2

/-- When all functions have their types: the functions, and the state. -/
def signed : List Signed × Resolver :=
  (signAll (completer name f) (packageScope name f) (declared name f).1.1).run (completed name f)

/-- When the variables of the package are declared: its scope, and the state. -/
def varied : Scope × Resolver :=
  (declareVars (completer name f) f.decls (packageScope name f)).run (signed name f).2

/-- When all bodies are resolved. -/
def resolved : Resolver :=
  ((resolveBodies (completer name f) (varied name f).1 (signed name f).1).run (varied name f).2).2

/-- These are the states of the run. -/
lemma ofFile_eq_resolved : (Resolver.ofFile name f).info = (resolved name f).info ∧
    (Resolver.ofFile name f).stopped = (resolved name f).stopped := by
  rw [Resolver.ofFile, file]
  simp only [length_map]
  exact ⟨rfl, rfl⟩

lemma mem_ids_names {ds : List Node} {i : Ident} (hi : .ident i ∈ ds.flatMap nameNodes) :
    i.mark.id ∈ ids (ds.flatMap nameNodes) :=
  mem_map_of_mem (f := Node.id) (mem_preorderAll_of_mem hi)

lemma mem_ids_of_identifier {ns : List Node} {i : Ident} (hi : i ∈ identifiers ns) :
    i.mark.id ∈ ids ns := by
  obtain ⟨n, hn, hident⟩ := mem_filterMap.mp hi
  cases n with
  | ident j =>
    cases hident
    exact mem_map_of_mem (f := Node.id) hn
  | _ => cases hident

/-- Trees with distinct numbers have distinct identifiers. -/
lemma nodup_identifiers {ns : List Node} (h : (ids ns).Nodup) : (identifiers ns).Nodup := by
  refine h.of_map.filterMap fun n n' i hn hn' => ?_
  cases n <;> cases hn
  cases n' <;> cases hn'
  rfl

lemma early_declared :
    Early (ids (f.decls.flatMap nameNodes)) (declared name f).1.2 (declared name f).2 ∧
    ∀ g ∈ (declared name f).1.1, g.binding < (declared name f).2.info.bindings.size := by
  have himports := early_importPackages f.imports (early_initial name f) rfl
  obtain ⟨hearly, -, hfuncs⟩ :=
    early_declareAll f.decls (himports.mono nofun) (fun i => mem_ids_names) rfl
  exact ⟨hearly, hfuncs⟩

/-- What is to be completed at first. -/
lemma pending_declared : (declared name f).2.pending.map Pending.type = f.decls.flatMap typeNodes ∧
    ((declared name f).2.pending.map Pending.binding).Nodup ∧ (declared name f).2.active = [] := by
  have hcalm := (records_importPackages f.imports {}).calm (initial name f)
  obtain ⟨decls, hpending, htypes, -, hnodup⟩ := declareAll_pending f.decls
    ((importPackages f.imports {}).run (initial name f)).1
    ((importPackages f.imports {}).run (initial name f)).2
  rw [hcalm.pending] at hpending
  have hdecls : (declared name f).2.pending = decls := hpending
  rw [hdecls]
  exact ⟨htypes, hnodup, (declareAll_active f.decls _ _).trans hcalm.active⟩

/-- The identifiers in the types that are to be completed. -/
lemma declIdents_declared :
    declIdents (declared name f).2.pending = identifiers (f.decls.flatMap typeNodes) := by
  rw [declIdents, (pending_declared name f).1]

end Run

/-! ## Two readings -/

lemma declared_self {ρ : Relabeling} {knows : Nat → Prop} (hpending : r.pending = [])
    (hdefs : ∀ k, r.info.defs.find? k = none) : Declared ρ knows r r := by
  refine ⟨r.info.defs, ?_, fun k _ => by rw [hdefs, hdefs]⟩
  obtain ⟨file, package, info, typeNodes, recorded, members, pending, active, unresolved,
    nextDecl, nextSerial, log, stopped⟩ := r
  subst hpending
  rfl

namespace Reading

variable {R : Reading}

/-- Nothing is known about what waits. -/
lemma pends_early (hearly : Early names frame r) (hactive : r.active = [])
    (hknows : ∀ d ∈ r.pending, Known R.knows R.tree [d.type])
    (hnodup : R.change ≠ none → (declIdents r.pending).Nodup)
    (hoccurs : R.change ≠ none → ∀ i ∈ declIdents r.pending, R.occurs i)
    (hnames : R.change ≠ none → ∀ i ∈ declIdents r.pending, i.mark.id ∉ names) : R.Pends r := by
  have hwaiting : waiting r = r.pending := by
    rw [waiting, hactive]
    exact filter_eq_self.mpr fun _ _ => rfl
  refine ⟨hknows, hnodup, hwaiting.symm ▸ hoccurs, ?_, fun _ i _ => hearly.uses _⟩
  intro hc i hi
  rw [hwaiting] at hi
  refine Option.eq_none_iff_forall_not_mem.mpr fun b hb => ?_
  exact hnames hc i hi (hearly.defs _ b hb).1

/-- Readings that begin alike: what is made has the same number on both sides, as long as there is
room for it. -/
structure Begins (R : Reading) : Prop where
  serial : ∀ k, R.matching.serial k k
  decl : ∀ d d', R.matching.decl d d' ↔ d = d'
  binds : ∀ {b b'}, R.binds b b' → b = b'
  self : ∀ {b}, R.fits (b + 1) → R.binds b b
  stops : ∀ b, R.stops b b

variable (h : R.Sound) (hbegins : R.Begins)

include h hbegins

/-- What has been made belongs to itself. -/
lemma Begins.binds_self (hfits : R.fits r.info.bindings.size) {b : Nat}
    (hb : b < r.info.bindings.size) : R.binds b b :=
  hbegins.self (h.fits hfits hb)

/-- **Two readings of a unit agree** when all names are declared, if what changes its name comes
later. -/
lemma agree_early (hearly : Early names frame r) (hactive : r.active = []) (hpends : R.Pends r)
    (hdeclared : Declared R.labels R.knows r r') (hfits : R.fits r.info.bindings.size)
    (hlater : ∀ c ∈ R.change, r.info.bindings.size ≤ c.binding) : R.link.Agree r r' := by
  obtain ⟨defs, rfl, hdefs⟩ := hdeclared
  have hself : ∀ {b}, b < r.info.bindings.size → R.binds b b := hbegins.binds_self h hfits
  have hdecl : ∀ d, R.matching.decl d d := fun d => (hbegins.decl d d).mpr rfl
  have hother : ∀ {b}, b < r.info.bindings.size → ∀ c ∈ R.change, b ≠ c.binding := by
    intro b hb c hc heq
    have := hlater c hc
    omega
  exact {
    okay := hpends
    inv := by
      refine ⟨forall₂_map_right_iff.mpr
        (forall₂_same.mpr fun d hd => ⟨hself (hearly.pending d hd), rfl, rfl⟩), ?_⟩
      rw [hactive]
      exact .nil
    package := rfl
    made := fun hb => by rw [hbegins.binds hb]
    next := fun _ hk => hbegins.self hk
    serial := fun _ => hbegins.serial _
    underlying := by
      rintro d d' hd
      obtain rfl := (hbegins.decl d d').mp hd
      exact Ty.alike_selfOption hbegins.serial hdecl _
    binding := by
      intro b b' hb
      obtain rfl := hbegins.binds hb
      exact ⟨rfl, rfl, rfl, Ty.alike_self hbegins.serial hdecl _, fun _ => rfl⟩
    renamed := by
      intro b b' hb hmade
      obtain rfl := hbegins.binds hb
      refine (Link.spelling_eq ?_).symm
      rintro b ⟨⟩
      exact hother hmade
    member := fun path name => rel_eq rfl fun b hb =>
      ⟨hself (hearly.member path name b hb), hother (hearly.member path name b hb)⟩
    types := by
      intro k _
      rw [hearly.types, hearly.types]
      exact .none
    typeNodes := by
      intro k _
      simp [hearly.typeNodes]
    defs := fun {k} hk => rel_eq (hdefs k hk) fun b hb => hself (hearly.defs k b hb).2
    uses := by
      intro k _
      rw [hearly.uses, hearly.uses]
      exact .none
    named := by
      intro i b _ hb
      rw [Info.bindingOf?, hearly.uses] at hb
      split at hb
      next hfind =>
        cases hb
        exact Link.stands_of_kept (hother (hearly.defs _ _ hfind).2)
      next => cases hb
    denotes := by
      intro n _ hmem
      rw [hearly.typeNodes] at hmem
      cases hmem
    suits := by
      intro n t _ ht
      rw [hearly.types] at ht
      cases ht
    stopped := hbegins.stops _ }

omit h hbegins in
/-- Scopes of packages match, if what changes its name is not in them. -/
lemma scopes_package (hself : ∀ {b}, b < r.info.bindings.size → R.binds b b)
    (hearly : Early names frame r) (hlater : ∀ c ∈ R.change, r.info.bindings.size ≤ c.binding) :
    R.link.scopes false [frame, Library.predeclaredFrame] [frame, Library.predeclaredFrame] := by
  have hpredeclared : ∀ name b, Library.predeclaredFrame.find? name = some b →
    b < r.info.bindings.size := fun name b hb =>
    Nat.lt_of_lt_of_le (lt_of_predeclared hb) hearly.predeclared
  cases hchange : R.change with
  | none =>
    rw [scopes_of_none hchange]
    refine .cons (fun name => rel_eq rfl fun b hb => hself (hearly.frame name b hb))
      (.cons (fun name => ?_) .nil)
    exact rel_eq rfl fun b hb => hself (hpredeclared name b hb)
  | some c =>
    rw [scopes_of_change hchange]
    have hsize := hlater c hchange
    have hframe : ∀ name, frame.find? name ≠ some c.binding := fun name hb => by
      have := hearly.frame name _ hb
      omega
    refine .package ⟨fun _ _ _ => rfl, fun _ => rfl, fun hb => absurd hb (hframe _),
      fun _ hb => absurd hb (hframe _)⟩ ?_
    intro name hb
    have := hpredeclared name _ hb
    omega

/-! ## Two units -/

/-- What comes behind the names of types and functions, up to some of the bodies. -/
def behindNames (name : String) (f : File) (k : Nat) : Resolve (Scope × List Signed) :=
  upTo (completer name f) (packageScope name f) ((declared name f).2.pending.map Pending.binding)
    (declared name f).1.1
    f.decls k

/-- The identifiers in that, but for those in type declarations. -/
def identsBehind (name : String) (f : File) (k : Nat) : List Ident :=
  identifiers (heads (declared name f).1.1) ++
    (identifiers (f.decls.flatMap varNodes) ++ identifiers (bodies ((declared name f).1.1.take k)))

/-- Two units are read in step behind the names of types and functions, up to some of the bodies. -/
def InStep (R : Reading) (name : String) (f f' : File) (k : Nat) : Prop :=
  Sim R.link True (identsBehind name f k) (behindNames name f k) (behindNames name f' k) fun a a' =>
    R.link.scopes false a.1 a'.1 ∧
      Forall₂ (fun g g' => FramesMatch R.link g.frame g'.frame) a.2 a'.2

/-- Units that are read alike: their declarations differ in their labels, and perhaps in the bodies
of functions. -/
structure UnitRel (R : Reading) (f f' : File) : Prop where
  package : f'.package.name = f.package.name
  imports : f'.imports = f.imports.map (Import.relabel R.labels)
  decls : Forall₂ (DeclRel R.labels) f.decls f'.decls
  nodup : (ids f.decls).Nodup
  names : ∀ i, .ident i ∈ f.decls.flatMap nameNodes → R.labels.spell i = i.name ∧ R.knows i.mark.id
  types : R.link.Knows (f.decls.flatMap typeNodes)
  occurs : R.change ≠ none → ∀ i ∈ identifiers (f.decls.flatMap typeNodes), R.occurs i

namespace UnitRel

omit h hbegins

variable {f f' : File} (hunit : R.UnitRel f f') (name : String)

include hunit

include h in
lemma declared_rel :
    Forall₂ (fun g g' => g'.binding = g.binding ∧ g'.type = g.type.relabel R.labels)
      (declared name f).1.1 (declared name f').1.1 ∧
      (declared name f').1.2 = (declared name f).1.2 ∧
    Declared R.labels R.knows (declared name f).2 (declared name f').2 := by
  have hinitial : initial name f' = initial name f := by rw [initial, initial, hunit.package]
  have hearly := early_importPackages f.imports (early_initial name f) rfl
  have hcalm := (records_importPackages f.imports {}).calm (initial name f)
  have hsecond : declared name f' = (declareAll f'.decls
      ((importPackages f.imports {}).run (initial name f)).1).run
      ((importPackages f.imports {}).run (initial name f)).2 := by
    rw [declared, hunit.imports, importPackages_relabel, hinitial]
  refine declareAll_relabel h.apart hunit.decls hunit.names _
    (declared_self hcalm.pending fun k => ?_) rfl hsecond.symm
  exact Option.eq_none_iff_forall_not_mem.mpr fun b hb => nomatch (hearly.defs k b hb).1

lemma pends_declared : R.Pends (declared name f).2 := by
  have hparts := nodup_partIds hunit.nodup
  have htypes : (ids (f.decls.flatMap typeNodes)).Nodup := hparts.of_append_right.of_append_left
  refine pends_early (early_declared name f).1 (pending_declared name f).2.2 ?_ ?_ ?_ ?_
  · intro d hd
    have hmem : d.type ∈ f.decls.flatMap typeNodes :=
      (pending_declared name f).1 ▸ mem_map_of_mem hd
    obtain ⟨before, behind, hsplit⟩ := append_of_mem hmem
    have hknows := hunit.types
    rw [hsplit] at hknows
    exact hknows.right.head
  · intro _
    rw [declIdents_declared]
    exact nodup_identifiers htypes
  · intro hc
    rw [declIdents_declared]
    exact hunit.occurs hc
  · intro _ i hi hmem
    rw [declIdents_declared] at hi
    exact disjoint_of_nodup_append hparts hmem (mem_append_left _ (mem_ids_of_identifier hi))

include h hbegins

/-- What changes its name, and how many bindings there may be, is right for the names of types and
functions. -/
def Starts (R : Reading) (r : Resolver) : Prop :=
  R.fits r.info.bindings.size ∧ ∀ c ∈ R.change, r.info.bindings.size ≤ c.binding

variable (hstarts : Starts R (declared name f).2)

include hstarts

/-- **The two runs agree** when the names of types and functions are declared. -/
lemma agree_declared : R.link.Agree (declared name f).2 (declared name f').2 :=
  agree_early h hbegins (early_declared name f).1 (pending_declared name f).2.2
    (hunit.pends_declared name)
    (hunit.declared_rel h name).2.2 hstarts.1 hstarts.2

lemma scopes_declared : R.link.scopes false (packageScope name f) (packageScope name f') := by
  rw [packageScope, packageScope, (hunit.declared_rel h name).2.1]
  exact scopes_package (hbegins.binds_self h hstarts.1) (early_declared name f).1 hstarts.2

lemma completes_declared (hone : R.matching.OneToOne) :
    R.link.Completes ⟨completer name f, completer name f'⟩ := by
  have hlength := (hunit.agree_declared h hbegins name hstarts).inv.1.length_eq
  rw [completer, completer, ← hlength]
  exact h.completes hone (hunit.scopes_declared h hbegins name hstarts) _

lemma heads_declared : Forall₂ (HeadRel R.link) (declared name f).1.1 (declared name f').1.1 := by
  have hmade := (early_declared name f).2
  have hrel := (hunit.declared_rel h name).1
  generalize (declared name f).1.1 = fs, (declared name f').1.1 = fs' at hmade hrel
  induction hrel with
  | nil => exact .nil
  | @cons g g' fs fs' hg _ ih =>
    refine .cons ⟨?_, hg.2⟩ (ih fun g hmem => hmade g (mem_cons_of_mem _ hmem))
    rw [hg.1]
    exact hbegins.binds_self h hstarts.1 (hmade g mem_cons_self)

/-- **From there on the two runs go in step**, as far as bodies differ in their labels only. -/
lemma sim_run (hone : R.matching.OneToOne) (k : Nat)
    (hbodies : ((declared name f').1.1.take k).map Signed.body =
      (((declared name f).1.1.take k).map Signed.body).map (relabelBody R.labels))
    (hkheads : R.link.Knows (heads (declared name f).1.1))
    (hkvars : R.link.Knows (f.decls.flatMap varNodes))
    (hkbodies : R.link.Knows (bodies ((declared name f).1.1.take k))) : R.InStep name f f' k := by
  have hpending := (hunit.agree_declared h hbegins name hstarts).inv.1
  have hbindings : Forall₂ R.binds ((declared name f).2.pending.map Pending.binding)
      ((declared name f').2.pending.map Pending.binding) := by
    rw [forall₂_map_left_iff, forall₂_map_right_iff]
    exact hpending.imp fun _ _ hd => hd.binding
  have := h.lawful
  exact sim_upTo (hunit.completes_declared h hbegins name hstarts hone) loose hbindings
    (hunit.heads_declared h hbegins name hstarts) hunit.decls k hbodies hkheads hkvars hkbodies
    fun _ => hunit.scopes_declared h hbegins name hstarts

end UnitRel

end Reading

end Recast.Lockstep
