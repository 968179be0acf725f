import Mathlib.Data.List.Range
import Recast.Proofs.Lockstep.Beginning

/-!
# The announcement of declarations

Before anything else is looked at, the names of types and functions are declared, each with a
binding of its own.  What is known then can be told without the steps that lead to it: bindings are
numbered in the order of the declarations, and so are the types that are no aliases (`announce`).

* `run_declareAll` — what declaring the names leads to.
* `opening` — the state in which all names are declared.
-/

namespace Recast.Table

open List

variable {α κ β : Type} [DecidableEq κ] {key : β → κ} {value : β → α} {t : Table κ α} {bs : List β}

/-- The table with something put into it for each element of a list. -/
def insertAll (key : β → κ) (value : β → α) (t : Table κ α) (bs : List β) : Table κ α :=
  bs.foldl (fun t b => t.insert (key b) (value b)) t

lemma find?_insertAll_of_not_mem {k : κ} (h : k ∉ bs.map key) :
    (insertAll key value t bs).find? k = t.find? k := by
  induction bs generalizing t with
  | nil => rfl
  | cons b bs ih =>
    rw [map_cons, mem_cons, not_or] at h
    exact (ih h.2).trans ((find?_insert ..).trans (if_neg (Ne.symm h.1)))

/-- If no key comes twice, every element is found. -/
lemma find?_insertAll_of_mem {b : β} (hnodup : (bs.map key).Nodup) (hb : b ∈ bs) :
    (insertAll key value t bs).find? (key b) = some (value b) := by
  induction bs generalizing t with
  | nil => cases hb
  | cons c bs ih =>
    obtain ⟨hnew, hrest⟩ := nodup_cons.mp hnodup
    rcases mem_cons.mp hb with rfl | hb
    · exact (find?_insertAll_of_not_mem hnew).trans ((find?_insert ..).trans (if_pos rfl))
    · exact ih hrest hb

end Recast.Table

namespace Recast.Demand

open List
open Resolve hiding bind
open Lexical

/-- The name of a type or a function that has been declared, with its binding.  A type is to be
completed. -/
structure Announced where
  name : Ident
  binding : Nat
  value : Binding
  pending : Option Pending

/-- **The names of types and functions**, with their bindings from number `b` on and new types from
number `n` on. -/
def announce (package : String) : (b n : Nat) → List Node → List Announced
  | _, _, [] => []
  | b, n, .typeDecl _ name type isAlias :: ds =>
    { name := name
      binding := b
      value :=
        { name := name.name, kind := .type
          type := if isAlias then .invalid else .named n name.name package
          loc := name.mark.loc, package := package }
      pending := some ⟨b, type, isAlias⟩ } :: announce package (b + 1)
        (if isAlias then n else n + 1) ds
  | b, n, .funcDecl _ name _ _ :: ds =>
    { name := name
      binding := b
      value := { name := name.name, kind := .func, loc := name.mark.loc, package := package }
      pending := none } :: announce package (b + 1) n ds
  | b, n, _ :: ds => announce package b n ds

variable {package : String} {b n : Nat} {ds : List Node} {a a' : Announced}
  {frame : Frame} {r : Resolver}

/-! ## What is announced -/

/-- A declaration announces one name or none. -/
lemma announce_cons (package : String) (b n : Nat) (d : Node) (ds : List Node) :
    announce package b n (d :: ds) = announce package b n ds ∨
    ∃ a k, announce package b n (d :: ds) = a :: announce package (b + 1) k ds ∧
    n ≤ k ∧ a.binding = b ∧
      ∀ e ∈ a.pending, e.binding = b := by
  cases d with
  | typeDecl m name type isAlias =>
    refine .inr ⟨_, _, rfl, ?_, rfl, fun e he => by cases he; rfl⟩
    split
    · exact Nat.le_refl n
    · exact Nat.le_succ n
  | funcDecl m name type body => exact .inr ⟨_, _, rfl, Nat.le_refl n, rfl, nofun⟩
  | _ => exact .inl rfl

lemma map_binding_announce : (announce package b n ds).map Announced.binding =
    range' b (announce package b n ds).length := by
  induction ds generalizing b n with
  | nil => rfl
  | cons d ds ih =>
    rcases announce_cons package b n d ds with heq | ⟨a, k, heq, -, rfl, -⟩
    · rw [heq, ih]
    · rw [heq, map_cons, ih, length_cons, range'_succ]

lemma nodup_binding_announce : ((announce package b n ds).map Announced.binding).Nodup := by
  rw [map_binding_announce]
  exact nodup_range'

lemma le_binding_announce (ha : a ∈ announce package b n ds) : b ≤ a.binding := by
  have hmem := mem_map_of_mem (f := Announced.binding) ha
  rw [map_binding_announce, mem_range'] at hmem
  omega

/-- What is announced with a binding is what the binding is. -/
lemma getElem?_announce (ha : a ∈ announce package b n ds) :
    ((announce package b n ds).map Announced.value)[a.binding - b]? = some a.value := by
  induction ds generalizing b n with
  | nil => cases ha
  | cons d ds ih =>
    rcases announce_cons package b n d ds with heq | ⟨c, k, heq, -, rfl, -⟩
    · rw [heq] at ha ⊢
      exact ih ha
    · rw [heq] at ha ⊢
      rcases mem_cons.mp ha with rfl | ha
      · rw [Nat.sub_self]
        rfl
      · have hle := le_binding_announce ha
        rw [show a.binding - c.binding = (a.binding - (c.binding + 1)) + 1 by omega]
        exact ih ha

/-- What is pending has the binding with which it is announced. -/
lemma binding_of_pending {e : Pending} (ha : a ∈ announce package b n ds)
    (he : a.pending = some e) : e.binding = a.binding := by
  induction ds generalizing b n with
  | nil => cases ha
  | cons d ds ih =>
    rcases announce_cons package b n d ds with heq | ⟨c, k, heq, -, hc, hpending⟩
    · exact ih (heq ▸ ha)
    · rcases mem_cons.mp (heq ▸ ha) with rfl | ha
      · exact (hpending e he).trans hc.symm
      · exact ih ha

/-- A type that is no alias has a number. -/
lemma named_of_pending {e : Pending} (ha : a ∈ announce package b n ds) (he : a.pending = some e)
    (halias : e.isAlias = false) :
    ∃ k, a.value.type = .named k a.name.name package := by
  induction ds generalizing b n with
  | nil => cases ha
  | cons d ds ih =>
    cases d with
    | typeDecl m name type isAlias =>
      rcases mem_cons.mp ha with rfl | ha
      · cases he
        exact ⟨n, if_neg (by simpa using halias)⟩
      · exact ih ha
    | funcDecl m name type body =>
      rcases mem_cons.mp ha with rfl | ha
      · cases he
      · exact ih ha
    | _ => exact ih ha

/-- **Every type declaration is announced.** -/
lemma exists_announced (package : String) (b n : Nat) {m : Mark} {name : Ident} {type : Node}
    {isAlias : Bool} (hd : .typeDecl m name type isAlias ∈ ds) :
    ∃ a ∈ announce package b n ds, a.name = name ∧ a.pending = some ⟨a.binding, type, isAlias⟩ ∧
      ∃ k, a.value.type = if isAlias then .invalid else .named k name.name package := by
  induction ds generalizing b n with
  | nil => cases hd
  | cons d ds ih =>
    rcases mem_cons.mp hd with rfl | hmem
    · exact ⟨_, mem_cons_self, rfl, rfl, n, rfl⟩
    · rcases announce_cons package b n d ds with heq | ⟨c, k, heq, -⟩
      · rw [heq]
        exact ih b n hmem
      · obtain ⟨a, ha, h⟩ := ih (b + 1) k hmem
        exact ⟨a, heq ▸ mem_cons_of_mem _ ha, h⟩

/-- The identifiers that are announced are those that types and functions are declared with. -/
lemma map_id_announce :
    (announce package b n ds).map (fun a => a.name.mark.id) = ids (ds.flatMap nameNodes) := by
  have hident : ∀ i : Ident, ids [.ident i] = [i.mark.id] := by
    intro i
    rw [ids_cons, ids_nil, Node.children, ids_nil]
    rfl
  induction ds generalizing b n with
  | nil => exact ids_nil.symm
  | cons d ds ih =>
    rw [flatMap_cons, ids_append]
    cases d with
    | typeDecl m name type isAlias =>
      rw [nameNodes, hident, announce, map_cons, ih]
      rfl
    | funcDecl m name type body =>
      rw [nameNodes, hident, announce, map_cons, ih]
      rfl
    | _ =>
      rw [nameNodes.eq_def, ids_nil]
      exact ih

/-! ## What it leads to -/

/-- Names are declared between two states, as they are announced, and nothing else is different. -/
structure Announces (as : List Announced) (frame : Frame) (r : Resolver)
    (p : (List Signed × Frame) × Resolver) :
    Prop where
  state : ∃ k, p.2 = { r with
    info := { r.info with
      bindings := r.info.bindings ++ (as.map Announced.value).toArray
      defs := Table.insertAll (fun a => a.name.mark.id) Announced.binding r.info.defs as }
    pending := r.pending ++ as.filterMap Announced.pending
    nextDecl := k }
  frame : p.1.2 = Table.insertAll (fun a => a.name.name) Announced.binding frame as
  functions : p.1.1.map Signed.binding = (as.filter fun a => a.pending.isNone).map Announced.binding

/-- One more name is declared before. -/
lemma Announces.cons {as : List Announced} {r' : Resolver}
    {p p' : (List Signed × Frame) × Resolver} {k : Nat}
    (h : Announces as (frame.insert a.name.name a.binding) r' p)
    (hr' : r' = { r with
      info := { r.info with
        bindings := r.info.bindings.push a.value
        defs := r.info.defs.insert a.name.mark.id a.binding }
      pending := r.pending ++ a.pending.toList
      nextDecl := k })
    (hstate : p'.2 = p.2) (hframe : p'.1.2 = p.1.2)
    (hfunctions : p'.1.1.map Signed.binding =
      (if a.pending.isNone then [a.binding] else []) ++ p.1.1.map Signed.binding) :
    Announces (a :: as) frame r p' := by
  obtain ⟨⟨k', hk'⟩, hframe', hfunctions'⟩ := h
  subst hr'
  refine ⟨⟨k', ?_⟩, hframe.trans hframe', ?_⟩
  · rw [hstate, hk']
    have hbindings : r.info.bindings.push a.value ++ (as.map Announced.value).toArray =
        r.info.bindings ++ ((a :: as).map Announced.value).toArray := by
      apply Array.ext'
      simp
    have hpending : r.pending ++ a.pending.toList ++ as.filterMap Announced.pending =
        r.pending ++ (a :: as).filterMap Announced.pending := by
      cases ha : a.pending with
      | none => simp [ha]
      | some e => simp [ha]
    dsimp only
    rw [hbindings, hpending]
    rfl
  · rw [hfunctions, hfunctions', filter_cons]
    split
    · rfl
    · rfl

/-- **Declaring the names of types and functions.** -/
lemma run_declareAll (ds : List Node) (frame : Frame) (r : Resolver) :
    Announces (announce r.package r.info.bindings.size r.nextDecl ds) frame r
      ((declareAll ds frame).run r) := by
  induction ds generalizing frame r with
  | nil => exact ⟨⟨r.nextDecl, by simp [announce, Table.insertAll]; rfl⟩, rfl, rfl⟩
  | cons d ds ih =>
    cases d with
    | typeDecl m name type isAlias =>
      have h :=
        ih (frame.insert name.name r.info.bindings.size) ((declareType name type isAlias).run r).2
      have hsize : ((declareType name type isAlias).run r).2.info.bindings.size =
          r.info.bindings.size + 1 :=
        (declares_type name type isAlias).size r
      rw [announce]
      rw [hsize] at h
      cases isAlias with
      | true => exact h.cons (k := r.nextDecl) rfl rfl rfl rfl
      | false => exact h.cons (k := r.nextDecl + 1) rfl rfl rfl rfl
    | funcDecl m name type body =>
      have h := ih (frame.insert name.name r.info.bindings.size) ((declareFunc name).run r).2
      have hsize : ((declareFunc name).run r).2.info.bindings.size = r.info.bindings.size + 1 :=
        (declares_func name).size r
      rw [announce]
      rw [hsize] at h
      exact h.cons (k := r.nextDecl) (by simp; rfl) rfl rfl rfl
    | _ => exact ih frame r

/-! ## The state in which all names are declared -/

lemma run_bindMembers (path : String) (es : List Library.Entry) (frame : Frame) (r : Resolver) :
    ∃ bindings, ((bindMembers path es frame).run r).2 =
      { r with info := { r.info with bindings := bindings } } := by
  induction es generalizing frame r with
  | nil => exact ⟨r.info.bindings, rfl⟩
  | cons e es ih => exact ih _ _

lemma run_loadMembers (path : String) (r : Resolver) :
    ∃ bindings members log, ((loadMembers path).run r).2 =
      { r with info := { r.info with bindings := bindings }, members := members, log := log } := by
  obtain ⟨bindings, hbindings⟩ :=
    run_bindMembers path ((Library.packages.find? path).getD []) ((r.members.find? path).getD {}) r
  rw [loadMembers, run_bind]
  show ∃ _ _ _, ((bindMembers path _ ((r.members.find? path).getD {}) >>= _).run r).2 = _
  rw [run_bind]
  generalize (bindMembers path ((Library.packages.find? path).getD [])
    ((r.members.find? path).getD {})).run r = p
    at hbindings ⊢
  obtain ⟨frame, r'⟩ := p
  subst hbindings
  split
  · exact ⟨bindings, _, _, rfl⟩
  · exact ⟨bindings, _, _, rfl⟩

/-- Imports make bindings and members, and leave nothing else but a note. -/
lemma run_importPackages (specs : List Import) (frame : Frame) (r : Resolver) :
    ∃ bindings members log, ((importPackages specs frame).run r).2 =
      { r with info := { r.info with bindings := bindings }, members := members, log := log } := by
  induction specs generalizing frame r with
  | nil => exact ⟨r.info.bindings, r.members, r.log, rfl⟩
  | cons spec specs ih =>
    obtain ⟨bindings, members, log, hloaded⟩ :=
      run_loadMembers spec.path ((Resolve.bind (packageBinding spec)).run r).2
    rw [importPackages, importPackage_eq, run_bind, run_bind, run_bind, hloaded]
    exact ih _ _

/-- A binding among those that come behind others. -/
lemma binding_append {info : Info} {xs : List Binding} {x : Binding} (hle : info.bindings.size ≤ b)
    (h : xs[b - info.bindings.size]? = some x) : b < (info.bindings ++ xs.toArray).size ∧
      { info with bindings := info.bindings ++ xs.toArray }.binding b = x := by
  have hsize : (info.bindings ++ xs.toArray).size = info.bindings.size + xs.length := by simp
  have hlt : b - info.bindings.size < xs.length := (List.getElem?_eq_some_iff.mp h).1
  refine ⟨by omega, ?_⟩
  rw [Info.binding, Array.getD_eq_getD_getElem?,
    Array.getElem?_append_right hle, getElem?_toArray, h]
  rfl

section Opening

variable (name : String) (f : File)

/-- The names of types and functions of a unit. -/
def announced : List Announced :=
  announce f.package.name ((importPackages f.imports {}).run (initial name f)).2.info.bindings.size
    Library.firstDecl f.decls

/-- **The state in which all names are declared**: nothing has been recorded, and everything that is
announced is so. -/
structure Opening (as : List Announced) (fs : List Signed) (r₀ : Resolver) : Prop where
  package : r₀.package = f.package.name
  active : r₀.active = []
  recorded : r₀.recorded = []
  underlying : r₀.info.underlying = Library.underlying
  pending : r₀.pending = as.filterMap Announced.pending
  defs : r₀.info.defs = Table.insertAll (fun a => a.name.mark.id) Announced.binding {} as
  binding : ∀ a ∈ as, a.binding < r₀.info.bindings.size ∧ r₀.info.binding a.binding = a.value
  functions : fs.map Signed.binding = (as.filter fun a => a.pending.isNone).map Announced.binding

lemma opening :
    Opening f (announced name f) (Lockstep.declared name f).1.1 (Lockstep.declared name f).2 := by
  obtain ⟨bindings, members, log, hstate⟩ := run_importPackages f.imports {} (initial name f)
  obtain ⟨⟨k, hk⟩, -, hfunctions⟩ :=
    run_declareAll f.decls ((importPackages f.imports {}).run (initial name f)).1
    ((importPackages f.imports {}).run (initial name f)).2
  have has : announce ((importPackages f.imports {}).run (initial name f)).2.package
      ((importPackages f.imports {}).run (initial name f)).2.info.bindings.size
      ((importPackages f.imports {}).run (initial name f)).2.nextDecl f.decls =
      announced name f := by
    rw [announced, hstate]
    rfl
  rw [has] at hk hfunctions
  rw [Lockstep.declared]
  generalize hp : (declareAll f.decls ((importPackages f.imports {}).run (initial name f)).1).run
    ((importPackages f.imports {}).run (initial name f)).2 = p at hk hfunctions ⊢
  exact {
    package := by rw [hk, hstate]; rfl
    active := by rw [hk, hstate]; rfl
    recorded := by rw [hk, hstate]; rfl
    underlying := by rw [hk, hstate]; rfl
    pending := by rw [hk, hstate]; rfl
    defs := by rw [hk, hstate]; rfl
    binding := by
      rw [hk]
      exact fun a ha => binding_append (le_binding_announce ha) (getElem?_announce ha)
    functions := hfunctions }

end Opening

end Recast.Demand
