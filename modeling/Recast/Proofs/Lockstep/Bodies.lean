import Recast.Proofs.Lockstep.Framing
import Recast.Proofs.Syntax.Surroundings

/-!
# Another body for one function

Two units that differ in the body of one function are read alike up to that body.  The body itself
changes nothing outside itself, but it makes bindings, and the two bodies need not make equally
many.  From there on a binding of the first run belongs to the one that comes as far behind the body
in the second run.

* `Reading.first`, `Reading.last` — what belongs together up to the body, and behind it.
* `agree_resolved` — the two runs agree at the end about everything outside the body.
-/

namespace Recast.Lockstep

open List
open Lexical
open Resolve hiding bind
open Ty (Alike Matching Matches)

/-- Types are compared but for their serial numbers; declarations have the same numbers on both
sides. -/
def unserial : Matching := ⟨fun _ _ => True, Eq⟩

namespace Reading

variable {ρ : Relabeling} {knows : Nat → Prop} {limit n n' : Nat}

/-- Up to the body: at most so many bindings, with the same numbers. -/
def first (ρ : Relabeling) (knows : Nat → Prop) (limit : Nat) : Reading where
  matching := unserial
  labels := ρ
  knows := knows
  binds b b' := b = b' ∧ b < limit
  fits m := m ≤ limit

/-- Behind the body: the bindings from before it, and the new ones in their order. -/
def last (ρ : Relabeling) (knows : Nat → Prop) (limit n n' : Nat) : Reading where
  matching := unserial
  labels := ρ
  knows := knows
  binds b b' := (b = b' ∧ b < limit) ∨ ∃ j, b = n + j ∧ b' = n' + j
  stops _ _ := True

section Sound

variable (hapart : ∀ {k l}, knows k → knows l → ρ.number k = ρ.number l → k = l)
  (hplain : ρ.spell = Ident.name)

include hapart hplain

lemma sound_first : (first ρ knows limit).Sound where
  apart := hapart
  plain _ := hplain
  one hb hc := by rw [hb.1, hc.1]
  fits hm hle := Nat.le_trans hle hm
  stops := rfl
  kept hc := absurd rfl hc
  blank := nofun
  distinct hc := absurd rfl hc
  child := False.elim

lemma sound_last (hn : limit ≤ n) (hn' : limit ≤ n') : (last ρ knows limit n n').Sound where
  apart := hapart
  plain _ := hplain
  one {b b' c c'} hb hc := by
    rcases hb with ⟨rfl, hb⟩ | ⟨j, rfl, rfl⟩ <;> rcases hc with ⟨rfl, hc⟩ | ⟨i, rfl, rfl⟩
    · rfl
    · omega
    · omega
    · omega
  fits _ _ := trivial
  stops := trivial
  kept hc := absurd rfl hc
  blank := nofun
  distinct hc := absurd rfl hc
  child := False.elim

end Sound

lemma begins_first : (first ρ knows limit).Begins where
  serial _ := trivial
  decl _ _ := Iff.rfl
  binds hb := hb.1
  self hb := ⟨rfl, hb⟩
  stops _ := rfl

lemma oneToOne_unserial : unserial.OneToOne := by
  rintro d d' e e' rfl rfl
  rfl

/-- What belongs together up to the body belongs together behind it. -/
lemma frameBy_last {f f' : Frame} (h : FrameBy (first ρ knows limit).binds f f') :
    FrameBy (last ρ knows limit n n').binds f f' := by
  intro name
  have hname := h name
  generalize f.find? name = o, f'.find? name = o' at hname
  cases hname with
  | some hb => exact .some (Or.inl hb)
  | none => exact .none

lemma scopes_last {inner : Bool} {s s' : Scope} (h : (first ρ knows limit).link.scopes inner s s') :
    (last ρ knows limit n n').link.scopes inner s s' := by
  rw [scopes_of_none rfl] at h ⊢
  exact h.imp fun _ _ hf => frameBy_last hf

lemma framesMatch_last {f f' : Frame} (h : FramesMatch (first ρ knows limit).link f f') :
    FramesMatch (last ρ knows limit n n').link f f' := by
  have hframe : FrameBy (first ρ knows limit).binds f f' := by
    have hnil : (first ρ knows limit).link.scopes true [] [] := (scopes_of_none rfl).mpr .nil
    have hscopes := h hnil
    rw [scopes_of_none rfl] at hscopes
    exact (forall₂_cons.mp hscopes).1
  intro inner t t' ht
  rw [scopes_of_none rfl] at ht ⊢
  exact .cons (frameBy_last hframe) ht

end Reading

open Lockstep.Reading

section Agree

variable {ρ : Relabeling} {knows inside inside' : Nat → Prop} {r r' r₁ r₁' : Resolver}

lemma rel_mono {α β : Type} {A B : α → β → Prop} {o : Option α} {o' : Option β}
    (h : Option.Rel A o o') (hAB : ∀ {a b}, A a b → B a b) : Option.Rel B o o' := by
  cases h with
  | some ha => exact .some (hAB ha)
  | none => exact .none

/-- **Two runs that agree before the body agree behind it**, whatever the two bodies are. -/
lemma agree_framed (hagree : (first ρ knows r.info.bindings.size).link.Agree r r')
    (hr : Framed inside r r₁) (hr' : Framed inside' r' r₁') (hin : ∀ {k}, knows k → ¬inside k)
    (hin' : ∀ {k}, knows k → ¬inside' (ρ.number k)) :
    (last ρ knows r.info.bindings.size r₁.info.bindings.size r₁'.info.bindings.size).link.Agree
      r₁ r₁' := by
  have hmade : ∀ {b}, b < r.info.bindings.size → b < r'.info.bindings.size :=
    fun hb => (hagree.made ⟨rfl, hb⟩).mp hb
  exact {
    okay :=
      ⟨hr.pending ▸ nofun, fun hc => absurd rfl hc, fun hc => absurd rfl hc,
        fun hc => absurd rfl hc,
      fun hc => absurd rfl hc⟩
    inv := by
      refine ⟨?_, ?_⟩
      · rw [hr.pending, hr'.pending]
        exact .nil
      · rw [hr.active, hr'.active]
        exact hagree.inv.2.imp fun _ _ => Or.inl
    package := by rw [hr.package, hr'.package, hagree.package]
    made := by
      rintro b b' (⟨rfl, hb⟩ | ⟨j, rfl, rfl⟩)
      · exact iff_of_true (Nat.lt_of_lt_of_le hb hr.size) (Nat.lt_of_lt_of_le (hmade hb) hr'.size)
      · exact iff_of_false (by omega) (by omega)
    next := fun j _ => Or.inr ⟨j, rfl, rfl⟩
    serial := fun _ => trivial
    underlying := by
      rw [hr.underlying, hr'.underlying]
      exact hagree.underlying
    binding := by
      rintro b b' (⟨rfl, hb⟩ | ⟨j, rfl, rfl⟩)
      · rw [hr.binding b hb, hr'.binding b (hmade hb)]
        exact { hagree.binding ⟨rfl, hb⟩ with }
      · rw [binding_of_size_le (Nat.le_add_right _ _), binding_of_size_le (Nat.le_add_right _ _)]
        exact ⟨rfl, rfl, rfl, .invalid, fun _ => rfl⟩
    renamed := by
      rintro b b' (⟨rfl, hb⟩ | ⟨j, rfl, rfl⟩) hsize
      · rw [hr.binding b hb, hr'.binding b (hmade hb)]
        exact hagree.renamed ⟨rfl, hb⟩ hb
      · omega
    member := fun path name => by
      rw [hr.members, hr'.members]
      refine rel_mono (hagree.member path name) fun hb => ⟨Or.inl hb.1, ?_⟩
      nofun
    types := fun {k} hk => by
      have htypes : Option.Rel (Alike unserial) (r.info.types.find? k)
        (r'.info.types.find? (ρ.number k)) := hagree.types hk
      rw [← hr.types k (hin hk), ← hr'.types _ (hin' hk)] at htypes
      exact htypes
    typeNodes := fun hk => by
      rw [hr.typeNodes _ (hin hk)]
      exact (hr'.typeNodes _ (hin' hk)).trans (hagree.typeNodes hk)
    defs := fun {k} hk => by
      have hdefs : Option.Rel _ (r.info.defs.find? k) (r'.info.defs.find? (ρ.number k)) :=
        hagree.defs hk
      rw [← hr.defs k (hin hk), ← hr'.defs _ (hin' hk)] at hdefs
      exact rel_mono hdefs Or.inl
    uses := fun {k} hk => by
      have huses : Option.Rel _ (r.info.uses.find? k) (r'.info.uses.find? (ρ.number k)) :=
        hagree.uses hk
      rw [← hr.uses k (hin hk), ← hr'.uses _ (hin' hk)] at huses
      exact rel_mono huses Or.inl
    named := fun _ _ _ hc => nomatch hc
    denotes := False.elim
    suits := False.elim
    stopped := trivial }

end Agree

/-! ## Parts of declarations -/

/-- The body of a function declaration, as a node. -/
def blockNodes : Node → List Node := ofFunction fun _ body => body.toList.map .block

/-- The bodies of the functions among declarations. -/
def declBodies (ds : List Node) : List (Option Block) :=
  ds.flatMap (ofFunction fun _ body => [body])

lemma heads_declared (name : String) (f : File) :
    heads (declared name f).1.1 = f.decls.flatMap headNodes := by
  rw [heads, map_eq_flatMap]
  exact declareAll_functions (fun type _ => [Node.funcType type]) f.decls _ _

lemma bodies_declared (name : String) (f : File) :
    (declared name f).1.1.map Signed.body = declBodies f.decls := by
  rw [map_eq_flatMap]
  exact declareAll_functions (fun _ body => [body]) f.decls _ _

lemma blocks_declBodies (ds : List Node) :
    ((declBodies ds).flatMap fun body => body.toList.map Node.block) = ds.flatMap blockNodes := by
  rw [declBodies, flatMap_assoc]
  refine congrArg (flatMap · ds) (funext fun d => ?_)
  cases d with
  | funcDecl m name type body => exact flatMap_singleton ..
  | _ => rfl

lemma declBodies_relabel (ρ : Relabeling) (ds : List Node) :
    declBodies (ds.map (Node.relabel ρ)) = (declBodies ds).map (relabelBody ρ) := by
  rw [declBodies, declBodies, flatMap_map, map_flatMap]
  refine congrArg (flatMap · ds) (funext fun d => ?_)
  cases d <;> rfl

/-- What is picked out of a declaration: the declaration itself, or parts of it. -/
def Picks (part : Node → List Node) : Prop := ∀ d, ∀ n ∈ part d, n = d ∨ n ∈ operands d

lemma picks_name : Picks nameNodes := by
  intro d n hn
  cases d <;> simp_all [nameNodes, operands, Node.children]

lemma picks_type : Picks typeNodes := by
  intro d n hn
  cases d <;> simp_all [typeNodes, operands, Node.children]

lemma picks_head : Picks headNodes := by
  intro d n hn
  cases d <;> simp_all [headNodes, ofFunction, operands, Node.children]

lemma picks_var : Picks varNodes := by
  intro d n hn
  cases d <;> simp_all [varNodes]

lemma picks_block : Picks blockNodes := by
  intro d n hn
  cases d <;> simp_all [blockNodes, ofFunction, operands, Node.children]

lemma mem_preorderAll_iff {n : Node} {ns : List Node} :
    n ∈ preorderAll ns ↔ ∃ m ∈ ns, n ∈ preorderAll [m] := by
  induction ns with
  | nil => simp [preorderAll]
  | cons m ns ih =>
    rw [← singleton_append, preorderAll_append, mem_append, ih]
    simp

/-- The nodes of what is picked out of declarations are nodes of the declarations. -/
lemma Picks.mem_preorderAll {part : Node → List Node} (hpart : Picks part)
    {ds : List Node} {n : Node} (hn : n ∈ preorderAll (ds.flatMap part)) : n ∈ preorderAll ds := by
  obtain ⟨m, hm, hn⟩ := mem_preorderAll_iff.mp hn
  obtain ⟨d, hd, hm⟩ := mem_flatMap.mp hm
  refine mem_preorderAll_iff.mpr ⟨d, hd, ?_⟩
  rcases hpart d m hm with rfl | hchild
  · exact hn
  · rw [preorderAll, append_nil]
    exact mem_cons_of_mem _ (mem_preorderAll_operands (mem_preorderAll_iff.mpr ⟨m, hchild, hn⟩))

/-! ## Two units -/

/-- **Two units that differ in one body**: some declarations, a function, and some more
declarations.  All is known but for the body. -/
structure BodyChange (ρ : Relabeling) (knows inside inside' : Nat → Prop) (f f' : File) where
  front : List Node
  mark : Mark
  name : Ident
  type : FuncType
  body : Option Block
  body' : Option Block
  rear : List Node
  decls : f.decls = front ++ .funcDecl mark name type body :: rear
  decls' : f'.decls = front.map (Node.relabel ρ) ++
    .funcDecl (mark.relabel ρ) (name.relabel ρ) (type.relabel ρ) body' :: rear.map (Node.relabel ρ)
  package : f'.package.name = f.package.name
  imports : f'.imports = f.imports.map (Import.relabel ρ)
  nodup : (ids f.decls).Nodup
  nodup' : (ids f'.decls).Nodup
  plain : ρ.spell = Ident.name
  apart : ∀ {k l}, knows k → knows l → ρ.number k = ρ.number l → k = l
  around : ∀ n ∈ preorderAll (front ++ .ident name :: .funcType type :: rear), knows n.id
  within : ∀ n ∈ preorderAll (body.toList.map .block), inside n.id
  within' : ∀ n ∈ preorderAll (body'.toList.map .block), inside' n.id
  outside : ∀ {k}, knows k → ¬inside k
  outside' : ∀ {k}, knows k → ¬inside' (ρ.number k)

namespace BodyChange

variable {ρ : Relabeling} {knows inside inside' : Nat → Prop} {f f' : File}
  (h : BodyChange ρ knows inside inside' f f')

/-- What is picked is known, but for the body. -/
lemma knows_part {part : Node → List Node} (hpart : Picks part)
    (hfunc : ∀ n ∈ part (.funcDecl h.mark h.name h.type h.body), n = .ident h.name ∨
      n = .funcType h.type) :
    ∀ n ∈ preorderAll (f.decls.flatMap part), knows n.id := by
  intro n hn
  obtain ⟨m, hm, hn⟩ := mem_preorderAll_iff.mp hn
  obtain ⟨d, hd, hm⟩ := mem_flatMap.mp hm
  have hwhole : n ∈ preorderAll [d] :=
    hpart.mem_preorderAll
      (mem_preorderAll_iff.mpr ⟨m, mem_flatMap.mpr ⟨d, mem_singleton_self d, hm⟩, hn⟩)
  rw [h.decls, mem_append, mem_cons] at hd
  refine h.around n (mem_preorderAll_iff.mpr ?_)
  rcases hd with hd | rfl | hd
  · exact ⟨d, by simp [hd], hwhole⟩
  · refine ⟨m, ?_, hn⟩
    rcases hfunc m hm with rfl | rfl <;> simp
  · exact ⟨d, by simp [hd], hwhole⟩

include h

/-- Read alike up to the body, however many bindings are made. -/
lemma unitRel (limit : Nat) : (first ρ knows limit).UnitRel f f' where
  package := h.package
  imports := h.imports
  decls := by
    rw [h.decls, h.decls']
    refine rel_append (forall₂_map_right_iff.mpr (forall₂_same.mpr fun d _ => .same d))
      (.cons (.body ..) ?_)
    exact forall₂_map_right_iff.mpr (forall₂_same.mpr fun d _ => .same d)
  nodup := h.nodup
  names i hi := by
    refine ⟨congrFun h.plain i, h.knows_part picks_name ?_ (.ident i) (mem_preorderAll_of_mem hi)⟩
    intro n hn
    exact Or.inl (mem_singleton.mp hn)
  types := .of_ids rfl (h.knows_part picks_type nofun)
  occurs hc := absurd rfl hc

/-- How many functions come before the one whose body changes. -/
def place : Nat := (declBodies h.front).length

lemma declBodies_eq : declBodies f.decls = declBodies h.front ++ h.body :: declBodies h.rear := by
  rw [h.decls, declBodies, flatMap_append, flatMap_cons]
  rfl

lemma declBodies_eq' : declBodies f'.decls =
    (declBodies h.front).map (relabelBody ρ) ++ h.body' ::
      (declBodies h.rear).map (relabelBody ρ) := by
  rw [h.decls', ← declBodies_relabel, ← declBodies_relabel, declBodies,
    flatMap_append, flatMap_cons]
  rfl

variable (name : String)

/-- The bodies before the one that changes. -/
lemma take_bodies : ((declared name f).1.1.take h.place).map Signed.body = declBodies h.front := by
  rw [map_take, bodies_declared, h.declBodies_eq, place, take_left]

lemma take_bodies' :
    ((declared name f').1.1.take h.place).map Signed.body =
      (declBodies h.front).map (relabelBody ρ) := by
  rw [map_take, bodies_declared, h.declBodies_eq', place, take_left' (length_map _)]

/-- **Up to the body** the two runs go in step. -/
lemma inStep {limit : Nat} (hlimit : (declared name f).2.info.bindings.size ≤ limit) :
    (first ρ knows limit).InStep name f f' h.place := by
  have hheads := h.knows_part picks_head fun n hn => Or.inr (mem_singleton.mp hn)
  have hbodies : (first ρ knows limit).link.Knows
      (bodies ((declared name f).1.1.take h.place)) := by
    refine .of_ids rfl fun n hn => ?_
    rw [bodies_eq, h.take_bodies, blocks_declBodies] at hn
    exact h.around n (preorderAll_append .. ▸ mem_append_left _ (picks_block.mem_preorderAll hn))
  rw [← Lockstep.heads_declared name] at hheads
  exact (h.unitRel limit).sim_run (sound_first h.apart h.plain) begins_first name
    ⟨hlimit, nofun⟩ oneToOne_unserial h.place
    (by rw [h.take_bodies, h.take_bodies']; rfl) (.of_ids rfl hheads)
    (.of_ids rfl (h.knows_part picks_var nofun)) hbodies

/-- The run up to the body makes bindings and takes none back. -/
lemma size_declared_le :
    (declared name f).2.info.bindings.size ≤ (before name f h.place).info.bindings.size :=
  ((h.inStep name (Nat.le_refl _)).moves _ ((h.unitRel _).pends_declared name)
    fun _ _ => not_mem_nil).size

/-- What belongs together up to the body, where as many bindings are made as there are. -/
def upTo : Reading := first ρ knows (before name f h.place).info.bindings.size

/-- **Before the body** the two runs agree, and so do the scopes in which bodies are read. -/
lemma agree_before : (h.upTo name).link.Agree (before name f h.place) (before name f' h.place) ∧
    (h.upTo name).link.scopes false (varied name f).1 (varied name f').1 ∧
    Forall₂ (fun g g' => FramesMatch (h.upTo name).link g.frame g'.frame) (signed name f).1
      (signed name f').1 := by
  have hagree :=
    (h.unitRel (before name f h.place).info.bindings.size).agree_declared
      (sound_first h.apart h.plain) begins_first name
    ⟨h.size_declared_le name, nofun⟩
  exact (h.inStep name (h.size_declared_le name)).run trivial [] _ _
    (fun hc => absurd rfl hc) hagree
    ⟨fun hc => absurd rfl hc, nofun, nofun, Nat.le_refl _⟩

omit h in
lemma signed_bodies (f : File) : (signed name f).1.map Signed.body = declBodies f.decls :=
  (signAll_bodies _ _ _ _).trans (bodies_declared name f)

/-- The body that changes, on both sides. -/
lemma framed_before : Framed inside (before name f h.place) (before name f (h.place + 1)) ∧
    Framed inside' (before name f' h.place) (before name f' (h.place + 1)) := by
  have hbody : ((((signed name f).1.drop h.place).take 1).map Signed.body) = [h.body] := by
    rw [map_take, map_drop, signed_bodies, h.declBodies_eq, place, drop_left]
    rfl
  have hbody' : ((((signed name f').1.drop h.place).take 1).map Signed.body) = [h.body'] := by
    rw [map_take, map_drop, signed_bodies, h.declBodies_eq', place, drop_left' (length_map _)]
    rfl
  rw [before_succ, before_succ]
  refine ⟨framed_bodies ?_ (pending_before name f h.nodup _),
    framed_bodies ?_ (pending_before name f' h.nodup' _)⟩
  · rw [bodies_eq, hbody]
    simpa using h.within
  · rw [bodies_eq, hbody']
    simpa using h.within'

/-- The bodies behind the one that changes. -/
lemma drop_bodies : ((signed name f').1.drop (h.place + 1)).map Signed.body =
    (((signed name f).1.drop (h.place + 1)).map Signed.body).map (relabelBody ρ) := by
  rw [map_drop, map_drop, signed_bodies, signed_bodies, h.declBodies_eq, h.declBodies_eq', place]
  simp [drop_append]

lemma knows_rear :
    ∀ n ∈ preorderAll (bodies ((signed name f).1.drop (h.place + 1))), knows n.id := by
  have hbodies : ((signed name f).1.drop (h.place + 1)).map Signed.body = declBodies h.rear := by
    rw [map_drop, signed_bodies, h.declBodies_eq, place]
    simp [drop_append]
  intro n hn
  rw [bodies_eq, hbodies, blocks_declBodies] at hn
  refine h.around n ?_
  obtain ⟨m, hm, hn⟩ := mem_preorderAll_iff.mp (picks_block.mem_preorderAll hn)
  exact mem_preorderAll_iff.mpr ⟨m, by simp [hm], hn⟩

/-- What belongs together behind the body, when as many bindings have been made as there are. -/
def behind : Reading := last ρ knows (before name f h.place).info.bindings.size
  (before name f (h.place + 1)).info.bindings.size (before name f' (h.place + 1)).info.bindings.size

lemma sound_behind : (h.behind name).Sound := by
  obtain ⟨hagree, -, -⟩ := h.agree_before name
  obtain ⟨hframed, hframed'⟩ := h.framed_before name
  have hsize : (before name f h.place).info.bindings.size ≤
      (before name f' (h.place + 1)).info.bindings.size :=
    Nat.le_trans (Nat.le_of_not_lt fun hlt => Nat.lt_irrefl _ ((hagree.made ⟨rfl, hlt⟩).mp hlt))
      hframed'.size
  exact sound_last h.apart h.plain hframed.size hsize

lemma completes_behind : (h.behind name).link.Completes ⟨completer name f, completer name f'⟩ := by
  have hunit := h.unitRel (before name f h.place).info.bindings.size
  have hfirst : (h.upTo name).Sound := sound_first h.apart h.plain
  have hstarts : UnitRel.Starts (h.upTo name) (declared name f).2 :=
    ⟨h.size_declared_le name, nofun⟩
  have hlength := (hunit.agree_declared hfirst begins_first name hstarts).inv.1.length_eq
  rw [completer, completer, ← hlength]
  exact (h.sound_behind name).completes oneToOne_unserial
    (scopes_last (hunit.scopes_declared hfirst begins_first name hstarts)) _

/-- **The two runs agree at the end** about everything outside the body. -/
theorem agree_resolved : (h.behind name).link.Agree (resolved name f) (resolved name f') := by
  obtain ⟨hagree, hscopes, hframes⟩ := h.agree_before name
  obtain ⟨hframed, hframed'⟩ := h.framed_before name
  have hbehind := agree_framed hagree hframed hframed' h.outside h.outside'
  have := (h.sound_behind name).lawful
  rw [resolved_eq name f (h.place + 1), resolved_eq name f' (h.place + 1)]
  refine ((sim_resolveBodies (h.completes_behind name) (h.drop_bodies name) (fun _ => ?_)
    (.of_ids rfl (h.knows_rear name)) fun _ => scopes_last hscopes).run trivial [] _ _
    (fun hc => absurd rfl hc) hbehind
    ⟨fun hc => absurd rfl hc, nofun, nofun, trivial⟩).1
  exact forall₂_drop _ (hframes.imp fun _ _ => framesMatch_last)

end BodyChange

/-- **Surroundings filled with two bodies** are two units that differ in one body. -/
def bodyChange (S : Surroundings) (body body' : Option Block) :
    BodyChange (.renumber (S.shift body body')) (S.Outside body) (fun k => ¬S.Outside body k)
      (fun k => ¬S.Outside body' k) (S.fill body).numbered (S.fill body').numbered where
  front := S.numbered.before
  mark := S.numbered.declMark
  name := S.numbered.name
  type := S.numbered.type
  body := (numberBody body S.start).1
  body' := (numberBody body' S.start).1
  rear := (numberNodes S.after (S.start + bodySize body)).1
  decls := congrArg File.decls (S.numbered_fill body)
  decls' := by
    have hdecl := S.declNumber_lt_start
    have hmark := S.relabel_mark body body' (m := S.numbered.declMark) (Nat.lt_of_succ_lt hdecl)
    have hname : S.numbered.name.relabel (.renumber (S.shift body body')) = S.numbered.name :=
      congrArg (Ident.mk · S.name.name)
        (S.relabel_mark body body' (m := S.numbered.name.mark) hdecl)
    rw [S.relabel_before, S.relabel_after, hmark, hname, S.relabel_type]
    exact congrArg File.decls (S.numbered_fill body')
  package := rfl
  imports := (S.relabel_imports body body').symm
  nodup := nodup_ids_decls _
  nodup' := nodup_ids_decls _
  plain := rfl
  apart := S.shift_inj body body'
  around n hn := by
    obtain ⟨m, hm, hn⟩ := mem_preorderAll_iff.mp hn
    rcases mem_append.mp hm with hm | hm
    · exact Or.inl (S.id_before (mem_preorderAll_iff.mpr ⟨m, hm, hn⟩))
    rcases mem_cons.mp hm with rfl | hm
    · obtain rfl : n = .ident S.numbered.name := by simpa [preorderAll, Node.children] using hn
      exact Or.inl S.declNumber_lt_start
    rcases mem_cons.mp hm with rfl | hm
    · exact Or.inl (S.id_type hn)
    · exact S.id_after body (mem_preorderAll_iff.mpr ⟨m, hm, hn⟩)
  within _ hn := S.id_body body hn
  within' _ hn := S.id_body body' hn
  outside hk hout := hout hk
  outside' hk hout := hout (S.outside_shift body body' hk)

end Recast.Lockstep
