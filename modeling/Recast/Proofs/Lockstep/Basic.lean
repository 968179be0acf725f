import Recast.Proofs.Names.Reading
import Recast.Proofs.Syntax.Denoting
import Recast.Proofs.Types.Alike

/-!
# Two runs in step

Two runs of the resolver on trees of one form, which may differ in the numbers of nodes and in the
spelling of identifiers, go in step if they start in states that agree.  How the two sides
correspond is fixed beforehand by a `Link`: which bindings and which declarations belong together,
about which nodes both sides know the same, and when two scopes match.

**A change of name.**  A link may change the name of one binding.  Which identifiers the change
concerns shows at the end of a run only: those that have the binding then.  So what two runs do
together is shown for runs whose end is as foretold (`Link.Foretold`), and a stretch of a run has to
leave alone what came true before it (`Link.Moves`).

**Declarations elsewhere.**  To resolve an expression may complete type declarations that are
written elsewhere.  The identifiers in them are the `busy` ones of a state.

**Spelling.**  What denotes a type, and the type of a literal, may have to keep its spelling
(`Node.Suits`).  The nodes of which this is asked are those in the `tree` of a link.  A name behind
a dot never stands for the binding that changes its name (`Link.Stands`).

* `Sim` — two computations go in step.
* `Sim.bind` — one after the other.
* `Sim.foretell` — what the end of a computation says about the spelling of an identifier.
-/

namespace Recast.Lockstep

open List
open Ty (Alike Matching Matches)

/-! ## Nodes that are read -/

/-- The parts of a node, but for a name behind a dot. -/
def operands : Node → List Node
  | .select _ base _ => [base]
  | n => n.children

/-- An identifier stands behind a dot in some tree. -/
def Selected (tree : Node → Prop) (i : Ident) : Prop := ∃ m base, tree (.select m base i)

/-- A node is read: what is recorded about it is known, no other node of the tree has its number,
and its operands do not stand behind a dot. -/
structure Read (knows : Nat → Prop) (tree : Node → Prop) (n : Node) : Prop where
  knows : knows n.id
  only : ∀ {n'}, tree n' → n'.id = n.id → n' = n
  own : ∀ {i}, .ident i ∈ operands n → ¬Selected tree i

/-- All nodes of some trees are read, none of which stands behind a dot. -/
structure Known (knows : Nat → Prop) (tree : Node → Prop) (ns : List Node) : Prop where
  reads : ∀ n ∈ preorderAll ns, Read knows tree n
  own : ∀ {i}, .ident i ∈ ns → ¬Selected tree i

lemma mem_preorderAll_operands {n c : Node} (h : c ∈ preorderAll (operands n)) :
    c ∈ preorderAll n.children := by
  cases n with
  | select m base name => exact preorderAll_append [base] [.ident name] ▸ mem_append_left _ h
  | _ => exact h

namespace Known

variable {knows : Nat → Prop} {tree : Node → Prop} {n : Node} {ns ms : List Node} {i : Ident}

lemma self (h : Known knows tree (n :: ns)) : Read knows tree n :=
  h.reads n (mem_preorderAll_of_mem mem_cons_self)

lemma ids (h : Known knows tree ns) : ∀ n ∈ preorderAll ns, knows n.id :=
  fun n hn => (h.reads n hn).knows

lemma left (h : Known knows tree (ns ++ ms)) : Known knows tree ns where
  reads n hn := h.reads n (preorderAll_append ns ms ▸ mem_append_left _ hn)
  own hi := h.own (mem_append_left _ hi)

lemma right (h : Known knows tree (ns ++ ms)) : Known knows tree ms where
  reads n hn := h.reads n (preorderAll_append ns ms ▸ mem_append_right _ hn)
  own hi := h.own (mem_append_right _ hi)

lemma head (h : Known knows tree (n :: ns)) : Known knows tree [n] := @left _ _ [n] ns h

lemma tail (h : Known knows tree (n :: ns)) : Known knows tree ns := @right _ _ [n] ns h

lemma operands (h : Known knows tree (n :: ns)) : Known knows tree (operands n) where
  reads c hc := by
    refine h.reads c ?_
    rw [preorderAll, preorderAll_append]
    exact mem_cons_of_mem _ (mem_append_left _ (mem_preorderAll_operands hc))
  own := h.self.own

/-- The name behind a dot. -/
lemma selected {m : Mark} {base : Node} (h : Known knows tree (.select m base i :: ns)) :
    Read knows tree (.ident i) :=
  h.reads _ (mem_preorderAll_of_child (mem_preorderAll_of_mem mem_cons_self)
    (mem_cons_of_mem _ mem_cons_self))

/-- Where there is no tree, what is known is read. -/
lemma of_ids (htree : tree = fun _ => False) (h : ∀ n ∈ preorderAll ns, knows n.id) :
    Known knows tree ns := by
  subst htree
  have hnone : ∀ i, ¬Selected (fun _ => False) i := fun _ ⟨_, _, hi⟩ => hi
  exact ⟨fun n hn => ⟨h n hn, False.elim, fun _ => hnone _⟩, fun _ => hnone _⟩

end Known

/-! ## Links -/

/-- One binding changes its name. -/
structure Change where
  binding : Nat
  old : String
  new : String

/-- How two runs correspond.  What belongs to the second one is marked. -/
structure Link where
  matching : Matching
  /-- The bindings that belong together. -/
  binds : Nat → Nat → Prop
  /-- The numbers of the nodes about which both sides know the same. -/
  knows : Nat → Prop
  /-- The scopes that match; `true` for those with a frame of their own inside that of the unit. -/
  scopes : Bool → Scope → Scope → Prop
  /-- How many bindings the first side may make. -/
  fits : Nat → Prop
  /-- Whether the sides may have stopped. -/
  stops : Bool → Bool → Prop
  inv : Resolver → Resolver → Prop
  okay : Resolver → Prop
  change : Option Change
  /-- How the second tree is labeled. -/
  labels : Relabeling
  /-- The identifiers of the unit, if there is a change. -/
  occurs : Ident → Prop
  /-- The nodes whose spelling counts. -/
  tree : Node → Prop
  busy : Resolver → List Ident

namespace Link

variable (L : Link)

/-- How a name is spelled where it stands for a binding or for none. -/
def spelling (name : String) (b? : Option Nat) : String :=
  match L.change with
  | some c => if b? = some c.binding ∧ name = c.old then c.new else name
  | none => name

/-- An identifier is spelled in the way its binding asks for. -/
structure Right (i : Ident) (b? : Option Nat) : Prop where
  spell : L.labels.spell i = L.spelling i.name b?
  fresh : ∀ c ∈ L.change, i.name ≠ c.new

/-- A binding that changes its name stands under the old one. -/
def Named (name : String) (b : Nat) : Prop := ∀ c ∈ L.change, b = c.binding → name = c.old

/-- An identifier that stands for a binding that changes its name has the old one, and is not behind
a dot. -/
def Stands (i : Ident) (b : Nat) : Prop :=
  ∀ c ∈ L.change, b = c.binding → i.name = c.old ∧ ¬Selected L.tree i

/-! ## States that agree -/

/-- Bindings that belong together.  Only variables may differ in their names, and only where there
is a change of name. -/
structure BindingRel (x x' : Binding) : Prop where
  kind : x'.kind = x.kind
  package : x'.package = x.package
  loc : x'.loc = x.loc
  type : Alike L.matching x.type x'.type
  name : x.kind ≠ .var ∨ L.change = none → x'.name = x.name

/-- Members of packages that belong together; their names do not change. -/
def MemberRel (b b' : Nat) : Prop := L.binds b b' ∧ ∀ c ∈ L.change, b ≠ c.binding

/-- Two states agree. -/
structure Agree (r r' : Resolver) : Prop where
  okay : L.okay r
  inv : L.inv r r'
  package : r'.package = r.package
  /-- Of bindings that belong together both have been made, or none. -/
  made : ∀ {b b'}, L.binds b b' → (b < r.info.bindings.size ↔ b' < r'.info.bindings.size)
  /-- Bindings made from now on belong together in their order. -/
  next : ∀ k, L.fits (r.info.bindings.size + k + 1) →
      L.binds (r.info.bindings.size + k) (r'.info.bindings.size + k)
  serial : ∀ k, L.matching.serial (r.nextSerial + k) (r'.nextSerial + k)
  underlying : Matches L.matching r.info.underlying r'.info.underlying
  binding : ∀ {b b'}, L.binds b b' → L.BindingRel (r.info.binding b) (r'.info.binding b')
  renamed : ∀ {b b'}, L.binds b b' → b < r.info.bindings.size →
    (r'.info.binding b').name = L.spelling (r.info.binding b).name (some b)
  member : ∀ path name, Option.Rel L.MemberRel ((r.members.find? path).bind (·.find? name))
    ((r'.members.find? path).bind (·.find? name))
  types : ∀ {k}, L.knows k →
    Option.Rel (Alike L.matching) (r.info.types.find? k) (r'.info.types.find? (L.labels.number k))
  typeNodes : ∀ {k}, L.knows k → r'.typeNodes.contains (L.labels.number k) = r.typeNodes.contains k
  defs : ∀ {k}, L.knows k →
    Option.Rel L.binds (r.info.defs.find? k) (r'.info.defs.find? (L.labels.number k))
  uses : ∀ {k}, L.knows k →
    Option.Rel L.binds (r.info.uses.find? k) (r'.info.uses.find? (L.labels.number k))
  named : ∀ {i b}, L.occurs i → r.info.bindingOf? i = some b → L.Stands i b
  denotes : ∀ {n}, L.tree n → r.typeNodes.contains n.id = true → n.Denotes L.labels
  suits : ∀ {n t}, L.tree n → r.info.types.find? n.id = some t → n.Suits L.labels t
  stopped : L.stops r.stopped.isSome r'.stopped.isSome

/-! ## What a stretch of a run leaves alone -/

/-- The numbers of identifiers. -/
def numbers (T : List Ident) : List Nat := T.map fun i => i.mark.id

/-- A stretch of a run that records something about some identifiers, and about busy ones. -/
structure Moved (T : List Ident) (r r' : Resolver) : Prop where
  okay : L.okay r'
  busy : ∀ i ∈ L.busy r', i ∈ L.busy r
  defs : L.change ≠ none → ∀ k, k ∉ numbers T → k ∉ numbers (L.busy r) →
    r'.info.defs.find? k = r.info.defs.find? k
  uses : L.change ≠ none → ∀ k, k ∉ numbers T → k ∉ numbers (L.busy r) →
    r'.info.uses.find? k = r.info.uses.find? k
  size : r.info.bindings.size ≤ r'.info.bindings.size
  name : ∀ b < r.info.bindings.size, (r'.info.binding b).name = (r.info.binding b).name
  kind : ∀ b < r.info.bindings.size, (r'.info.binding b).kind = (r.info.binding b).kind

/-- A stretch of a run on identifiers that are not busy. -/
def Moves (T : List Ident) (r r' : Resolver) : Prop :=
  L.okay r → (∀ i ∈ T, i.mark.id ∉ numbers (L.busy r)) → L.Moved T r r'

/-- Nothing is known about some identifiers yet, and what comes later concerns others. -/
structure Fresh (later T : List Ident) (r : Resolver) : Prop where
  occurs : ∀ i ∈ T, L.occurs i
  occurs_later : ∀ i ∈ later, L.occurs i
  nodup : T.Nodup
  disjoint : ∀ i ∈ T, i ∉ later
  free : ∀ i ∈ T, i ∉ L.busy r
  free_later : ∀ i ∈ later, i ∉ L.busy r
  defs : ∀ i ∈ T, r.info.defs.find? i.mark.id = none
  uses : ∀ i ∈ T, r.info.uses.find? i.mark.id = none

/-- Ready for a computation on some identifiers, as far as a change of name makes it matter. -/
def Ready (later T : List Ident) (r : Resolver) : Prop := L.change ≠ none → L.Fresh later T r

/-- **As foretold**: all identifiers are spelled as their bindings ask for, but for those that have
their turn later, the binding that changes its name is a variable and has the old one, and there are
not too many bindings. -/
structure Foretold (later : List Ident) (r : Resolver) : Prop where
  right : L.change ≠ none → ∀ i, L.occurs i → i ∉ later → i ∉ L.busy r →
    L.Right i (r.info.bindingOf? i)
  named : ∀ c ∈ L.change, c.binding < r.info.bindings.size → (r.info.binding c.binding).name = c.old
  var : ∀ c ∈ L.change, c.binding < r.info.bindings.size → (r.info.binding c.binding).kind = .var
  fits : L.fits r.info.bindings.size

/-- The single steps that record something. -/
inductive Update (r : Resolver) : List Ident → Resolver → Prop where
  | typed {m : Mark} (t : Ty) : L.knows m.id →
      Update r [] { r with
        info := { r.info with types := r.info.types.insert m.id t }
        recorded := m.id :: r.recorded }
  | typeNode {m : Mark} : L.knows m.id → Update r [] { r with typeNodes := m.id :: r.typeNodes }
  | push (x : Binding) :
      Update r [] { r with info := { r.info with bindings := r.info.bindings.push x } }
  | define {i : Ident} (b : Nat) : L.knows i.mark.id →
      Update r [i] { r with info := { r.info with defs := r.info.defs.insert i.mark.id b } }
  | refer {i : Ident} (b : Nat) : L.knows i.mark.id →
      Update r [i] { r with info := { r.info with uses := r.info.uses.insert i.mark.id b } }
  | quiet (n k : Nat) (log : Log) (stopped : Option Stop) :
      Update r [] { r with unresolved := n, nextSerial := k, log := log, stopped := stopped }

/-- Both sides know the same about a node. -/
abbrev Reads (n : Node) : Prop := Read L.knows L.tree n

/-- Both sides know the same about all nodes of some trees. -/
abbrev Knows (ns : List Node) : Prop := Known L.knows L.tree ns

/-- An identifier that does not stand behind a dot. -/
structure Names (i : Ident) : Prop where
  reads : L.Reads (.ident i)
  own : ¬Selected L.tree i

/-- A number under which any type may be recorded. -/
structure Free (k : Nat) : Prop where
  knows : L.knows k
  suits : ∀ {n}, L.tree n → n.id = k → ∀ t, n.Suits L.labels t

/-- The declarations that have to be completed are the same, and so are those under way. -/
def SamePending (r r' : Resolver) : Prop := r'.pending = r.pending ∧ r'.active = r.active

end Link

/-- **Two computations go in step** under a condition: they lead from states that agree to states
that agree, provided that the first one ends as foretold, and give what belongs together. -/
structure Sim {α α' : Type} (L : Link) (p : Prop) (T : List Ident) (x : Resolve α) (x' : Resolve α')
    (post : α → α' → Prop) : Prop where
  moves : ∀ r, L.Moves T r (x.run r).2
  run : p → ∀ later r r', L.Ready later T r → L.Agree r r' → L.Foretold later (x.run r).2 →
    L.Agree (x.run r).2 (x'.run r').2 ∧ post (x.run r).1 (x'.run r').1

/-- What a link has to obey. -/
class Link.Lawful (L : Link) : Prop where
  apart : ∀ {k l}, L.knows k → L.knows l → L.labels.number k = L.labels.number l → k = l
  plain : L.change = none → L.labels.spell = Ident.name
  idle : L.change = none → ∀ r, L.busy r = []
  blank : ∀ c ∈ L.change, c.old ≠ "_" ∧ c.new ≠ "_"
  distinct : L.change ≠ none → ∀ {i j}, L.occurs i → L.occurs j → i.mark.id = j.mark.id → i = j
  occurs_busy : L.change ≠ none → ∀ {r i}, L.okay r → i ∈ L.busy r → L.occurs i
  child : ∀ {n c}, L.tree n → c ∈ n.children → L.tree c
  one : ∀ {b b' c c'}, L.binds b b' → L.binds c c' → (b = c ↔ b' = c')
  nested : ∀ {inner s s'}, L.scopes inner s s' → L.scopes true s.nested s'.nested
  /-- A frame may be taken along into another scope. -/
  carry : ∀ {inner s s' t t'}, L.scopes true s s' → L.scopes inner t t' →
    L.scopes true (s.headD {} :: t) (s'.headD {} :: t')
  declare : ∀ {inner s s' i b b'}, L.scopes inner s s' → L.binds b b' →
    L.Right i (some b) → L.Named i.name b →
    L.scopes inner (s.declare i.name b) (s'.declare (L.labels.spell i) b')
  lookup : ∀ {inner s s' i}, L.scopes inner s s' → L.Right i (s.lookup i.name) →
    Option.Rel L.binds (s.lookup i.name) (s'.lookup (L.labels.spell i))
  here : ∀ {s s' i b}, L.scopes true s s' → s.lookupHere i.name = some b → L.Right i (some b) →
    ∃ b', s'.lookupHere (L.labels.spell i) = some b' ∧ L.binds b b'
  here_none : ∀ {s s' i b?}, L.scopes true s s' → s.lookupHere i.name = none → L.Right i b? →
    s'.lookupHere (L.labels.spell i) = none
  named : ∀ {inner s s' name b}, L.scopes inner s s' → s.lookup name = some b → L.Named name b
  fits : ∀ {m n}, L.fits n → m ≤ n → L.fits m
  stops : L.stops true true
  okay : ∀ {r r' T}, L.okay r → L.Update r T r' → (∀ i ∈ T, i.mark.id ∉ numbers (L.busy r)) →
    L.okay r' ∧ L.busy r' = L.busy r
  inv : ∀ {r r' r₁ r₁'}, L.inv r r' → SamePending r r₁ → SamePending r' r₁' → L.inv r₁ r₁'

/-- How the two sides complete declarations. -/
structure Completion where
  complete : Nat → Resolve Ty
  complete' : Nat → Resolve Ty

/-- Declarations are completed in step. -/
class Link.Completes (L : Link) (C : Completion) : Prop where
  moves : ∀ b r, L.Moves [] r ((C.complete b).run r).2
  sim : ∀ {b b'}, L.binds b b' → Sim L True [] (C.complete b) (C.complete' b') (Alike L.matching)

variable {α α' β β' : Type} {L : Link} {p q : Prop} {T U later : List Ident}
  {r r' r'' : Resolver} {i : Ident}
  {x : Resolve α} {x' : Resolve α'} {f : α → Resolve β} {f' : α' → Resolve β'}
  {post : α → α' → Prop} {post' : β → β' → Prop}

/-- A binding that has not been made. -/
lemma binding_of_size_le {info : Info} {b : Nat} (h : info.bindings.size ≤ b) :
    info.binding b = default := by
  rw [Info.binding, Array.getD_eq_getD_getElem?, Array.getElem?_eq_none h]
  rfl

lemma Read.free {n : Node} (h : Read L.knows L.tree n) (hn : n.isBare = true) : L.Free n.id := by
  refine ⟨h.knows, fun htree hid t => ?_⟩
  rw [h.only htree hid]
  exact Node.suits_of_isBare hn

lemma Known.name {ns : List Node} (h : Known L.knows L.tree (.ident i :: ns)) : L.Names i :=
  ⟨h.self, h.own mem_cons_self⟩

lemma Known.idents {is : List Ident} (h : Known L.knows L.tree (is.map .ident)) :
    ∀ i ∈ is, L.Names i := fun i hi =>
  ⟨h.reads (.ident i) (mem_preorderAll_of_mem (mem_map_of_mem hi)), h.own (mem_map_of_mem hi)⟩

namespace Link

lemma numbers_append (T U : List Ident) : numbers (T ++ U) = numbers T ++ numbers U := map_append

lemma mem_numbers_of_mem (h : i ∈ T) : i.mark.id ∈ numbers T := mem_map_of_mem h

lemma Names.stands {b : Nat} (h : L.Names i) (hb : L.Named i.name b) : L.Stands i b :=
  fun c hc heq => ⟨hb c hc heq, h.own⟩

lemma stands_of_kept {b : Nat} (h : ∀ c ∈ L.change, b ≠ c.binding) : L.Stands i b :=
  fun c hc heq => absurd heq (h c hc)

/-! ## Spelling -/

lemma spelling_of_change {c : Change} (h : L.change = some c) (name : String) (b? : Option Nat) :
    L.spelling name b? = if b? = some c.binding ∧ name = c.old then c.new else name := by
  rw [spelling, h]

lemma spelling_of_none (h : L.change = none) (name : String) (b? : Option Nat) :
    L.spelling name b? = name := by
  rw [spelling, h]

/-- A name that stands for nothing, or for a binding that keeps its name, is spelled as it was. -/
lemma spelling_eq {name : String} {b? : Option Nat} (h : ∀ b ∈ b?, ∀ c ∈ L.change, b ≠ c.binding) :
    L.spelling name b? = name := by
  cases hc : L.change with
  | none => exact spelling_of_none hc name b?
  | some c =>
    rw [spelling_of_change hc, if_neg]
    rintro ⟨rfl, -⟩
    exact h c.binding rfl c hc rfl

lemma Right.spell_of_none (h : L.Right i none) : L.labels.spell i = i.name := by
  rw [h.spell, spelling_eq]
  rintro b ⟨⟩

/-- What stands for a binding that keeps its name is spelled as it was. -/
lemma Right.spell_of_kept {b : Nat} (h : L.Right i (some b)) (hb : ∀ c ∈ L.change, b ≠ c.binding) :
    L.labels.spell i = i.name := by
  rw [h.spell, spelling_eq]
  rintro b ⟨⟩
  exact hb

/-- The blank identifier is spelled as it was, and no other one is spelled like it. -/
lemma Lawful.spell_eq_blank (hL : L.Lawful) {b? : Option Nat} (h : L.Right i b?) :
    L.labels.spell i = "_" ↔ i.name = "_" := by
  rw [h.spell]
  cases hc : L.change with
  | none => rw [spelling_of_none hc]
  | some c =>
    rw [spelling_of_change hc]
    split
    next hchange =>
      rw [hchange.2]
      exact ⟨fun hnew => absurd hnew (hL.blank c hc).2, fun hold => absurd hold (hL.blank c hc).1⟩
    next => rfl

/-- Without a change of name every identifier is right. -/
lemma Lawful.right_of_none (hL : L.Lawful) (h : L.change = none) (i : Ident) (b? : Option Nat) :
    L.Right i b? := by
  refine ⟨by rw [hL.plain h, spelling_of_none h], ?_⟩
  rintro c hc
  rw [h] at hc
  cases hc

/-- The blank identifier is right with whatever it stands for. -/
lemma Lawful.right_of_blank (hL : L.Lawful) {b? b?' : Option Nat}
    (h : L.Right i b?) (hi : i.name = "_") :
    L.Right i b?' := by
  refine ⟨?_, h.fresh⟩
  rw [(hL.spell_eq_blank h).mpr hi]
  cases hc : L.change with
  | none => rw [spelling_of_none hc, hi]
  | some c =>
    rw [spelling_of_change hc, if_neg, hi]
    exact fun hold => (hL.blank c hc).1 (hold.2.symm.trans hi)

lemma Lawful.number_eq (hL : L.Lawful) {k l : Nat} (hk : L.knows k) (hl : L.knows l) :
    L.labels.number k = L.labels.number l ↔ k = l := ⟨hL.apart hk hl, fun h => by rw [h]⟩

/-! ## Stretches of a run -/

lemma Moved.not_mem_busy (h : L.Moved T r r') {k : Nat} (hk : k ∉ numbers (L.busy r)) :
    k ∉ numbers (L.busy r') := by
  intro hmem
  obtain ⟨i, hi, rfl⟩ := mem_map.mp hmem
  exact hk (mem_numbers_of_mem (h.busy i hi))

lemma Moved.trans (h : L.Moved T r r') (h' : L.Moved U r' r'') : L.Moved (T ++ U) r r'' where
  okay := h'.okay
  busy i hi := h.busy i (h'.busy i hi)
  defs hc k hk hbusy := by
    rw [numbers_append, mem_append, not_or] at hk
    rw [h'.defs hc k hk.2 (h.not_mem_busy hbusy), h.defs hc k hk.1 hbusy]
  uses hc k hk hbusy := by
    rw [numbers_append, mem_append, not_or] at hk
    rw [h'.uses hc k hk.2 (h.not_mem_busy hbusy), h.uses hc k hk.1 hbusy]
  size := Nat.le_trans h.size h'.size
  name b hb := by rw [h'.name b (Nat.lt_of_lt_of_le hb h.size), h.name b hb]
  kind b hb := by rw [h'.kind b (Nat.lt_of_lt_of_le hb h.size), h.kind b hb]

lemma Moves.trans (h : L.Moves T r r') (h' : L.Moves U r' r'') : L.Moves (T ++ U) r r'' := by
  intro hokay hfree
  have hmoved := h hokay fun i hi => hfree i (mem_append_left _ hi)
  exact hmoved.trans
    (h' hmoved.okay fun i hi => hmoved.not_mem_busy (hfree i (mem_append_right _ hi)))

lemma Moves.mono (h : L.Moves T r r') (hsub : ∀ i ∈ T, i ∈ U) : L.Moves U r r' := by
  intro hokay hfree
  have hmoved := h hokay fun i hi => hfree i (hsub i hi)
  have hnumbers : ∀ k, k ∉ numbers U → k ∉ numbers T := by
    intro k hk hmem
    obtain ⟨i, hi, rfl⟩ := mem_map.mp hmem
    exact hk (mem_numbers_of_mem (hsub i hi))
  exact { hmoved with
    defs hc k hk := hmoved.defs hc k (hnumbers k hk)
    uses hc k hk := hmoved.uses hc k (hnumbers k hk) }

lemma moves_refl : L.Moves [] r r := fun hokay _ =>
  ⟨hokay, fun _ hi => hi, fun _ _ _ _ => rfl, fun _ _ _ _ => rfl, Nat.le_refl _,
    fun _ _ => rfl, fun _ _ => rfl⟩

lemma Update.samePending (h : L.Update r T r') : SamePending r r' := by
  cases h <;> exact ⟨rfl, rfl⟩

lemma Lawful.moves_update (hL : L.Lawful) (h : L.Update r T r') : L.Moves T r r' := by
  intro hokay hfree
  obtain ⟨hokay', hbusy⟩ := hL.okay hokay h hfree
  refine ⟨hokay', fun i hi => hbusy ▸ hi, ?_, ?_, ?_, ?_, ?_⟩
  · intro _ k hk _
    cases h with
    | @define i b =>
      refine (Table.find?_insert ..).trans (if_neg fun h => hk ?_)
      exact mem_singleton.mpr h.symm
    | _ => rfl
  · intro _ k hk _
    cases h with
    | @refer i b =>
      refine (Table.find?_insert ..).trans (if_neg fun h => hk ?_)
      exact mem_singleton.mpr h.symm
    | _ => rfl
  · cases h with
    | push x => simp
    | _ => exact Nat.le_refl _
  · intro b hb
    cases h with
    | push x =>
      exact congrArg Binding.name
        ((Lexical.binding_push r.info x b).trans (if_neg (Nat.ne_of_lt hb)))
    | _ => rfl
  · intro b hb
    cases h with
    | push x =>
      exact congrArg Binding.kind
        ((Lexical.binding_push r.info x b).trans (if_neg (Nat.ne_of_lt hb)))
    | _ => rfl

/-- Two stretches that record nothing about an identifier leave its binding as it is. -/
lemma Moved.bindingOf? (h : L.Moved T r r') (hc : L.change ≠ none) (hT : i.mark.id ∉ numbers T)
    (hbusy : i.mark.id ∉ numbers (L.busy r)) : r'.info.bindingOf? i = r.info.bindingOf? i := by
  rw [Info.bindingOf?, Info.bindingOf?, h.defs hc _ hT hbusy, h.uses hc _ hT hbusy]

lemma Lawful.not_mem_numbers (hL : L.Lawful) (hc : L.change ≠ none) (hi : L.occurs i)
    (hT : ∀ j ∈ T, L.occurs j) (h : i ∉ T) : i.mark.id ∉ numbers T := by
  intro hmem
  obtain ⟨j, hj, hid⟩ := mem_map.mp hmem
  rw [hL.distinct hc hi (hT j hj) hid.symm] at h
  exact h hj

lemma Lawful.not_mem_busy (hL : L.Lawful) (hc : L.change ≠ none)
    (hokay : L.okay r) (hi : L.occurs i) (h : i ∉ L.busy r) : i.mark.id ∉ numbers (L.busy r) :=
  hL.not_mem_numbers hc hi (fun _ hj => hL.occurs_busy hc hokay hj) h

lemma Lawful.free (hL : L.Lawful) (hokay : L.okay r) (h : L.Ready later T r) :
    ∀ i ∈ T, i.mark.id ∉ numbers (L.busy r) := by
  intro i hi
  by_cases hc : L.change = none
  · rw [hL.idle hc]
    exact not_mem_nil
  · exact hL.not_mem_busy hc hokay ((h hc).occurs i hi) ((h hc).free i hi)

/-- Two states that agree know bindings of an identifier that belong together. -/
lemma Agree.bindingOf? (h : L.Agree r r') (hi : L.knows i.mark.id) :
    Option.Rel L.binds (r.info.bindingOf? i) (r'.info.bindingOf? (i.relabel L.labels)) := by
  have hdefs := h.defs hi
  have huses := h.uses hi
  have hid : (i.relabel L.labels).mark.id = L.labels.number i.mark.id := rfl
  rw [Info.bindingOf?, Info.bindingOf?, hid]
  generalize r.info.defs.find? i.mark.id = d, r'.info.defs.find? (L.labels.number i.mark.id) =
    d' at hdefs
  cases hdefs with
  | some hb => exact .some hb
  | none => exact huses

/-! ## Before and behind a computation -/

lemma Ready.left (h : L.Ready later (T ++ U) r) : L.Ready (U ++ later) T r := by
  intro hc
  have hf := h hc
  refine ⟨fun i hi => hf.occurs i (mem_append_left _ hi), ?_, hf.nodup.of_append_left, ?_,
    fun i hi => hf.free i (mem_append_left _ hi), ?_, fun i hi => hf.defs i (mem_append_left _ hi),
    fun i hi => hf.uses i (mem_append_left _ hi)⟩
  · intro i hi
    rcases mem_append.mp hi with hi | hi
    · exact hf.occurs i (mem_append_right _ hi)
    · exact hf.occurs_later i hi
  · intro i hi hmem
    rcases mem_append.mp hmem with hmem | hmem
    · exact disjoint_of_nodup_append hf.nodup hi hmem
    · exact hf.disjoint i (mem_append_left _ hi) hmem
  · intro i hi
    rcases mem_append.mp hi with hi | hi
    · exact hf.free i (mem_append_right _ hi)
    · exact hf.free_later i hi

lemma Lawful.ready_right (hL : L.Lawful) (h : L.Ready later (T ++ U) r) (hokay : L.okay r)
    (hm : L.Moved T r r') :
    L.Ready later U r' := by
  intro hc
  have hf := h hc
  have hU : ∀ i ∈ U, i.mark.id ∉ numbers T ∧ i.mark.id ∉ numbers (L.busy r) := by
    intro i hi
    have hoccurs := hf.occurs i (mem_append_right _ hi)
    refine ⟨hL.not_mem_numbers hc hoccurs (fun j hj => hf.occurs j (mem_append_left _ hj)) ?_,
      hL.not_mem_busy hc hokay hoccurs (hf.free i (mem_append_right _ hi))⟩
    exact fun hmem => disjoint_of_nodup_append hf.nodup hmem hi
  refine ⟨fun i hi => hf.occurs i (mem_append_right _ hi), hf.occurs_later,
    hf.nodup.of_append_right, fun i hi => hf.disjoint i (mem_append_right _ hi), ?_, ?_, ?_, ?_⟩
  · exact fun i hi hbusy => hf.free i (mem_append_right _ hi) (hm.busy i hbusy)
  · exact fun i hi hbusy => hf.free_later i hi (hm.busy i hbusy)
  · exact fun i hi => by
      rw [hm.defs hc _ (hU i hi).1 (hU i hi).2, hf.defs i (mem_append_right _ hi)]
  · exact fun i hi => by
      rw [hm.uses hc _ (hU i hi).1 (hU i hi).2, hf.uses i (mem_append_right _ hi)]

/-- What is as foretold behind a stretch of a run was so before it, but for what that stretch is
about. -/
lemma Lawful.foretold_left (hL : L.Lawful) (h : L.Foretold later r'')
    (hready : L.Ready later (T ++ U) r)
    (hm : L.Moved T r r') (hm' : L.Moved U r' r'') : L.Foretold (U ++ later) r' := by
  refine ⟨?_, ?_, ?_, hL.fits h.fits hm'.size⟩
  · intro hc i hi hlater hbusy
    rw [mem_append, not_or] at hlater
    have hkept : r''.info.bindingOf? i = r'.info.bindingOf? i := by
      refine hm'.bindingOf? hc ?_ (hL.not_mem_busy hc hm.okay hi hbusy)
      exact hL.not_mem_numbers hc hi
        (fun j hj => (hready hc).occurs j (mem_append_right _ hj)) hlater.1
    rw [← hkept]
    exact h.right hc i hi hlater.2 fun hmem => hbusy (hm'.busy i hmem)
  · intro c hc hsize
    rw [← hm'.name _ hsize]
    exact h.named c hc (Nat.lt_of_lt_of_le hsize hm'.size)
  · intro c hc hsize
    rw [← hm'.kind _ hsize]
    exact h.var c hc (Nat.lt_of_lt_of_le hsize hm'.size)

/-- What changes its name is a variable. -/
lemma Foretold.kind (h : L.Foretold later r) {c : Change} (hc : c ∈ L.change) :
    (r.info.binding c.binding).kind = .var := by
  by_cases hsize : c.binding < r.info.bindings.size
  · exact h.var c hc hsize
  · rw [binding_of_size_le (Nat.le_of_not_lt hsize)]
    rfl

/-- What comes behind the turn of an identifier leaves its binding as it is. -/
lemma Lawful.bindingOf?_behind (hL : L.Lawful) (hc : L.change ≠ none)
    (hready : L.Ready later (T ++ U) r) (hokay : L.okay r)
    (hm : L.Moves T r r') (hm' : L.Moves U r' r'') (hi : i ∈ T) :
    r''.info.bindingOf? i = r'.info.bindingOf? i := by
  have hf := hready hc
  have hmoved := hm hokay (hL.free hokay hready.left)
  have hoccurs := hf.occurs i (mem_append_left _ hi)
  have hbusy : i ∉ L.busy r' := fun hmem => hf.free i (mem_append_left _ hi) (hmoved.busy i hmem)
  refine (hm' hmoved.okay (hL.free hmoved.okay (hL.ready_right hready hokay hmoved))).bindingOf? hc
    ?_
    (hL.not_mem_busy hc hmoved.okay hoccurs hbusy)
  refine hL.not_mem_numbers hc hoccurs (fun j hj => hf.occurs j (mem_append_right _ hj)) ?_
  exact fun hmem => disjoint_of_nodup_append hf.nodup hi hmem

/-- Before its turn an identifier has no binding. -/
lemma Ready.bindingOf? (hready : L.Ready later T r) (hc : L.change ≠ none) (hi : i ∈ T) :
    r.info.bindingOf? i = none := by
  rw [Info.bindingOf?, (hready hc).defs i hi, (hready hc).uses i hi]

/-- An identifier is right when its turn is over. -/
lemma Lawful.right (hL : L.Lawful) (hready : L.Ready later T r) (hi : i ∈ T) (hm : L.Moved T r r')
    (h : L.Foretold later r') : L.Right i (r'.info.bindingOf? i) := by
  by_cases hc : L.change = none
  · exact hL.right_of_none hc i _
  · have hf := hready hc
    exact h.right hc i (hf.occurs i hi) (hf.disjoint i hi) fun hmem => hf.free i hi (hm.busy i hmem)

end Link

/-! ## Rules -/

namespace Sim

/-- One computation after the other, where something is known about what each side gives by
itself. -/
lemma bind_of [hL : L.Lawful] (P : α → Prop) (P' : α' → Prop) (hx : Sim L p T x x' post)
    (hP : ∀ r, P (x.run r).1) (hP' : ∀ r, P' (x'.run r).1)
    (hf : ∀ a a', P a → P' a' → Sim L (p ∧ post a a') U (f a) (f' a') post') :
    Sim L p (T ++ U) (x >>= f) (x' >>= f') post' where
  moves r := (hx.moves r).trans ((hf _ _ (hP r) (hP' r)).moves _)
  run hp later r r' hready hagree hforetold := by
    have hrest := hf _ _ (hP r) (hP' r')
    have hmoved := hx.moves r hagree.okay (hL.free hagree.okay hready.left)
    have hright := hL.ready_right hready hagree.okay hmoved
    have hmoved' := hrest.moves _ hmoved.okay (hL.free hmoved.okay hright)
    obtain ⟨hagree', hpost⟩ := hx.run hp _ r r' hready.left hagree
      (hL.foretold_left hforetold hready hmoved hmoved')
    exact hrest.run ⟨hp, hpost⟩ later _ _ hright hagree' hforetold

/-- One computation after the other. -/
lemma bind [hL : L.Lawful] (hx : Sim L p T x x' post)
    (hf : ∀ a a', Sim L (p ∧ post a a') U (f a) (f' a') post') :
    Sim L p (T ++ U) (x >>= f) (x' >>= f') post' :=
  hx.bind_of (fun _ => True) (fun _ => True) (fun _ => trivial) (fun _ => trivial)
    fun a a' _ _ => hf a a'

/-- A computation on some identifiers after one on none. -/
lemma after [hL : L.Lawful] (hx : Sim L p [] x x' post)
    (hf : ∀ a a', Sim L (p ∧ post a a') T (f a) (f' a') post') :
    Sim L p T (x >>= f) (x' >>= f') post' := hx.bind hf

/-- A computation on no identifiers after one on some. -/
lemma close [hL : L.Lawful] (hx : Sim L p T x x' post)
    (hf : ∀ a a', Sim L (p ∧ post a a') [] (f a) (f' a') post') :
    Sim L p T (x >>= f) (x' >>= f') post' := by
  rw [← append_nil T]
  exact hx.bind hf

/-- What the second side does may be said in another way, given the condition. -/
lemma congr {y' : Resolve α'} (h : Sim L p T x x' post) (heq : p → y' = x') :
    Sim L p T x y' post := by
  refine ⟨h.moves, fun hp => ?_⟩
  rw [heq hp]
  exact h.run hp

/-- Something that the condition says there is may be named. -/
lemma choose {γ : Type} [Nonempty γ] {q : γ → Prop} (hq : p → ∃ c, q c)
    (h : ∀ c, Sim L (p ∧ q c) T x x' post) :
    Sim L p T x x' post := by
  refine ⟨(h Classical.ofNonempty).moves, fun hp => ?_⟩
  obtain ⟨c, hc⟩ := hq hp
  exact (h c).run ⟨hp, hc⟩

lemma imp (h : Sim L q T x x' post) (hpq : p → q) : Sim L p T x x' post :=
  ⟨h.moves, fun hp => h.run (hpq hp)⟩

lemma weaken {post₁ : α → α' → Prop} (h : Sim L p T x x' post)
    (hpost : p → ∀ a a', post a a' → post₁ a a') :
    Sim L p T x x' post₁ := by
  refine ⟨h.moves, fun hp later r r' hready hagree hforetold => ?_⟩
  obtain ⟨hagree', ha⟩ := h.run hp later r r' hready hagree hforetold
  exact ⟨hagree', hpost hp _ _ ha⟩

/-- What both sides agree on behind a computation tells something about what it gives. -/
lemma learn {know : α → Prop} (h : Sim L p T x x' post)
    (hknow : ∀ r r', L.Agree (x.run r).2 r' → know (x.run r).1) :
    Sim L p T x x' fun a a' => post a a' ∧ know a := by
  refine ⟨h.moves, fun hp later r r' hready hagree hforetold => ?_⟩
  obtain ⟨hagree', ha⟩ := h.run hp later r r' hready hagree hforetold
  exact ⟨hagree', ha, hknow r _ hagree'⟩

/-- The identifiers that a computation is about may come in another order, and there may be more of
them. -/
lemma mono (h : Sim L p T x x' post) (hcount : ∀ i, T.count i ≤ U.count i) :
    Sim L p U x x' post := by
  have hsub : ∀ i ∈ T, i ∈ U := by
    intro i hi
    exact count_pos_iff.mp (Nat.lt_of_lt_of_le (count_pos_iff.mpr hi) (hcount i))
  refine ⟨fun r => (h.moves r).mono hsub, fun hp later r r' hready hagree hforetold => ?_⟩
  refine h.run hp later r r' (fun hc => ?_) hagree hforetold
  have hf := hready hc
  exact ⟨fun i hi => hf.occurs i (hsub i hi), hf.occurs_later,
    nodup_iff_count.mpr fun i => Nat.le_trans (hcount i) (nodup_iff_count.mp hf.nodup i),
    fun i hi => hf.disjoint i (hsub i hi), fun i hi => hf.free i (hsub i hi), hf.free_later,
    fun i hi => hf.defs i (hsub i hi), fun i hi => hf.uses i (hsub i hi)⟩

/-- A condition that follows from how an identifier is spelled and which binding it has at the
end. -/
lemma foretell [hL : L.Lawful] (hi : i ∈ T)
    (hq : p → ∀ later r r', L.Ready later T r → L.Agree r r' →
      L.Right i ((x.run r).2.info.bindingOf? i) → q)
    (h : Sim L (p ∧ q) T x x' post) : Sim L p T x x' post := by
  refine ⟨h.moves, fun hp later r r' hready hagree hforetold => ?_⟩
  have hmoved := h.moves r hagree.okay (hL.free hagree.okay hready)
  exact h.run ⟨hp, hq hp later r r' hready hagree (hL.right hready hi hmoved hforetold)⟩ later r r'
    hready hagree hforetold

/-- Identifiers that a computation passes over get no binding and keep their spelling. -/
lemma spared [hL : L.Lawful] (is : List Ident)
    (h : Sim L (p ∧ ∀ i ∈ is, L.labels.spell i = i.name) T x x' post) :
    Sim L p (is ++ T) x x' post := by
  have hmoves : ∀ r, L.Moves (is ++ T) r (x.run r).2 :=
    fun r => (h.moves r).mono fun i => mem_append_right _
  refine ⟨hmoves, fun hp later r r' hready hagree hforetold => ?_⟩
  have hfree := hL.free hagree.okay hready
  have hspell : ∀ i ∈ is, L.labels.spell i = i.name := by
    intro i hi
    by_cases hc : L.change = none
    · rw [hL.plain hc]
    · have hright := hL.right hready (mem_append_left _ hi) (hmoves r hagree.okay hfree) hforetold
      rw [hL.bindingOf?_behind hc hready hagree.okay
        (Link.moves_refl.mono (by simp)) (h.moves r) hi,
        hready.bindingOf? hc (mem_append_left _ hi)] at hright
      exact hright.spell_of_none
  have hrest : L.Ready later T r := hL.ready_right hready hagree.okay
    (Link.moves_refl.mono (by simp) hagree.okay fun i hi => hfree i (mem_append_left _ hi))
  exact h.run ⟨hp, hspell⟩ later r r' hrest hagree hforetold

end Sim

/-- Computations that only look. -/
lemma sim_observe (hx : ∀ r, (x.run r).2 = r) (hx' : ∀ r, (x'.run r).2 = r)
    (h : p → ∀ r r', L.Agree r r' → post (x.run r).1 (x'.run r').1) : Sim L p [] x x' post := by
  refine ⟨fun r => by rw [hx]; exact Link.moves_refl,
    fun hp later r r' hready hagree hforetold => ?_⟩
  rw [hx, hx']
  exact ⟨hagree, h hp r r' hagree⟩

lemma sim_pure {a : α} {a' : α'} (h : p → post a a') : Sim L p [] (pure a) (pure a') post :=
  sim_observe (fun _ => rfl) (fun _ => rfl) fun hp _ _ _ => h hp

/-- A choice, where the first side knows why it was made. -/
lemma sim_ite_of {c c' : Prop} [Decidable c] [Decidable c'] {y : Resolve α}
    {y' : Resolve α'} (hc : p → (c ↔ c'))
    (hx : Sim L (p ∧ c) T x x' post) (hy : Sim L p T y y' post) :
    Sim L p T (if c then x else y) (if c' then x' else y') post := by
  refine ⟨fun r => ?_, fun hp later r r' hready hagree hforetold => ?_⟩
  · split
    · exact hx.moves r
    · exact hy.moves r
  · by_cases h : c
    · rw [if_pos h] at hforetold ⊢
      rw [if_pos ((hc hp).mp h)]
      exact hx.run ⟨hp, h⟩ later r r' hready hagree hforetold
    · rw [if_neg h] at hforetold ⊢
      rw [if_neg fun h' => h ((hc hp).mpr h')]
      exact hy.run hp later r r' hready hagree hforetold

lemma sim_ite {c c' : Prop} [Decidable c] [Decidable c'] {y : Resolve α}
    {y' : Resolve α'} (hc : p → (c ↔ c')) (hx : Sim L p T x x' post) (hy : Sim L p T y y' post) :
    Sim L p T (if c then x else y) (if c' then x' else y') post :=
  sim_ite_of hc (hx.imp fun hp => hp.1) hy

end Recast.Lockstep
