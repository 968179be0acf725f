import Recast.Proofs.Lockstep.Basic

/-!
# Single steps in step

The single steps of the resolver, each taken on both sides of a link: recording a type, declaring a
name, looking up a name, a field or a member of a package.  A step that looks up or declares an
identifier tells how it has to be spelled on the other side.
-/

namespace Recast.Lockstep

open List hiding get
open Lexical
open Resolve hiding bind
open Ty (Alike Matching Matches)

attribute [local simp] expr identType valueTypes defineOrReuse packageOf?

variable {α α' : Type} {L : Link} {p : Prop} {T : List Ident} {r r' : Resolver} {m : Mark}
  {i : Ident} {b b' : Nat}
  {t t' : Ty} {inner : Bool} {s s' : Scope} {C : Completion} {x : Resolve α} {x' : Resolve α'}
  {post : α → α' → Prop} [hL : L.Lawful]

/-! ## Recording -/

/-- A single step on each side leads to states that agree, if it does so as far as they are looked
at. -/
lemma sim_update (hx : ∀ r, L.Update r T (x.run r).2) (hx' : ∀ r, Link.SamePending r (x'.run r).2)
    (h : p → ∀ later r r', L.Ready later T r → L.Agree r r' → L.Foretold later (x.run r).2 →
      L.okay (x.run r).2 → L.inv (x.run r).2 (x'.run r').2 →
      L.Agree (x.run r).2 (x'.run r').2 ∧ post (x.run r).1 (x'.run r').1) :
      Sim L p T x x' post := by
  refine ⟨fun r => hL.moves_update (hx r), fun hp later r r' hready hagree hforetold => ?_⟩
  exact h hp later r r' hready hagree hforetold
    (hL.okay hagree.okay (hx r) (hL.free hagree.okay hready)).1
    (hL.inv hagree.inv (hx r).samePending (hx' r'))

/-- What both sides record about one node. -/
lemma rel_insert {γ γ' : Type} {A : γ → γ' → Prop} {table : Table Nat γ}
    {table' : Table Nat γ'} {a : γ}
    {a' : γ'} {k l : Nat} (hk : L.knows k) (hl : L.knows l) (ha : A a a')
    (h : Option.Rel A (table.find? l) (table'.find? (L.labels.number l))) :
    Option.Rel A ((table.insert k a).find? l)
      ((table'.insert (L.labels.number k) a').find? (L.labels.number l)) := by
  rw [Table.find?_insert, Table.find?_insert]
  by_cases heq : k = l
  · rw [if_pos heq, if_pos (congrArg L.labels.number heq)]
    exact .some ha
  · rw [if_neg heq, if_neg (mt (hL.apart hk hl) heq)]
    exact h

/-- A type is recorded that suits the node. -/
lemma sim_record (hm : L.knows m.id) (hsuits : p → ∀ n, L.tree n → n.id = m.id → n.Suits L.labels t)
    (h : p → Alike L.matching t t') :
    Sim L p [] (typed m t) (typed (m.relabel L.labels) t') (Alike L.matching) := by
  refine sim_update (fun _ => .typed t hm) (fun _ => ⟨rfl, rfl⟩) ?_
  intro hp later r r' _ hagree _ hokay hinv
  refine ⟨{ hagree with okay := hokay, inv := hinv, types := ?_, suits := ?_ }, h hp⟩
  · exact fun hk => rel_insert hm hk (h hp) (hagree.types hk)
  · intro n u hn hu
    have hfind : (r.info.types.insert m.id t).find? n.id = some u := hu
    rw [Table.find?_insert] at hfind
    split at hfind
    next hid =>
      cases hfind
      exact hsuits hp n hn hid.symm
    next => exact hagree.suits hn hfind

lemma sim_typed (hm : L.Free m.id) (h : p → Alike L.matching t t') :
    Sim L p [] (typed m t) (typed (m.relabel L.labels) t') (Alike L.matching) :=
  sim_record hm.knows (fun _ _ hn hid => hm.suits hn hid t) h

lemma sim_denotesType (hm : L.knows m.id)
    (hdenotes : p → ∀ n, L.tree n → n.id = m.id → n.Denotes L.labels) :
    Sim L p [] (denotesType m) (denotesType (m.relabel L.labels)) fun _ _ => True := by
  refine sim_update (fun _ => .typeNode hm) (fun _ => ⟨rfl, rfl⟩) ?_
  intro hp later r r' _ hagree _ hokay hinv
  refine ⟨{ hagree with okay := hokay, inv := hinv, typeNodes := ?_, denotes := ?_ }, trivial⟩
  · intro k hk
    show (L.labels.number m.id :: r'.typeNodes).contains (L.labels.number k) =
      (m.id :: r.typeNodes).contains k
    rw [contains_cons, contains_cons, hagree.typeNodes hk]
    simp only [BEq.beq, hL.number_eq hk hm]
  · intro n hn hmem
    have hmem : (m.id :: r.typeNodes).contains n.id = true := hmem
    rw [contains_cons, Bool.or_eq_true, beq_iff_eq] at hmem
    exact hmem.elim (hdenotes hp n hn) (hagree.denotes hn)

/-- A new binding on both sides. -/
lemma Link.Agree.push {z z' : Binding} (hagree : L.Agree r r')
    (hfits : L.fits (r.info.bindings.size + 1))
    (hokay : L.okay ((Resolve.bind z).run r).2) (h : L.BindingRel z z')
    (hname : z'.name = L.spelling z.name (some r.info.bindings.size)) :
    L.Agree ((Resolve.bind z).run r).2 ((Resolve.bind z').run r').2 := by
  have hnew : L.binds r.info.bindings.size r'.info.bindings.size := hagree.next 0 hfits
  refine { hagree with
    okay := hokay, inv := hL.inv hagree.inv ⟨rfl, rfl⟩ ⟨rfl, rfl⟩, made := ?_, next :=
      ?_, binding := ?_, renamed := ?_ }
  · intro c c' hc
    show c < (r.info.bindings.push z).size ↔ c' < (r'.info.bindings.push z').size
    rw [Array.size_push, Array.size_push, Nat.lt_succ_iff_lt_or_eq,
      Nat.lt_succ_iff_lt_or_eq, hagree.made hc, hL.one hc hnew]
  · intro k
    have hnext := hagree.next (k + 1)
    show L.fits ((r.info.bindings.push z).size + k + 1) →
      L.binds ((r.info.bindings.push z).size + k)
      ((r'.info.bindings.push z').size + k)
    rw [Array.size_push, Array.size_push, Nat.add_assoc _ 1 k, Nat.add_comm 1 k,
      Nat.add_assoc _ 1 k, Nat.add_comm 1 k]
    exact hnext
  · intro c c' hc
    show L.BindingRel ({ r.info with bindings := r.info.bindings.push z }.binding c)
      ({ r'.info with bindings := r'.info.bindings.push z' }.binding c')
    rw [binding_push, binding_push]
    by_cases heq : c = r.info.bindings.size
    · rw [if_pos heq, if_pos ((hL.one hc hnew).mp heq)]
      exact h
    · rw [if_neg heq, if_neg fun heq' => heq ((hL.one hc hnew).mpr heq')]
      exact hagree.binding hc
  · intro c c' hc hsize
    show ({ r'.info with bindings := r'.info.bindings.push z' }.binding c').name =
      L.spelling ({ r.info with bindings := r.info.bindings.push z }.binding c).name (some c)
    rw [binding_push, binding_push]
    by_cases heq : c = r.info.bindings.size
    · rw [if_pos heq, if_pos ((hL.one hc hnew).mp heq), heq]
      exact hname
    · rw [if_neg heq, if_neg fun heq' => heq ((hL.one hc hnew).mpr heq')]
      have hlt : c < (r.info.bindings.push z).size := hsize
      rw [Array.size_push] at hlt
      exact hagree.renamed hc (by omega)

/-- What an identifier has recorded at the end of a step tells what it stands for. -/
lemma stands_of_insert {later : List Ident} (hready : L.Ready later [i] r) (hagree : L.Agree r r')
    (hstands : L.Stands i b) {r₁ : Resolver} (hother : ∀ j : Ident, j.mark.id ≠ i.mark.id →
      r₁.info.bindingOf? j = r.info.bindingOf? j) (hself : r₁.info.bindingOf? i = some b)
        {j : Ident} {c : Nat}
    (hj : L.occurs j) (hc : r₁.info.bindingOf? j = some c) : L.Stands j c := by
  by_cases hchange : L.change = none
  · intro d hd
    rw [hchange] at hd
    cases hd
  · by_cases hid : j.mark.id = i.mark.id
    · have hsame := hL.distinct hchange hj ((hready hchange).occurs i mem_cons_self) hid
      subst hsame
      rw [hself] at hc
      cases hc
      exact hstands
    · rw [hother j hid] at hc
      exact hagree.named hj hc

lemma bindingOf?_insert_defs (info : Info) (i j : Ident) (b : Nat) :
    { info with defs := info.defs.insert i.mark.id b }.bindingOf? j =
      if i.mark.id = j.mark.id then some b else info.bindingOf? j := by
  rw [Info.bindingOf?, Info.bindingOf?, Table.find?_insert]
  by_cases h : i.mark.id = j.mark.id
  · rw [if_pos h, if_pos h]
  · rw [if_neg h, if_neg h]

lemma bindingOf?_insert_uses (info : Info) {i : Ident} (hi : info.defs.find? i.mark.id = none)
    (j : Ident) (b : Nat) :
    { info with uses := info.uses.insert i.mark.id b }.bindingOf? j =
      if i.mark.id = j.mark.id then some b else info.bindingOf? j := by
  rw [Info.bindingOf?, Info.bindingOf?, Table.find?_insert]
  by_cases h : i.mark.id = j.mark.id
  · rw [if_pos h, if_pos h, ← h, hi]
  · rw [if_neg h, if_neg h]

lemma sim_defines (hi : L.Reads (.ident i)) (hb : p → L.binds b b') (hn : p → L.Stands i b) :
    Sim L p [i] (defines i b) (defines (i.relabel L.labels) b') fun _ _ => True := by
  refine sim_update (fun _ => .define b hi.knows) (fun _ => ⟨rfl, rfl⟩) ?_
  intro hp later r r' hready hagree _ hokay hinv
  refine ⟨{ hagree with okay := hokay, inv := hinv, defs := ?_, named := ?_ }, trivial⟩
  · exact fun hk => rel_insert hi.knows hk (hb hp) (hagree.defs hk)
  · intro j c hj hc
    refine stands_of_insert hready hagree (hn hp) ?_ ?_ hj hc
    · exact fun k hk => (bindingOf?_insert_defs r.info i k b).trans (if_neg hk.symm)
    · exact (bindingOf?_insert_defs r.info i i b).trans (if_pos rfl)

lemma sim_refers (hi : L.Reads (.ident i)) (hb : p → L.binds b b') (hn : p → L.Stands i b) :
    Sim L p [i] (refers i b) (refers (i.relabel L.labels) b') fun _ _ => True := by
  refine sim_update (fun _ => .refer b hi.knows) (fun _ => ⟨rfl, rfl⟩) ?_
  intro hp later r r' hready hagree _ hokay hinv
  refine ⟨{ hagree with okay := hokay, inv := hinv, uses := ?_, named := ?_ }, trivial⟩
  · exact fun hk => rel_insert hi.knows hk (hb hp) (hagree.uses hk)
  · intro j c hj hc
    by_cases hchange : L.change = none
    · intro d hd
      rw [hchange] at hd
      cases hd
    · have hnone := (hready hchange).defs i mem_cons_self
      refine stands_of_insert hready hagree (hn hp) ?_ ?_ hj hc
      · exact fun k hk => (bindingOf?_insert_uses r.info hnone k b).trans (if_neg hk.symm)
      · exact (bindingOf?_insert_uses r.info hnone i b).trans (if_pos rfl)

/-- A new binding, and the identifier that declares it. -/
def bindOwn (i : Ident) (z : Binding) : Resolve Nat := do
  let b ← Resolve.bind z
  defines i b
  return b

/-- A new variable on both sides; one that changes its name has the old one. -/
lemma sim_bindOwn (hi : L.Names i) {z z' : Binding} (h : p → L.BindingRel z z')
    (hz : z.name = i.name)
    (hz' : z'.name = L.labels.spell i) : Sim L p [i] (bindOwn i z) (bindOwn (i.relabel L.labels) z')
      fun b b' => L.binds b b' ∧ L.Named i.name b ∧ L.Right i (some b) := by
  have hpush : ∀ r, L.Moves [] r ((Resolve.bind z).run r).2 := fun r => hL.moves_update (.push z)
  have hmoves : ∀ r, L.Moves [i] r ((bindOwn i z).run r).2 := fun r =>
    (hpush r).trans (hL.moves_update (.define r.info.bindings.size hi.reads.knows))
  refine ⟨hmoves, fun hp later r r' hready hagree hforetold => ?_⟩
  have hmoved := hmoves r hagree.okay (hL.free hagree.okay hready)
  have hpushed := hpush r hagree.okay (by simp)
  have hsize : ((bindOwn i z).run r).2.info.bindings.size = r.info.bindings.size + 1 :=
    Array.size_push z
  have hself : ((bindOwn i z).run r).2.info.bindingOf? i = some r.info.bindings.size :=
    (bindingOf?_insert_defs _ i i _).trans (if_pos rfl)
  have hright : L.Right i (some r.info.bindings.size) :=
    hself ▸ hL.right hready mem_cons_self hmoved hforetold
  have hfits : L.fits (r.info.bindings.size + 1) := hsize ▸ hforetold.fits
  have hnamed : L.Named i.name r.info.bindings.size := by
    intro c hc hb
    have hname := hforetold.named c hc (by rw [hsize, ← hb]; exact Nat.lt_succ_self _)
    rw [← hb] at hname
    exact (hz.symm.trans (congrArg Binding.name (binding_bind z r)).symm).trans hname
  have hnew : L.binds r.info.bindings.size r'.info.bindings.size := hagree.next 0 hfits
  have hbound := hagree.push (z := z) hfits hpushed.okay (h hp) (by rw [hz, hz', hright.spell])
  refine ⟨((sim_defines (p := True) hi.reads (fun _ => hnew) fun _ => hi.stands hnamed).run
    trivial later _ _
    (hL.ready_right (T := []) hready hagree.okay hpushed) hbound hforetold).1, hnew, hnamed, hright⟩

/-! ## Steps that only look or report -/

/-- A computation that does nothing but report. -/
def Quiet {α : Type} (x : Resolve α) : Prop :=
  ∀ r, ∃ n log, (x.run r).2 = { r with unresolved := n, log := log }

lemma sim_quiet (hx : Quiet x) (hx' : Quiet x')
    (h : p → ∀ r r', L.Agree r r' → post (x.run r).1 (x'.run r').1) : Sim L p [] x x' post := by
  have hupdate : ∀ r, L.Update r [] (x.run r).2 := by
    intro r
    obtain ⟨n, log, hr⟩ := hx r
    rw [hr]
    exact .quiet n r.nextSerial log r.stopped
  have hupdate' : ∀ r, Link.SamePending r (x'.run r).2 := by
    intro r
    obtain ⟨n, log, hr⟩ := hx' r
    rw [hr]
    exact ⟨rfl, rfl⟩
  refine sim_update hupdate hupdate' ?_
  intro hp later r r' _ hagree _ hokay hinv
  refine ⟨?_, h hp r r' hagree⟩
  obtain ⟨n, log, hr⟩ := hx r
  obtain ⟨n', log', hr'⟩ := hx' r'
  rw [hr] at hokay hinv ⊢
  rw [hr'] at hinv ⊢
  exact { hagree with okay := hokay, inv := hinv }

namespace Quiet

lemma of_look (h : ∀ r, (x.run r).2 = r) : Quiet x := fun r => ⟨r.unresolved, r.log, h r⟩

lemma pure (a : α) : Quiet (pure a : Resolve α) := of_look fun _ => rfl

lemma bind {β : Type} {f : α → Resolve β} (hx : Quiet x) (hf : ∀ a, Quiet (f a)) :
    Quiet (x >>= f) := by
  intro r
  obtain ⟨n, log, hr⟩ := hx r
  obtain ⟨n', log', hr'⟩ := hf (x.run r).1 (x.run r).2
  refine ⟨n', log', ?_⟩
  rw [run_bind, hr', hr]

lemma ite {c : Prop} [Decidable c] {y : Resolve α} (hx : Quiet x) (hy : Quiet y) :
    Quiet (if c then x else y) := by
  split
  · exact hx
  · exact hy

lemma note (text : String) : Quiet (Resolve.note text) := fun r => ⟨r.unresolved, _, rfl⟩

lemma unresolved (what : String) (loc : Loc) : Quiet (Resolve.unresolved what loc) :=
  fun _ => ⟨_, _, rfl⟩

lemma asType (n : Node) (t : Ty) : Quiet (Resolve.asType n t) :=
  (of_look fun _ => rfl).bind fun _ => ite (pure _) ((note _).bind fun _ => pure _)

lemma checkAssignable (loc : Loc) (v t : Ty) : Quiet (Resolve.checkAssignable loc v t) :=
  (of_look fun _ => rfl).bind fun _ => ite (note _) (pure _)

end Quiet

lemma sim_unresolved (what what' : String) (loc loc' : Loc) :
    Sim L p [] (unresolved what loc) (unresolved what' loc') (Alike L.matching) :=
  sim_quiet (.unresolved _ _) (.unresolved _ _) fun _ _ _ _ => .invalid

lemma sim_checkAssignable (loc loc' : Loc) (v v' : Ty) :
    Sim L p [] (checkAssignable loc v t) (checkAssignable loc' v' t') fun _ _ => True :=
  sim_quiet (.checkAssignable _ _ _) (.checkAssignable _ _ _) fun _ _ _ _ => trivial

lemma sim_get : Sim L p [] (get : Resolve Resolver) get L.Agree :=
  sim_quiet (.of_look fun _ => rfl) (.of_look fun _ => rfl) fun _ _ _ h => h

lemma sim_underlyings :
    Sim L p [] underlyings underlyings (Matches L.matching) :=
  sim_quiet (.of_look fun _ => rfl) (.of_look fun _ => rfl) fun _ _ _ h => h.underlying

lemma sim_bindingAt (hb : p → L.binds b b') :
    Sim L p [] (bindingAt b) (bindingAt b') L.BindingRel :=
  sim_quiet (.of_look fun _ => rfl) (.of_look fun _ => rfl) fun hp _ _ h => h.binding (hb hp)

/-- What is no variable keeps its name. -/
lemma sim_bindingAt_kept (hb : p → L.binds b b') : Sim L p [] (bindingAt b) (bindingAt b')
    fun z z' => L.BindingRel z z' ∧ (z.kind ≠ .var → ∀ c ∈ L.change, b ≠ c.binding) := by
  have hquiet : Sim L False [] (bindingAt b) (bindingAt b) L.BindingRel := sim_bindingAt False.elim
  refine ⟨hquiet.moves, fun hp later r r' _ hagree hforetold =>
    ⟨hagree, hagree.binding (hb hp), ?_⟩⟩
  rintro hkind c hc rfl
  exact hkind (hforetold.kind hc)

lemma sim_isType {n : Node} (hn : L.knows n.id) :
    Sim L p [] (isType n) (isType (n.relabel L.labels))
      fun b b' => b = b' ∧ (b = true → L.tree n → n.Denotes L.labels) := by
  refine sim_quiet (.of_look fun _ => rfl) (.of_look fun _ => rfl) ?_
  intro _ r r' h
  refine ⟨?_, fun htype htree => h.denotes htree htype⟩
  show r.typeNodes.contains n.id = r'.typeNodes.contains (n.relabel L.labels).id
  rw [Node.id_relabel, h.typeNodes hn]

/-- An expression in the place of a type: if what comes back is valid, the expression denotes it. -/
lemma sim_asDenoted {n : Node} (hn : L.knows n.id) (ht : p → Alike L.matching t t') :
    Sim L p [] (asType n t) (asType (n.relabel L.labels) t')
      fun u u' => Alike L.matching u u' ∧
      (L.tree n → u.isInvalid = false → n.Denotes L.labels ∧ u = t) := by
  refine sim_quiet (.asType n t) (.asType _ t') ?_
  intro hp r r' h
  have hvalue : ∀ (n : Node) (t : Ty) (r : Resolver), ((asType n t).run r).1 =
      if r.typeNodes.contains n.id || t.isInvalid then t else .invalid := by
    intro n t r
    show ((if r.typeNodes.contains n.id || t.isInvalid then _ else _ : Resolve Ty).run r).1 = _
    split <;> rfl
  rw [hvalue, hvalue, Node.id_relabel, h.typeNodes hn, (ht hp).isInvalid]
  split
  next htype =>
    refine ⟨ht hp, fun htree hvalid => ⟨h.denotes htree ?_, rfl⟩⟩
    rwa [hvalid, Bool.or_false] at htype
  next => exact ⟨.invalid, fun _ => nofun⟩

lemma sim_asType {n : Node} (hn : L.knows n.id) (ht : p → Alike L.matching t t') :
    Sim L p [] (asType n t) (asType (n.relabel L.labels) t') (Alike L.matching) :=
  (sim_asDenoted hn ht).weaken fun _ _ _ h => h.1

lemma sim_serial : Sim L p [] serial serial L.matching.serial := by
  have hupdate : ∀ r, L.Update r [] (serial.run r).2 := fun r =>
    .quiet r.unresolved (r.nextSerial + 1) r.log r.stopped
  refine sim_update hupdate (fun _ => ⟨rfl, rfl⟩) ?_
  intro hp later r r' _ hagree _ hokay hinv
  refine ⟨{ hagree with okay := hokay, inv := hinv, serial := ?_ }, hagree.serial 0⟩
  intro k
  have hnext := hagree.serial (k + 1)
  rw [Nat.add_comm k 1, ← Nat.add_assoc, ← Nat.add_assoc] at hnext
  exact hnext

lemma sim_pointerTo (ht : p → Alike L.matching t t') :
    Sim L p [] (pointerTo t) (pointerTo t') (Alike L.matching) :=
  sim_serial.bind fun _ _ => sim_pure fun hp => .pointer hp.2 (.some (ht hp.1))

lemma sim_pointerTo_plain (ht : p → Alike L.matching t t') :
    Sim L p [] (pointerTo t) (pointerTo t') fun u u' => Alike L.matching u u' ∧
    (u.Plain → t.Plain) :=
  (sim_pointerTo ht).learn fun _ _ _ h => h.of_pointer

lemma sim_stop (fault fault' : Numeral.Fault) :
    Sim L p [] (stop fault) (stop fault') fun _ _ => True := by
  have hupdate : ∀ fault r, L.Update r [] ((stop fault).run r).2 := fun fault r =>
    .quiet r.unresolved r.nextSerial r.log _
  refine sim_update (hupdate fault) (fun _ => ⟨rfl, rfl⟩) ?_
  intro hp later r r' _ hagree _ hokay hinv
  refine ⟨{ hagree with okay := hokay, inv := hinv, stopped := ?_ }, trivial⟩
  have hsome : ∀ (s : Option Stop) (t : Stop), (s <|> some t).isSome = true := by
    intro s t
    cases s <;> rfl
  show L.stops (r.stopped <|> some _).isSome (r'.stopped <|> some _).isSome
  rw [hsome, hsome]
  exact hL.stops

lemma sim_arrayLength (n : Node) :
    Sim L p [] (arrayLength n) (arrayLength (n.relabel L.labels)) Eq := by
  cases n with
  | literal m kind value =>
    cases kind with
    | int =>
      rw [Node.relabel, arrayLength, arrayLength]
      cases Numeral.readInteger value with
      | ok n => exact sim_pure fun _ => rfl
      | error fault => exact (sim_stop fault fault).bind fun _ _ => sim_pure fun _ => rfl
    | _ => exact sim_pure fun _ => rfl
  | _ => exact sim_pure fun _ => rfl

/-! ## Names -/

lemma define_eq (i : Ident) (t : Ty) (s : Scope) :
    define i t s = if i.name == "_" then pure s else do
    let r ← get
    let b ← bindOwn i
      { name := i.name, kind := .var, type := t, loc := i.mark.loc, package := r.package }
    let _ ← typed i.mark t
    return s.declare i.name b := rfl

lemma sim_define (hi : L.Names i) (hs : p → L.scopes inner s s')
    (ht : p → Alike L.matching t t') :
    Sim L p [i] (define i t s) (define (i.relabel L.labels) t' s') (L.scopes inner) := by
  refine Sim.foretell (q := L.labels.spell i = "_" ↔ i.name = "_") mem_cons_self
    (fun _ _ _ _ _ _ hright => hL.spell_eq_blank hright) ?_
  rw [define_eq, define_eq]
  refine sim_ite ?_ ((sim_pure fun hp => hs hp.1).mono (by simp)) ?_
  · rintro ⟨-, hblank⟩
    rw [beq_iff_eq, beq_iff_eq, ← hblank]
    rfl
  refine sim_get.after fun r r' => (sim_bindOwn hi ?_ rfl rfl).close fun b b' => ?_
  · refine fun hp => ⟨rfl, hp.2.package, rfl, ht hp.1.1, ?_⟩
    rintro (hvar | hnone)
    · exact absurd rfl hvar
    · exact congrFun (hL.plain hnone) i
  · exact (sim_typed (hi.reads.free rfl) fun hp => ht hp.1.1.1).after fun _ _ =>
      sim_pure fun hp => hL.declare (hs hp.1.1.1.1) hp.1.2.1 hp.1.2.2.2 hp.1.2.2.1

lemma sim_defineAll {is : List Ident} (hi : ∀ i ∈ is, L.Names i)
    (hs : p → L.scopes inner s s') (ht : p → Alike L.matching t t') :
    Sim L p is (defineAll t is s) (defineAll t' (is.map (Ident.relabel L.labels)) s')
      (L.scopes inner) := by
  induction is generalizing s s' p with
  | nil => exact sim_pure hs
  | cons i is ih =>
    exact (sim_define (hi i mem_cons_self) hs ht).bind fun s₁ s₁' =>
      ih (fun j hj => hi j (mem_cons_of_mem i hj)) (fun hp => hp.2) fun hp => ht hp.1

omit hL in
lemma sim_complete [hC : L.Completes C] (hb : p → L.binds b b') :
    Sim L p [] (C.complete b) (C.complete' b') (Alike L.matching) :=
  ⟨hC.moves b, fun hp => (hC.sim (hb hp)).run trivial⟩

/-- The type of an identifier that refers to a binding. -/
def typeOfUse (complete : Nat → Resolve Ty) (m : Mark) (b : Nat) : Resolve Ty := do
  let binding ← bindingAt b
  match binding.kind with
  | .type =>
    denotesType m
    complete b
  | .package => return .invalid
  | _ => return binding.type

lemma sim_typeOfUse [hC : L.Completes C] (hi : L.Reads (.ident i)) (hb : p → L.binds b b')
    (hright : p → L.Right i (some b)) :
    Sim L p [] (typeOfUse C.complete i.mark b) (typeOfUse C.complete' (i.mark.relabel L.labels) b')
      (Alike L.matching) := by
  refine (sim_bindingAt_kept hb).after fun z z' => ?_
  obtain ⟨name, kind, type, loc, package⟩ := z
  obtain ⟨name', kind', type', loc', package'⟩ := z'
  have hkind : p ∧
    L.BindingRel ⟨name, kind, type, loc, package⟩ ⟨name', kind', type', loc', package'⟩ ∧
      (kind ≠ .var → ∀ c ∈ L.change, b ≠ c.binding) → kind' = kind := fun hp => hp.2.1.kind
  cases kind with
  | type =>
    refine ((sim_denotesType (m := i.mark) hi.knows fun hp n hn hid => ?_).after fun _ _ =>
      sim_complete fun hp => hb hp.1.1).congr
      fun hp => by rw [hkind hp]
    rw [hi.only hn hid]
    exact .ident ((hright hp.1).spell_of_kept (hp.2.2 nofun))
  | package => exact (sim_pure fun _ => .invalid).congr fun hp => by rw [hkind hp]
  | _ => exact (sim_pure fun hp => hp.2.1.type).congr fun hp => by rw [hkind hp]

lemma identType_blank (complete : Nat → Resolve Ty) (hi : i.name = "_") :
    identType complete s i = pure .invalid := by
  simp [hi]

lemma identType_none (complete : Nat → Resolve Ty) (hi : i.name ≠ "_")
    (hb : s.lookup i.name = none) :
    identType complete s i = unresolved ("name " ++ Text.quote i.name) i.mark.loc := by
  simp [hi, hb]

lemma identType_some (complete : Nat → Resolve Ty) (hi : i.name ≠ "_")
    (hb : s.lookup i.name = some b) :
    identType complete s i = (do
      refers i b
      typeOfUse complete i.mark b) := by
  rw [identType, if_neg (mt beq_iff_eq.mp hi), hb]
  rfl

/-- Where an identifier is looked up, it is spelled as what it is found to be asks for. -/
lemma right_lookup [hC : L.Completes C] (hi : L.Reads (.ident i)) {later : List Ident}
    (hready : L.Ready later [i] r)
    (hokay : L.okay r) (h : L.Right i (((identType C.complete s i).run r).2.info.bindingOf? i)) :
    L.Right i (s.lookup i.name) := by
  by_cases hc : L.change = none
  · exact hL.right_of_none hc _ _
  by_cases hblank : i.name = "_"
  · exact hL.right_of_blank h hblank
  have hnone : r.info.bindingOf? i = none := hready.bindingOf? hc mem_cons_self
  cases hb : s.lookup i.name with
  | none =>
    rw [identType_none C.complete hblank hb] at h
    exact hnone ▸ h
  | some b =>
    have hmoves : L.Moves [i] r ((refers i b).run r).2 := hL.moves_update (.refer b hi.knows)
    have hrest : Sim L False [] (typeOfUse C.complete i.mark b)
        (typeOfUse C.complete' (i.mark.relabel L.labels) b) (Alike L.matching) :=
      sim_typeOfUse hi False.elim False.elim
    have hdefs := (hready hc).defs i mem_cons_self
    rw [identType_some C.complete hblank hb, run_bind,
      hL.bindingOf?_behind (T := [i]) (U := []) hc hready hokay hmoves
        (hrest.moves _) mem_cons_self] at h
    exact (bindingOf?_insert_uses r.info hdefs i b).trans (if_pos rfl) ▸ h

lemma sim_identType [hC : L.Completes C] (hi : L.Names i) (hs : p → L.scopes inner s s') :
    Sim L p [i] (identType C.complete s i) (identType C.complete' s' (i.relabel L.labels))
      (Alike L.matching) := by
  refine Sim.foretell (q := L.Right i (s.lookup i.name)) mem_cons_self
    (fun _ _ _ _ hready hagree h => right_lookup hi.reads hready hagree.okay h) ?_
  by_cases hblank : i.name = "_"
  · rw [identType_blank _ hblank]
    refine ((sim_pure fun _ => .invalid).congr fun hp => identType_blank _ ?_).mono (by simp)
    exact (hL.spell_eq_blank hp.2).mpr hblank
  have hblank' : p ∧ L.Right i (s.lookup i.name) → (i.relabel L.labels).name ≠ "_" := fun hp =>
    mt (hL.spell_eq_blank hp.2).mp hblank
  have hlookup : p ∧ L.Right i (s.lookup i.name) → Option.Rel L.binds (s.lookup i.name)
      (s'.lookup (i.relabel L.labels).name) := fun hp => hL.lookup (hs hp.1) hp.2
  cases hb : s.lookup i.name with
  | none =>
    rw [identType_none _ hblank hb]
    rw [hb] at hblank' hlookup
    refine ((sim_unresolved _ _ _ _).congr fun hp => identType_none _ (hblank' hp) ?_).mono
      (by simp)
    have := hlookup hp
    generalize s'.lookup (i.relabel L.labels).name = o at this
    cases this
    rfl
  | some b =>
    rw [identType_some _ hblank hb]
    rw [hb] at hblank' hlookup
    refine Sim.choose (q := fun b' => s'.lookup (i.relabel L.labels).name = some b' ∧ L.binds b b')
      ?_ fun b' => ?_
    · intro hp
      have hrel := hlookup hp
      generalize s'.lookup (i.relabel L.labels).name = o at hrel
      cases hrel with
      | some h => exact ⟨_, rfl, h⟩
    refine Sim.congr ?_ fun hp => identType_some _ (hblank' hp.1) hp.2.1
    exact (sim_refers hi.reads (fun hp => hp.2.2) fun hp =>
      hi.stands (hL.named (hs hp.1.1) hb)).close fun _ _ =>
      sim_typeOfUse hi.reads (fun hp => hp.1.2.2) fun hp => hp.1.1.2

/-! ## Fields and members -/

section Rel

variable {γ γ' : Type} {A : γ → γ' → Prop} {a : γ} {o' : Option γ'}

lemma rel_none (h : p → Option.Rel A none o') : p → o' = none := by
  intro hp
  cases h hp
  rfl

lemma rel_some (h : p → Option.Rel A (some a) o') : p → ∃ a', o' = some a' ∧ A a a' := by
  intro hp
  cases h hp with
  | some ha => exact ⟨_, rfl, ha⟩

end Rel

/-- Looking up a field by its name, which keeps its spelling. -/
lemma sim_member? {name : Ident} {found found' : Member Ty → Resolve Ty}
    {missing missing' : Resolve Ty} (ht : p → Alike L.matching t t')
    (hfound : ∀ {q : Prop} {f f'}, (q → Ty.MemberRel (Alike L.matching) f f') →
      Sim L q [] (found f) (found' f') (Alike L.matching))
    (hmissing : ∀ {q : Prop}, (q → p) → Sim L q [] missing missing' (Alike L.matching)) :
    Sim L p [name] (do
      match t.member? (← underlyings) name.name with
      | some f => found f
      | none => missing) (do
      match t'.member? (← underlyings) (L.labels.spell name) with
      | some f => found' f
      | none => missing') (Alike L.matching) := by
  refine Sim.spared (T := []) [name] (sim_underlyings.after fun env env' => ?_)
  have hmember : (p ∧ ∀ i ∈ [name], L.labels.spell i = i.name) ∧
    Matches L.matching env env' → Option.Rel
      (Ty.MemberRel (Alike L.matching)) (t.member? env name.name)
      (t'.member? env' (L.labels.spell name)) := by
    rintro ⟨⟨hp, hname⟩, henv⟩
    rw [hname name mem_cons_self]
    exact (ht hp).member? henv name.name
  generalize t.member? env name.name = o, t'.member? env' (L.labels.spell name) = o' at hmember
  cases o with
  | none => exact (hmissing fun hp => hp.1.1).congr fun hp => by rw [rel_none hmember hp]
  | some f =>
    have : Nonempty (Member Ty) := ⟨f⟩
    exact Sim.choose (rel_some hmember) fun f' => (hfound fun hp => hp.2.2).congr
      fun hp => by rw [hp.2.1]

lemma sim_fieldType {name : Ident} (hn : L.Reads (.ident name)) (ht : p → Alike L.matching t t') :
    Sim L p [name] (fieldType m t name) (fieldType (m.relabel L.labels) t' (name.relabel L.labels))
      (Alike L.matching) := by
  refine sim_member? ht (fun hf => sim_typed (hn.free rfl) fun hq => ?_) fun hq => ?_
  · cases hf hq with
    | mk h => exact Alike.getD h .invalid
  · exact sim_ite (fun h => by rw [(ht (hq h)).isInvalid]) (sim_pure fun _ => .invalid)
      (sim_unresolved _ _ _ _)

lemma sim_keyType {key : Ident} (hk : L.Reads (.ident key)) (ht : p → Alike L.matching t t') :
    Sim L p [key] (keyType m t key) (keyType (m.relabel L.labels) t' (key.relabel L.labels))
      (Alike L.matching) := by
  refine sim_member? ht (fun hf => sim_typed (hk.free rfl) fun hq => ?_) fun hq => ?_
  · cases hf hq with
    | mk h => exact Alike.getD h .invalid
  · exact (sim_unresolved _ _ _ _).after fun _ _ => sim_typed (hk.free rfl) fun _ => .invalid

/-- The type of a member of a package. -/
def typeOfMember (m : Mark) (b : Nat) : Resolve Ty := do
  let binding ← bindingAt b
  if binding.kind == .type then denotesType m
  return binding.type

lemma sim_typeOfMember (hm : L.knows m.id) (hb : p → L.binds b b')
    (hdenotes : p → ∀ n, L.tree n → n.id = m.id → n.Denotes L.labels) :
    Sim L p [] (typeOfMember m b) (typeOfMember (m.relabel L.labels) b') (Alike L.matching) := by
  refine (sim_bindingAt hb).after fun z z' => ?_
  refine sim_ite (fun hp => by rw [hp.2.kind]) ?_ ?_
  · exact (sim_denotesType hm fun hp => hdenotes hp.1).after fun _ _ =>
      sim_pure fun hp => hp.1.2.type
  · exact sim_pure fun hp => hp.2.type

/-- Looks up the name of a member and gives its type. -/
def memberNamed (m : Mark) (package : Ident) (b : Nat) (name : Ident) : Resolve Ty := do
  let path := (← bindingAt b).package
  match ((← get).members.find? path).bind (·.find? name.name) with
  | none => unresolved ("name " ++ package.name ++ "." ++ name.name) m.loc
  | some member =>
    refers name member
    typeOfMember m member

lemma memberType_eq (m : Mark) (package : Ident) (b : Nat) (name : Ident) :
    memberType m package b name = (do
      refers package b
      memberNamed m package b name) := rfl

/-- The name of a member of a package keeps its spelling. -/
lemma spell_member {package name : Ident} (hm : L.knows m.id) (hn : L.Reads (.ident name))
    {later : List Ident} (hready : L.Ready later [name] r) (hagree : L.Agree r r')
    (h : L.Right name (((memberNamed m package b name).run r).2.info.bindingOf? name)) :
    L.labels.spell name = name.name := by
  by_cases hc : L.change = none
  · rw [hL.plain hc]
  have hmember := hagree.member (r.info.binding b).package name.name
  have hrun : (memberNamed m package b name).run r = ((match
      (r.members.find? (r.info.binding b).package).bind (·.find? name.name) with
    | none => unresolved ("name " ++ package.name ++ "." ++ name.name) m.loc
    | some member => do
      refers name member
      typeOfMember m member : Resolve Ty)).run r := rfl
  rw [hrun] at h
  generalize (r.members.find? (r.info.binding b).package).bind (·.find? name.name) = o,
    (r'.members.find? (r.info.binding b).package).bind (·.find? name.name) = o' at h hmember
  cases hmember with
  | none =>
    have hnone := hready.bindingOf? hc mem_cons_self
    exact Link.Right.spell_of_none (hnone ▸ h)
  | @some member member' hrel =>
    have hmoves : L.Moves [name] r ((refers name member).run r).2 :=
      hL.moves_update (.refer member hn.knows)
    have hrest : Sim L False [] (typeOfMember m member) (typeOfMember (m.relabel L.labels) member)
        (Alike L.matching) :=
      sim_typeOfMember hm False.elim False.elim
    have hdefs := (hready hc).defs name mem_cons_self
    dsimp only at h
    rw [run_bind,
      hL.bindingOf?_behind (T := [name]) (U := []) hc hready hagree.okay hmoves
        (hrest.moves _) mem_cons_self] at h
    have hright : L.Right name (some member) :=
      (bindingOf?_insert_uses r.info hdefs name member).trans (if_pos rfl) ▸ h
    rw [hright.spell, Link.spelling_eq]
    rintro c ⟨⟩
    exact hrel.2

lemma sim_memberNamed {package package' name : Ident}
    (hm : L.Reads (.select m (.ident package) name))
    (hn : L.Reads (.ident name)) (hb : p → L.binds b b')
    (hpackage : p → L.labels.spell package = package.name) :
    Sim L p [name] (memberNamed m package b name)
      (memberNamed (m.relabel L.labels) package' b' (name.relabel L.labels))
      (Alike L.matching) := by
  refine Sim.foretell mem_cons_self
    (fun _ _ _ _ hready hagree h => spell_member hm.knows hn hready hagree h) ?_
  refine (sim_bindingAt fun hp => hb hp.1).after fun z z' => sim_get.after fun r r' => ?_
  have hmember : ((p ∧ L.labels.spell name = name.name) ∧ L.BindingRel z z') ∧ L.Agree r r' →
    Option.Rel L.MemberRel
      ((r.members.find? z.package).bind (·.find? name.name))
      ((r'.members.find? z'.package).bind (·.find? (L.labels.spell name))) := by
    rintro ⟨⟨⟨-, hname⟩, hz⟩, hagree⟩
    rw [hname, hz.package]
    exact hagree.member z.package name.name
  show Sim L _ _ _ (match (r'.members.find? z'.package).bind (·.find? (L.labels.spell name)) with
    | none => _
    | some b => _) _
  generalize (r.members.find? z.package).bind (·.find? name.name) = o,
    (r'.members.find? z'.package).bind (·.find? (L.labels.spell name)) = o' at hmember
  cases o with
  | none =>
    refine Sim.mono (T := []) ?_ (by simp)
    exact (sim_unresolved _ _ _ _).congr fun hp => by rw [rel_none hmember hp]
  | some member =>
    refine Sim.choose (rel_some hmember) fun member' => Sim.congr ?_ fun hp => by rw [hp.2.1]
    refine (sim_refers hn (fun hp => hp.2.2.1) ?_).close fun _ _ =>
      sim_typeOfMember hm.knows (fun hp => hp.1.2.2.1) fun hp n hn hid => ?_
    · exact fun hp => Link.stands_of_kept hp.2.2.2
    · rw [hm.only hn hid]
      exact .member (hpackage hp.1.1.1.1.1) hp.1.1.1.1.2

lemma sim_memberType {package name : Ident} (hm : L.Reads (.select m (.ident package) name))
    (hi : L.Names package) (hn : L.Reads (.ident name)) (hb : p → L.binds b b')
    (hnamed : p → L.Named package.name b) (hpackage : p → L.labels.spell package = package.name) :
    Sim L p [package, name] (memberType m package b name)
      (memberType (m.relabel L.labels) (package.relabel L.labels) b' (name.relabel L.labels))
      (Alike L.matching) :=
  (sim_refers hi.reads hb fun hp => hi.stands (hnamed hp)).bind fun _ _ => sim_memberNamed hm hn
    (fun hp => hb hp.1) fun hp => hpackage hp.1

/-! ## Selections -/

lemma sim_exprIdent [hC : L.Completes C] {expected expected' : Option Ty} (hi : L.Names i)
    (hs : p → L.scopes inner s s') :
    Sim L p [i] (expr C.complete s expected (.ident i))
      (expr C.complete' s' expected' (.ident (i.relabel L.labels))) (Alike L.matching) := by
  rw [expr, expr]
  exact (sim_identType hi hs).close fun _ _ => sim_typed (hi.reads.free rfl) fun hp => hp.2

/-- The type of a field of an expression. -/
def typeOfField (complete : Nat → Resolve Ty) (s : Scope) (m : Mark) (base : Node) (name : Ident) :
    Resolve Ty := do
  let t ← expr complete s none base
  typed m (← fieldType m t name)

lemma sim_typeOfField {base base' : Node} {name : Ident} (hm : L.Free m.id)
    (hn : L.Reads (.ident name))
    (hbase : Sim L p T (expr C.complete s none base) (expr C.complete' s' none base')
      (Alike L.matching)) :
    Sim L p (T ++ [name]) (typeOfField C.complete s m base name)
      (typeOfField C.complete' s' (m.relabel L.labels) base' (name.relabel L.labels))
      (Alike L.matching) :=
  hbase.bind fun _ _ => (sim_fieldType hn fun hp => hp.2).close fun _ _ =>
    sim_typed hm fun hp => hp.2

/-- The package that an identifier names, if it names one. -/
def packageAt? (s : Scope) (i : Ident) : Resolve (Option Nat) := do
  let r ← get
  return (s.lookup i.name).filter fun b => (r.info.binding b).kind == .package

/-- The type of a selection from an identifier, given the package that the identifier names. -/
def typeOfSelection (complete : Nat → Resolve Ty) (s : Scope) (m : Mark) (i name : Ident) :
    Option Nat → Resolve Ty
  | some b => do typed m (← memberType m i b name)
  | none => typeOfField complete s m (.ident i) name

lemma packageOf?_ident (s : Scope) (i : Ident) :
    packageOf? s (.ident i) = (do return (← packageAt? s i).map fun b => (i, b)) := by
  refine StateT.ext fun r => ?_
  show _ =
    (((s.lookup i.name).filter fun b => (r.info.binding b).kind == .package).map fun b => (i, b), r)
  rw [packageOf?]
  cases s.lookup i.name with
  | none => rfl
  | some b =>
    show (if (r.info.binding b).kind == .package then some (i, b) else none, r) = _
    rw [Option.filter_some]
    split <;> rfl

lemma expr_selectIdent (complete : Nat → Resolve Ty) (expected : Option Ty) (i name : Ident) :
    expr complete s expected (.select m (.ident i) name) =
      packageAt? s i >>= typeOfSelection complete s m i name := by
  rw [expr, packageOf?_ident, bind_assoc]
  refine congrArg (packageAt? s i >>= ·) (funext fun b => ?_)
  rw [pure_bind]
  cases b <;> rfl

/-- The base of a selection is spelled as what it is found to be asks for. -/
lemma right_select [hC : L.Completes C] {name : Ident} {expected : Option Ty}
    (hm : L.Reads (.select m (.ident i) name))
    (hi : L.Names i) (hn : L.Reads (.ident name)) {later : List Ident}
    (hready : L.Ready later [i, name] r) (hokay : L.okay r) (h : L.Right i
      (((expr C.complete s expected (.select m (.ident i) name)).run r).2.info.bindingOf? i)) :
    L.Right i (s.lookup i.name) := by
  by_cases hc : L.change = none
  · exact hL.right_of_none hc _ _
  rw [expr_selectIdent, run_bind, show ((packageAt? s i).run r).2 = r from rfl] at h
  cases hpackage : ((packageAt? s i).run r).1 with
  | none =>
    have hbase : Sim L False [i] (expr C.complete s none (.ident i))
        (expr C.complete' s none (.ident (i.relabel L.labels))) (Alike L.matching) :=
      @sim_exprIdent L False i true s s C _ _ none none hi False.elim
    have hrest : ∀ t, Sim L False [name] (fieldType m t name >>= typed m)
        (fieldType (m.relabel L.labels) t (name.relabel L.labels) >>= typed (m.relabel L.labels))
        (Alike L.matching) := fun t =>
      (sim_fieldType hn False.elim).close fun _ _ => sim_typed (hm.free rfl) fun hp => hp.2
    rw [hpackage, typeOfSelection, typeOfField, run_bind, hL.bindingOf?_behind (T := [i])
      (U := [name]) hc hready
      hokay (hbase.moves r) ((hrest _).moves _) mem_cons_self, expr] at h
    exact right_lookup hi.reads (Link.Ready.left (T := [i]) hready) hokay h
  | some b =>
    have hmoves : L.Moves [i] r ((refers i b).run r).2 := hL.moves_update (.refer b hi.reads.knows)
    have hrest : Sim L False [name] (memberNamed m i b name >>= typed m)
        (memberNamed (m.relabel L.labels) i b (name.relabel L.labels) >>=
          typed (m.relabel L.labels))
        (Alike L.matching) :=
      (sim_memberNamed hm hn False.elim False.elim).close fun _ _ =>
        sim_typed (hm.free rfl) fun hp => hp.2
    have hdefs := (hready hc).defs i mem_cons_self
    have hb : s.lookup i.name = some b := (Option.filter_eq_some_iff.mp hpackage).1
    rw [hpackage, typeOfSelection, memberType_eq, bind_assoc, run_bind,
      hL.bindingOf?_behind (T := [i])
      (U := [name]) hc hready hokay hmoves (hrest.moves _) mem_cons_self] at h
    rw [hb]
    exact (bindingOf?_insert_uses r.info hdefs i b).trans (if_pos rfl) ▸ h

lemma sim_packageAt? (hs : p → L.scopes inner s s') (hi : p → L.Right i (s.lookup i.name)) :
    Sim L p [] (packageAt? s i) (packageAt? s' (i.relabel L.labels))
      (Option.Rel fun b b' => L.binds b b' ∧ L.Named i.name b ∧ L.labels.spell i = i.name) := by
  have hquiet : Sim L False [] (packageAt? s i) (packageAt? s i) fun _ _ => True :=
    sim_quiet (.of_look fun _ => rfl) (.of_look fun _ => rfl) nofun
  refine ⟨hquiet.moves, fun hp later r r' _ hagree hforetold => ⟨hagree, ?_⟩⟩
  have hright := hi hp
  have hlookup : Option.Rel L.binds (s.lookup i.name) (s'.lookup (i.relabel L.labels).name) :=
    hL.lookup (hs hp) (hi hp)
  have hnamed : ∀ b, s.lookup i.name = some b → L.Named i.name b := fun b hb => hL.named (hs hp) hb
  show Option.Rel _ ((s.lookup i.name).filter _) ((s'.lookup (i.relabel L.labels).name).filter _)
  generalize s.lookup i.name = o, s'.lookup (i.relabel L.labels).name = o' at hlookup hnamed hright
  cases hlookup with
  | none => exact .none
  | some hb =>
    rw [Option.filter_some, Option.filter_some, (hagree.binding hb).kind]
    split
    next hkind =>
      refine .some ⟨hb, hnamed _ rfl, hright.spell_of_kept ?_⟩
      rintro c hc rfl
      have hvar : (r.info.binding c.binding).kind = .var := hforetold.kind hc
      rw [hvar] at hkind
      cases hkind
    next => exact .none

/-- A selection from an identifier: a member of a package, or a field. -/
lemma sim_selectIdent [hC : L.Completes C] {name : Ident} {expected expected' : Option Ty}
    (hm : L.Reads (.select m (.ident i) name)) (hi : L.Names i) (hn : L.Reads (.ident name))
    (hs : p → L.scopes inner s s') :
    Sim L p [i, name] (expr C.complete s expected (.select m (.ident i) name))
      (expr C.complete' s' expected'
        (.select (m.relabel L.labels) (.ident (i.relabel L.labels)) (name.relabel L.labels)))
      (Alike L.matching) := by
  refine Sim.foretell mem_cons_self
    (fun _ _ _ _ hready hagree h => right_select hm hi hn hready hagree.okay h) ?_
  rw [expr_selectIdent, expr_selectIdent]
  refine (sim_packageAt? (fun hp => hs hp.1) fun hp => hp.2).after fun o o' => ?_
  cases o with
  | none =>
    refine Sim.congr ?_ fun hp => by rw [rel_none (fun hp => hp.2) hp, typeOfSelection]
    exact sim_typeOfField (hm.free rfl) hn (sim_exprIdent hi fun hp => hs hp.1.1)
  | some b =>
    refine Sim.choose (rel_some fun hp => hp.2) fun b' => Sim.congr ?_ fun hp => by
      rw [hp.2.1, typeOfSelection]
    exact (sim_memberType hm hi hn (fun hp => hp.2.2.1) (fun hp => hp.2.2.2.1) fun hp =>
      hp.2.2.2.2).close fun _ _ =>
      sim_typed (hm.free rfl) fun hp => hp.2

/-! ## Declarations of variables -/

lemma defineOrReuse_some (hb : s.lookupHere i.name = some b) : defineOrReuse i t s = (do
    refers i b
    let _ ← typed i.mark (← bindingAt b).type
    return s) := by
  rw [defineOrReuse, hb]

lemma defineOrReuse_none (hb : s.lookupHere i.name = none) :
    defineOrReuse i t s = define i t.defaulted s := by
  rw [defineOrReuse, hb]

lemma lookup_of_lookupHere {name : String} (h : s.lookupHere name = some b) :
    s.lookup name = some b := by
  cases s with
  | nil => cases h
  | cons frame outer => rw [Scope.lookup, show frame.find? name = some b from h]

lemma sim_defineOrReuse (hi : L.Names i) (hs : p → L.scopes true s s')
    (ht : p → Alike L.matching t t') :
    Sim L p [i] (defineOrReuse i t s) (defineOrReuse (i.relabel L.labels) t' s')
      (L.scopes true) := by
  cases hb : s.lookupHere i.name with
  | none =>
    refine Sim.foretell (q := s'.lookupHere (i.relabel L.labels).name = none) mem_cons_self
      (fun hp _ _ _ _ _ h => hL.here_none (hs hp) hb h) ?_
    rw [defineOrReuse_none hb]
    refine Sim.congr ?_ fun hp => defineOrReuse_none hp.2
    exact sim_define hi (fun hp => hs hp.1) fun hp => (ht hp.1).defaulted
  | some b =>
    refine Sim.foretell (q := L.Right i (some b)) mem_cons_self ?_ ?_
    · intro _ later r r' hready _ h
      by_cases hc : L.change = none
      · exact hL.right_of_none hc _ _
      have hdefs := (hready hc).defs i mem_cons_self
      rw [defineOrReuse_some hb] at h
      exact (bindingOf?_insert_uses r.info hdefs i b).trans (if_pos rfl) ▸ h
    refine Sim.choose (fun hp => hL.here (hs hp.1) hb hp.2) fun b' => ?_
    rw [defineOrReuse_some hb]
    refine Sim.congr ?_ fun hp => defineOrReuse_some hp.2.1
    exact (sim_refers hi.reads (fun hp => hp.2.2) fun hp =>
      hi.stands (hL.named (hs hp.1.1) (lookup_of_lookupHere hb))).close
      fun _ _ => (sim_bindingAt fun hp => hp.1.2.2).after fun _ _ =>
        (sim_typed (hi.reads.free rfl) fun hp => hp.2.type).after fun _ _ =>
          sim_pure fun hp => hs hp.1.1.1.1.1

/-- Declares one name of a variable declaration, given its declared type and the type of its
value. -/
def declareName (loc : Loc) (declared : Option Ty) (values : List Ty) (i : Ident) (v : Ty)
    (s : Scope) : Resolve Scope := do
  match declared with
  | some t =>
    if !values.isEmpty && !v.isInvalid then checkAssignable loc v t
    define i t s
  | none => define i v.defaulted s

lemma declareNames_cons (loc : Loc) (declared : Option Ty) (values : List Ty) (i : Ident) (v : Ty)
    (rest : List (Ident × Ty)) (s : Scope) : declareNames loc declared values ((i, v) :: rest) s =
      declareName loc declared values i v s >>= declareNames loc declared values rest := by
  cases declared with
  | none => rfl
  | some t =>
    show (if !values.isEmpty && !v.isInvalid then _ else _) =
      (if !values.isEmpty && !v.isInvalid then _ else _) >>= _
    split <;> rfl

variable {loc : Loc} {declared declared' : Option Ty} {values values' : List Ty}

lemma sim_declareName {v v' : Ty} (hi : L.Names i) (hs : p → L.scopes inner s s')
    (hdeclared : p → Option.Rel (Alike L.matching) declared declared')
    (hvalues : p → values'.isEmpty = values.isEmpty) (hv : p → Alike L.matching v v') :
    Sim L p [i] (declareName loc declared values i v s)
      (declareName loc declared' values' (i.relabel L.labels) v' s') (L.scopes inner) := by
  cases declared with
  | none =>
    refine Sim.congr ?_ fun hp => by rw [rel_none hdeclared hp]
    exact sim_define hi hs fun hp => (hv hp).defaulted
  | some t =>
    refine Sim.choose (rel_some hdeclared) fun t' => Sim.congr ?_ fun hp => by rw [hp.2.1]
    refine sim_ite (fun hp => by rw [hvalues hp.1, (hv hp.1).isInvalid]) ?_ ?_
    · exact (sim_checkAssignable _ _ _ _).after fun _ _ => sim_define hi
        (fun hp => hs hp.1.1) fun hp => hp.1.2.2
    · exact sim_define hi (fun hp => hs hp.1) fun hp => hp.2.2

/-- Declaring variables one after the other, each with its own type. -/
lemma sim_declareNames {is : List Ident} {vs vs' : List Ty} (hi : ∀ i ∈ is, L.Names i)
    (hs : p → L.scopes inner s s')
    (hdeclared : p → Option.Rel (Alike L.matching) declared declared')
    (hvalues : p → values'.isEmpty = values.isEmpty) (hvs : p → Forall₂ (Alike L.matching) vs vs') :
    Sim L p is (declareNames loc declared values (is.zip vs) s)
      (declareNames loc declared' values' ((is.map (Ident.relabel L.labels)).zip vs') s')
      (L.scopes inner) := by
  induction is generalizing vs vs' s s' p with
  | nil => exact sim_pure hs
  | cons i is ih =>
    cases vs with
    | nil =>
      refine ((sim_pure hs).congr fun hp => ?_).mono (by simp)
      cases hvs hp
      rfl
    | cons v vs =>
      refine Sim.choose (q := fun c : Ty × List Ty => vs' = c.1 :: c.2 ∧ Alike L.matching v c.1 ∧
        Forall₂ (Alike L.matching) vs c.2) ?_ ?_
      · intro hp
        cases hvs hp with
        | cons hv hrest => exact ⟨(_, _), rfl, hv, hrest⟩
      rintro ⟨v', vs''⟩
      rw [zip_cons_cons, declareNames_cons]
      refine Sim.congr ?_ fun hp => by rw [hp.2.1, map_cons, zip_cons_cons, declareNames_cons]
      exact (sim_declareName (hi i mem_cons_self) (fun hp => hs hp.1) (fun hp => hdeclared hp.1)
        (fun hp => hvalues hp.1) fun hp => hp.2.2.1).bind fun _ _ =>
          ih (fun j hj => hi j (mem_cons_of_mem i hj)) (fun hp => hp.2) (fun hp => hdeclared hp.1.1)
            (fun hp => hvalues hp.1.1) fun hp => hp.1.2.2.2

/-! ## Calls and values -/

lemma sim_builtinResult (name : String) {args args' : List Ty}
    (hargs : p → Forall₂ (Alike L.matching) args args') :
    Sim L p [] (builtinResult name args) (builtinResult name args') (Alike L.matching) := by
  cases args with
  | nil =>
    refine Sim.congr ?_ fun hp => by rw [forall₂_nil_left_iff.mp (hargs hp)]
    rw [builtinResult.eq_def]
    split
    all_goals first
      | exact sim_pure fun _ => .basic .int
      | exact sim_pure fun _ => .invalid
      | contradiction
  | cons t ts =>
    refine Sim.choose
      (q := fun c : Ty × List Ty => args' = c.1 :: c.2 ∧ Alike L.matching t c.1) ?_ ?_
    · intro hp
      cases hargs hp with
      | cons ht _ => exact ⟨(_, _), rfl, ht⟩
    rintro ⟨t', ts'⟩
    refine Sim.congr ?_ fun hp => by rw [hp.2.1]
    rw [builtinResult.eq_def, builtinResult.eq_def]
    split
    · exact sim_pure fun _ => .basic .int
    · exact sim_pure fun _ => .basic .int
    · exact sim_pure fun _ => .basic .int
    · next heq =>
        cases heq
        exact sim_pointerTo fun hp => hp.2.2
    · next heq =>
        cases heq
        exact sim_pure fun hp => hp.2.2
    · next heq =>
        cases heq
        exact sim_pure fun hp => hp.2.2
    · split
      all_goals first | exact sim_pure fun _ => .invalid | simp_all

lemma sim_callee? {fn : Node} (hfn : ∀ n ∈ preorderAll [fn], L.knows n.id) :
    Sim L p [] (callee? fn) (callee? (fn.relabel L.labels)) (Option.Rel L.binds) := by
  refine sim_get.after fun r r' => ?_
  cases fn with
  | ident i => exact sim_pure fun hp => hp.2.uses (hfn (.ident i) (by simp [preorderAll]))
  | select m base name =>
    refine sim_pure fun hp => hp.2.uses (hfn (.ident name) ?_)
    exact mem_preorderAll_of_child (mem_preorderAll_of_mem mem_cons_self) (by simp [Node.children])
  | _ => exact sim_pure fun _ => .none

lemma run_resultOf (t : Ty) (r : Resolver) : (callType.resultOf t).run r =
    (match t.underlying r.info.underlying with
      | .func _ _ [result] => result.getD .invalid
      | _ => .invalid, r) := by
  show ((match t.underlying r.info.underlying with
    | .func _ _ [result] => return result.getD .invalid
    | _ => return .invalid : Resolve Ty).run r) = _
  split <;> rfl

lemma sim_resultOf (ht : p → Alike L.matching t t') :
    Sim L p [] (callType.resultOf t) (callType.resultOf t') (Alike L.matching) := by
  refine sim_quiet (.of_look fun r => by rw [run_resultOf])
    (.of_look fun r => by rw [run_resultOf]) ?_
  intro hp r r' hagree
  have hu := (ht hp).underlying hagree.underlying
  rw [run_resultOf, run_resultOf]
  generalize t.underlying r.info.underlying = u, t'.underlying r'.info.underlying = u' at hu
  cases hu with
  | func _ _ hr =>
    cases hr with
    | nil => exact .invalid
    | cons hresult hr =>
      cases hr with
      | nil => exact Alike.getD hresult .invalid
      | cons _ _ => exact .invalid
  | _ => exact .invalid

lemma sim_callType {fn : Node} {args args' : List Ty} (hfn : ∀ n ∈ preorderAll [fn], L.knows n.id)
    (ht : p → Alike L.matching t t') (hargs : p → Forall₂ (Alike L.matching) args args') :
    Sim L p [] (callType fn t args) (callType (fn.relabel L.labels) t' args')
      (Alike L.matching) := by
  refine (sim_callee? hfn).after fun b? b?' => ?_
  cases b? with
  | none =>
    refine Sim.congr ?_ fun hp => by rw [rel_none (fun hp => hp.2) hp]
    exact sim_resultOf fun hp => ht hp.1
  | some b =>
    refine Sim.choose (rel_some fun hp => hp.2) fun b' => Sim.congr ?_ fun hp => by rw [hp.2.1]
    refine (sim_bindingAt fun hp => hp.2.2).after fun z z' => ?_
    by_cases hkind : z.kind = .builtin
    · rw [if_pos (beq_iff_eq.mpr hkind)]
      refine Sim.congr (sim_builtinResult z.name fun hp => hargs hp.1.1.1) fun hp => ?_
      have hname := hp.2.name (Or.inl (by rw [hkind]; exact BindingKind.noConfusion))
      rw [if_pos (beq_iff_eq.mpr (hp.2.kind.trans hkind)), hname]
    · rw [if_neg (mt beq_iff_eq.mp hkind)]
      refine Sim.congr (sim_resultOf fun hp => ht hp.1.1.1) fun hp => ?_
      rw [if_neg (mt beq_iff_eq.mp (by rw [hp.2.kind]; exact hkind))]

omit hL in
lemma forall₂_replicate (n : Nat) :
    Forall₂ (Alike L.matching) (replicate n .invalid) (replicate n .invalid) := by
  induction n with
  | zero => exact .nil
  | succ n ih => exact .cons .invalid ih

/-- The types of the results of a function, given what its type stands for, if there are as many as
asked for. -/
def resultTypes (n : Nat) (apart : List Ty) : Ty → List Ty
  | .func _ _ results => if results.length == n then results.map (·.getD .invalid) else apart
  | _ => apart

omit hL in
lemma forall₂_resultTypes (n : Nat) {apart apart' : List Ty}
    (h : Forall₂ (Alike L.matching) apart apart') (ht : Alike L.matching t t') :
    Forall₂ (Alike L.matching) (resultTypes n apart t) (resultTypes n apart' t') := by
  cases ht with
  | func _ _ hr =>
    rw [resultTypes, resultTypes, hr.length_eq]
    split
    · rw [forall₂_map_left_iff, forall₂_map_right_iff]
      exact hr.imp fun _ _ h => Alike.getD h .invalid
    · exact h
  | _ => exact h

lemma valueTypes_call (targets : List Node) (m : Mark) (fn : Node)
    (args : List Node) (types : List Ty) :
    valueTypes targets [.call m fn args] types = (do
      let apart :=
        if types.length == targets.length then types else replicate targets.length .invalid
      if targets.length ≤ 1 then return apart
      else
        let r ← get
        return resultTypes targets.length apart
            ((r.info.typeOf fn).underlying r.info.underlying)) := by
  rw [valueTypes]
  dsimp only
  split
  · rfl
  · refine StateT.ext fun r => ?_
    show StateT.run (match (r.info.typeOf fn).underlying r.info.underlying with
      | .func _ _ results => _
      | _ => _ : Resolve (List Ty)) r =
        (resultTypes _ _ ((r.info.typeOf fn).underlying r.info.underlying), r)
    cases (r.info.typeOf fn).underlying r.info.underlying <;> rfl

omit hL in
lemma Link.Agree.typeOf (h : L.Agree r r') {n : Node} (hn : L.knows n.id) :
    Alike L.matching (r.info.typeOf n) (r'.info.typeOf (n.relabel L.labels)) := by
  rw [Info.typeOf, Info.typeOf, Node.id_relabel]
  exact Alike.getD (h.types hn) .invalid

lemma sim_valueTypes {targets values : List Node} {types types' : List Ty}
    (hvalues : ∀ n ∈ preorderAll values, L.knows n.id)
    (htypes : p → Forall₂ (Alike L.matching) types types') :
    Sim L p [] (valueTypes targets values types)
      (valueTypes (relabelAll L.labels targets) (relabelAll L.labels values) types')
      (Forall₂ (Alike L.matching)) := by
  have hapart : p → Forall₂ (Alike L.matching)
      (if types.length == targets.length then types else replicate targets.length .invalid)
      (if types'.length == (relabelAll L.labels targets).length then types'
        else replicate (relabelAll L.labels targets).length .invalid) := by
    intro hp
    rw [length_relabelAll, (htypes hp).length_eq]
    split
    · exact htypes hp
    · exact forall₂_replicate _
  rcases values with _ | ⟨v, _ | ⟨w, vs⟩⟩
  · exact sim_pure hapart
  · cases v with
    | call m fn args =>
      rw [relabelAll, relabelAll, Node.relabel, valueTypes_call, valueTypes_call]
      refine sim_ite (fun _ => by rw [length_relabelAll]) (sim_pure hapart)
        (sim_get.after fun r r' => ?_)
      refine sim_pure fun hp => ?_
      rw [length_relabelAll]
      have hfn : L.knows fn.id := hvalues fn
        (mem_preorderAll_of_child (mem_preorderAll_of_mem mem_cons_self) mem_cons_self)
      have happly := hapart hp.1
      rw [length_relabelAll] at happly
      exact forall₂_resultTypes _ happly ((hp.2.typeOf hfn).underlying hp.2.underlying)
    | _ => exact sim_pure hapart
  · cases v <;> exact sim_pure hapart

end Recast.Lockstep
