import Recast.Flow.Lower
import Recast.Proofs.Flow.Behaviour
import Recast.Proofs.Flow.Spelling

/-!
# Graphs that have a behaviour

What it takes for a part of a graph to do what a behaviour says, and nothing else.

`Graph.Realizes g exits p q B` is about the part of `g` that is entered at the position `p` and left
towards `q` or by one of the exits.  It has two directions.  What `B` can do, control can go through
(`spells`); and whatever control goes through from `p` on begins with something that `B` can do
(`splits`).

There is one lemma for each way of putting behaviours together.  None of them knows how graphs are
made: they only ask which node stands at a position (`Holds`) and where control goes at the end of a
block (`EndsAt`).  The one for loops, `Realizes.rounds`, is where the number of edges in `Spells` is
needed.
-/

namespace Recast.Flow.Graph

open List
open Behaviour

/-- Where control goes after a statement, if it goes anywhere. -/
def landing (exits : List Exit) (q : Position) : Ending → Option Position
  | .through => some q
  | .broken => (Lower.breakTarget? exits).map (⟨·, 0⟩)
  | .continued => (Lower.continueTarget? exits).map (⟨·, 0⟩)
  | .halted => none
  | .running => none

/-- What control can go through after a statement that ended in some way. -/
def Follows (g : Graph) (k : Nat) (exits : List Exit) (q : Position) (e : Ending) (t : List Node) :
    Prop :=
  match landing exits q e with
  | some r => g.Spells k r t
  | none => t = []

/-- **Realizing a behaviour.**  What control can go through from `p` on is what the behaviour can
do, followed by what control can go through after that.  The number of edges never grows on the way,
which is what lets a loop be taken apart round by round. -/
structure Realizes (g : Graph) (exits : List Exit) (p q : Position) (B : Behaviour) : Prop where
  started : B [] .running
  spells : ∀ {k t e u}, B t e → g.Follows k exits q e u → ∃ k', g.Spells k' p (t ++ u)
  splits : ∀ {k w}, g.Spells k p w → ∃ t e u, w = t ++ u ∧ B t e ∧ g.Follows k exits q e u

variable {g : Graph} {exits : List Exit} {p q r : Position} {A B : Behaviour}

/-! ## After a statement -/

/-- Only a statement that comes to its end goes on at the position behind it. -/
lemma landing_of_ne {e : Ending} (h : e ≠ .through) : landing exits q e = landing exits r e := by
  cases e with
  | through => exact absurd rfl h
  | _ => rfl

lemma Follows.of_ne {k : Nat} {e : Ending} {t : List Node}
    (h : g.Follows k exits q e t) (he : e ≠ .through) :
    g.Follows k exits r e t := by
  rw [Follows, landing_of_ne he]
  exact h

lemma Follows.mono {k k' : Nat} {e : Ending} {t : List Node}
    (h : g.Follows k exits q e t) (hk : k ≤ k') :
    g.Follows k' exits q e t := by
  unfold Follows at h ⊢
  cases hl : landing exits q e with
  | none =>
    rw [hl] at h
    exact h
  | some r =>
    rw [hl] at h
    exact Spells.mono h hk

/-- Going through nothing is always possible. -/
lemma follows_nil {k : Nat} {e : Ending} : g.Follows k exits q e [] := by
  unfold Follows
  cases landing exits q e with
  | none => rfl
  | some r => exact .stop

/-! ## Simple behaviours -/

/-- Nothing at all is done on the spot. -/
lemma Realizes.skip : g.Realizes exits p p (stop .through) where
  started := ⟨rfl, Or.inr rfl⟩
  spells := by
    rintro k t e u ⟨rfl, rfl | rfl⟩ h
    · exact ⟨k, h⟩
    · obtain rfl : u = [] := h
      exact ⟨0, .stop⟩
  splits h := ⟨[], .through, _, rfl, ⟨rfl, Or.inl rfl⟩, h⟩

/-- A node runs where it stands. -/
lemma Realizes.emit {n : Node} (hn : g.Holds p n) : g.Realizes exits p p.next (emit n) where
  started := Or.inl ⟨rfl, rfl⟩
  spells := by
    rintro k t e u (⟨rfl, rfl⟩ | ⟨rfl, rfl⟩) h
    · obtain rfl : u = [] := h
      exact ⟨0, .stop⟩
    · exact ⟨k, .node hn h⟩
  splits := by
    intro k w h
    rcases h.of_holds hn with rfl | ⟨u, rfl, hu⟩
    · exact ⟨[], .running, [], rfl, Or.inl ⟨rfl, rfl⟩, follows_nil⟩
    · exact ⟨[n], .through, u, rfl, Or.inr ⟨rfl, rfl⟩, hu⟩

/-- A statement is left at the end of a block, from which at most one edge leads to where control
goes then. -/
lemma Realizes.stop {e : Ending} {target : Option Nat} (hp : g.EndsAt p target.toList)
    (he : landing exits q e = target.map (⟨·, 0⟩)) : g.Realizes exits p q (stop e) where
  started := ⟨rfl, Or.inr rfl⟩
  spells := by
    rintro k t e' u ⟨rfl, rfl | rfl⟩ h
    · cases target with
      | none =>
        rw [Follows, he] at h
        obtain rfl : u = [] := h
        exact ⟨0, .stop⟩
      | some b =>
        rw [Follows, he] at h
        exact ⟨k + 1, hp.spells (mem_singleton.mpr rfl) h⟩
    · obtain rfl : u = [] := h
      exact ⟨0, .stop⟩
  splits := by
    intro k w h
    rcases h.of_endsAt hp with rfl | ⟨b, hb, j, rfl, hj⟩
    · exact ⟨[], .running, [], rfl, ⟨rfl, Or.inr rfl⟩, follows_nil⟩
    · rw [Option.mem_toList] at hb
      refine ⟨[], e, w, rfl, ⟨rfl, Or.inl rfl⟩, ?_⟩
      rw [Follows, he, hb]
      exact Spells.mono hj (Nat.le_succ j)

/-! ## Putting behaviours together -/

/-- What ends where something else begins goes on with it. -/
lemma Realizes.seq (hA : g.Realizes exits p r A) (hB : g.Realizes exits r q B) :
    g.Realizes exits p q (A.seq B) where
  started := Or.inl ⟨hA.started, by decide⟩
  spells := by
    rintro k t e u (⟨ht, he⟩ | ⟨t₁, t₂, rfl, h₁, h₂⟩) hu
    · exact hA.spells ht (hu.of_ne he)
    · obtain ⟨k', hk'⟩ := hB.spells h₂ hu
      obtain ⟨k'', hk''⟩ := hA.spells (e := .through) h₁ hk'
      exact ⟨k'', by rwa [append_assoc]⟩
  splits := by
    intro k w h
    obtain ⟨t, e, u, rfl, ht, hu⟩ := hA.splits h
    by_cases he : e = .through
    · subst he
      obtain ⟨t', e', u', rfl, ht', hu'⟩ := hB.splits hu
      exact ⟨t ++ t', e', u', by rw [append_assoc], Or.inr ⟨t, t', rfl, ht, ht'⟩, hu'⟩
    · exact ⟨t, e, u, rfl, Or.inl ⟨ht, he⟩, hu.of_ne he⟩

/-- A block that is left along one edge ends where the edge leads. -/
lemma Realizes.jump {b : Nat} (hA : g.Realizes exits p r A) (hr : g.EndsAt r [b]) :
    g.Realizes exits p ⟨b, 0⟩ A where
  started := hA.started
  spells := by
    intro k t e u ht hu
    by_cases he : e = .through
    · subst he
      exact hA.spells ht (hr.spells (mem_singleton.mpr rfl) hu)
    · exact hA.spells ht (hu.of_ne he)
  splits := by
    intro k w h
    obtain ⟨t, e, u, rfl, ht, hu⟩ := hA.splits h
    refine ⟨t, e, u, rfl, ht, ?_⟩
    by_cases he : e = .through
    · subst he
      rcases Spells.of_endsAt hr hu with rfl | ⟨c, hc, j, rfl, hj⟩
      · exact follows_nil
      · rw [mem_singleton] at hc
        subst hc
        exact Spells.mono hj (Nat.le_succ j)
    · exact hu.of_ne he

/-- **Offering a behaviour.**  What can be done from the starts of some blocks on is, taken
together, what the behaviour can do. -/
structure Offers (g : Graph) (exits : List Exit) (targets : List Nat) (q : Position)
    (B : Behaviour) : Prop where
  offered : ∀ t e, B t e → ∃ b ∈ targets, ∃ A, g.Realizes exits ⟨b, 0⟩ q A ∧ A t e
  covered : ∀ b ∈ targets, ∃ A, g.Realizes exits ⟨b, 0⟩ q A ∧ ∀ t e, A t e → B t e

lemma offers_nil : g.Offers exits [] q (fun _ _ => False) :=
  ⟨fun _ _ h => h.elim, fun _ h => absurd h not_mem_nil⟩

lemma Realizes.offers {b : Nat} (hA : g.Realizes exits ⟨b, 0⟩ q A) : g.Offers exits [b] q A where
  offered _ _ h := ⟨b, mem_singleton.mpr rfl, A, hA, h⟩
  covered c hc := by
    obtain rfl := mem_singleton.mp hc
    exact ⟨A, hA, fun _ _ h => h⟩

/-- More blocks offer more. -/
lemma Offers.append {targets targets' : List Nat} (hA : g.Offers exits targets q A)
    (hB : g.Offers exits targets' q B) :
    g.Offers exits (targets ++ targets') q (choice A B) where
  offered := by
    rintro t e (h | h)
    · obtain ⟨b, hb, C, hC, hCt⟩ := hA.offered t e h
      exact ⟨b, mem_append_left _ hb, C, hC, hCt⟩
    · obtain ⟨b, hb, C, hC, hCt⟩ := hB.offered t e h
      exact ⟨b, mem_append_right _ hb, C, hC, hCt⟩
  covered := by
    intro b hb
    rcases mem_append.mp hb with hb | hb
    · obtain ⟨C, hC, hsub⟩ := hA.covered b hb
      exact ⟨C, hC, fun t e h => Or.inl (hsub t e h)⟩
    · obtain ⟨C, hC, hsub⟩ := hB.covered b hb
      exact ⟨C, hC, fun t e h => Or.inr (hsub t e h)⟩

/-- A switch without a default clause may also take none of its clauses. -/
lemma Offers.orNone {targets : List Nat} {done : Nat} (hasDefault : Bool)
    (hA : g.Offers exits targets ⟨done, 0⟩ A) :
    g.Offers exits (targets ++ if hasDefault then [] else [done]) ⟨done, 0⟩
      (fun t e => A t e ∨ hasDefault = false ∧ Behaviour.stop .through t e) := by
  cases hasDefault with
  | false =>
    have h : g.Offers exits (targets ++ [done]) ⟨done, 0⟩
        (fun t e => A t e ∨ Behaviour.stop .through t e) :=
      hA.append Realizes.skip.offers
    simpa using h
  | true => simpa using hA

/-- At the end of a block control takes one of the edges, so what is done then is what the
successors offer. -/
lemma Offers.branch {targets : List Nat} (h : g.Offers exits targets q B) (hp : g.EndsAt p targets)
    (hne : targets ≠ []) : g.Realizes exits p q B := by
  have hB : B [] .running := by
    obtain ⟨b, hb⟩ := exists_mem_of_ne_nil targets hne
    obtain ⟨A, hA, hsub⟩ := h.covered b hb
    exact hsub [] .running hA.started
  refine ⟨hB, ?_, ?_⟩
  · intro k t e u ht hu
    obtain ⟨b, hb, A, hA, hAt⟩ := h.offered t e ht
    obtain ⟨k', hk'⟩ := hA.spells hAt hu
    exact ⟨k' + 1, hp.spells hb hk'⟩
  · intro k w hw
    rcases hw.of_endsAt hp with rfl | ⟨b, hb, j, rfl, hj⟩
    · exact ⟨[], .running, [], rfl, hB, follows_nil⟩
    · obtain ⟨A, hA, hsub⟩ := h.covered b hb
      obtain ⟨t, e, u, rfl, ht, hu⟩ := hA.splits hj
      exact ⟨t, e, u, rfl, hsub t e ht, hu.mono (Nat.le_succ j)⟩

/-- Two edges, two things to do. -/
lemma Realizes.choice {b c : Nat} (hp : g.EndsAt p [b, c]) (hA : g.Realizes exits ⟨b, 0⟩ q A)
    (hB : g.Realizes exits ⟨c, 0⟩ q B) : g.Realizes exits p q (choice A B) :=
  (hA.offers.append hB.offers).branch hp (by simp)

/-- A switch takes up `break`: inside it, `break` goes where the switch ends. -/
lemma Realizes.breakable {done : Nat} (hA : g.Realizes (⟨done, none⟩ :: exits) p ⟨done, 0⟩ A) :
    g.Realizes exits p ⟨done, 0⟩ (breakable A) := by
  -- all endings but `break` land at the same place inside and outside
  have hland : ∀ {k e u}, e ≠ .broken →
      (g.Follows k (⟨done, none⟩ :: exits) ⟨done, 0⟩ e u ↔ g.Follows k exits ⟨done, 0⟩ e u) := by
    intro k e u he
    cases e with
    | broken => exact absurd rfl he
    | _ => rfl
  refine ⟨Or.inl ⟨hA.started, by decide⟩, ?_, ?_⟩
  · rintro k t e u (⟨ht, he⟩ | ⟨ht, rfl⟩) hu
    · exact hA.spells ht ((hland he).mpr hu)
    · exact hA.spells (e := .broken) ht hu
  · intro k w h
    obtain ⟨t, e, u, rfl, ht, hu⟩ := hA.splits h
    by_cases he : e = .broken
    · subst he
      exact ⟨t, .through, u, rfl, Or.inr ⟨ht, rfl⟩, hu⟩
    · exact ⟨t, e, u, rfl, Or.inl ⟨ht, he⟩, (hland he).mp hu⟩

/-- **Loops.**  The head leads to the body and perhaps out, the body ends where the next round is
prepared, and that ends at the head again.

To take a way apart, go by the number of its edges: the way into the body costs one, so the next
round has fewer. -/
lemma Realizes.rounds {loop bodyBlock done cont : Nat} {targets : List Nat}
    {head body between : Behaviour}
    {hasExit : Prop} (hhead : g.Realizes exits ⟨loop, 0⟩ r head) (hr : g.EndsAt r targets)
    (hin : bodyBlock ∈ targets) (hout : hasExit → done ∈ targets)
    (htargets : ∀ b ∈ targets, b = bodyBlock ∨ hasExit ∧ b = done)
    (hbody : g.Realizes (⟨done, some cont⟩ :: exits) ⟨bodyBlock, 0⟩ ⟨cont, 0⟩ body)
    (hbetween : g.Realizes exits ⟨cont, 0⟩ ⟨loop, 0⟩ between) :
    g.Realizes exits ⟨loop, 0⟩ ⟨done, 0⟩ (rounds head body between hasExit) := by
  -- both `continue` and the end of the body lead to the preparation of the next round
  have hresume : ∀ {k e u}, e = .through ∨ e = .continued →
      (g.Follows k (⟨done, some cont⟩ :: exits) ⟨cont, 0⟩ e u ↔ g.Spells k ⟨cont, 0⟩ u) := by
    rintro k e u (rfl | rfl)
    · rfl
    · rfl
  -- behind the head, control enters the body
  have henter : ∀ {k t u}, head t .through → g.Spells k ⟨bodyBlock, 0⟩ u →
      ∃ k', g.Spells k' ⟨loop, 0⟩ (t ++ u) :=
    fun ht hu => hhead.spells (e := .through) ht (hr.spells hin hu)
  refine ⟨.start, ?_, ?_⟩
  · intro k t e u ht hu
    induction ht generalizing k u with
    | start =>
      obtain rfl : u = [] := hu
      exact ⟨0, .stop⟩
    | head ht he => exact hhead.spells ht (hu.of_ne he)
    | exit ht hexit => exact hhead.spells (e := .through) ht (hr.spells (hout hexit) hu)
    | @inside t v e ht hv he =>
      have hu' : g.Follows k (⟨done, some cont⟩ :: exits) ⟨cont, 0⟩ e u := by
        rcases he with rfl | rfl
        · exact hu
        · exact hu
      obtain ⟨k', hk'⟩ := hbody.spells hv hu'
      rw [append_assoc]
      exact henter ht hk'
    | left ht hv =>
      obtain ⟨k', hk'⟩ := hbody.spells (e := .broken) hv hu
      rw [append_assoc]
      exact henter ht hk'
    | between ht hv he hw he' =>
      obtain ⟨k₁, h₁⟩ := hbetween.spells hw (hu.of_ne he')
      obtain ⟨k₂, h₂⟩ := hbody.spells hv ((hresume he).mpr h₁)
      rw [append_assoc, append_assoc]
      exact henter ht h₂
    | again ht hv he hw _ ih =>
      obtain ⟨k₁, h₁⟩ := ih hu
      obtain ⟨k₂, h₂⟩ := hbetween.spells (e := .through) hw h₁
      obtain ⟨k₃, h₃⟩ := hbody.spells hv ((hresume he).mpr h₂)
      rw [append_assoc, append_assoc, append_assoc]
      exact henter ht h₃
  · intro k
    induction k using Nat.strong_induction_on with
    | _ k ih =>
      intro w h
      obtain ⟨t, e, u, rfl, ht, hu⟩ := hhead.splits h
      by_cases he : e = .through
      · subst he
        rcases Spells.of_endsAt hr hu with rfl | ⟨b, hb, j, rfl, hj⟩
        · exact ⟨t ++ [], .running, [], by simp, .inside ht hbody.started (Or.inr rfl), follows_nil⟩
        rcases htargets b hb with rfl | ⟨hexit, rfl⟩
        · obtain ⟨v, e', u', rfl, hv, hu'⟩ := hbody.splits hj
          by_cases hgo : e' = .through ∨ e' = .continued
          · obtain ⟨x, e'', u'', rfl, hx, hu''⟩ := hbetween.splits ((hresume hgo).mp hu')
            by_cases he'' : e'' = .through
            · subst he''
              obtain ⟨y, f, z, rfl, hy, hz⟩ := ih j (Nat.lt_succ_self j) hu''
              exact ⟨t ++ (v ++ (x ++ y)), f, z, by simp, .again ht hv hgo hx hy,
                hz.mono (Nat.le_succ j)⟩
            · exact ⟨t ++ (v ++ x), e'', u'', by simp, .between ht hv hgo hx he'',
                (hu''.of_ne he'').mono (Nat.le_succ j)⟩
          · cases e' with
            | through => exact absurd (Or.inl rfl) hgo
            | continued => exact absurd (Or.inr rfl) hgo
            | broken =>
              exact ⟨t ++ v, .through, u', by simp, .left ht hv, Spells.mono hu' (Nat.le_succ j)⟩
            | halted => exact ⟨t ++ v, .halted, u', by simp, .inside ht hv (Or.inl rfl), hu'⟩
            | running => exact ⟨t ++ v, .running, u', by simp, .inside ht hv (Or.inr rfl), hu'⟩
        · exact ⟨t, .through, u, rfl, .exit ht hexit, Spells.mono hj (Nat.le_succ j)⟩
      · exact ⟨t, e, u, rfl, .head ht he, hu.of_ne he⟩

end Recast.Flow.Graph
