import Recast.Proofs.Flow.Laying

/-!
# Graphs and executions

The graph of a function spells the beginnings of the executions of the function and nothing else.

* `lays_stmtList` — lowering statements lays what they do.
* `Graph.begins_iff_spelled` — what an execution can begin with is what the graph spells.
-/

namespace Recast.Flow

open List
open Behaviour Lowering

/-! ## Statements -/

section Statements

open Lower

attribute [local simp] stmt stmtOption stmtList clauseList ofStmt ofOption ofStmts ofClauses

variable {exits : List Exit} {m bm : Mark} {init cond post orElse tag key value : Option Node}
  {body : List Node} {clauses : List Clause}

lemma lays_ifStmt {cond : Node} (hinit : Lays exits (stmtOption exits init) (ofOption init))
    (hbody : Lays exits (stmtList exits body) (ofStmts body))
    (helse : ∀ n, orElse = some n → Lays exits (stmt exits n) (ofStmt n)) :
    Lays exits (stmt exits (.ifStmt m init cond (.mk bm body) orElse))
      (ofStmt (.ifStmt m init cond (.mk bm body) orElse)) := by
  rw [stmt, ofStmt]
  refine hinit.seq ((lays_place cond).seq ?_)
  intro s hs hw
  cases orElse with
  | none =>
    rw [ofOption]
    exact Laid.ifThen hs hw hbody
  | some n =>
    rw [ofOption]
    exact Laid.ifElse hs hw hbody (helse n rfl)

lemma lays_forStmt (hinit : Lays exits (stmtOption exits init) (ofOption init))
    (hbody : ∀ loop done, Lays (⟨done, some loop⟩ :: exits)
      (stmtList (⟨done, some loop⟩ :: exits) body) (ofStmts body))
    (hpost : ∀ n, post = some n → Lays exits (stmt exits n) (ofStmt n)) :
    Lays exits (stmt exits (.forStmt m init cond post (.mk bm body)))
      (ofStmt (.forStmt m init cond post (.mk bm body))) := by
  rw [stmt, ofStmt]
  refine hinit.seq ?_
  intro s hs hw
  cases post with
  | none =>
    rw [ofOption]
    cases cond with
    | none => exact Laid.loop .forLoop .forBody .forDone false hs hw lays_return (hbody _ _)
    | some c =>
      exact Laid.loop .forLoop .forBody .forDone true hs hw (lays_placeAll [c]) (hbody _ _)
  | some n =>
    have hn := hpost n rfl
    rw [ofOption]
    cases cond with
    | none =>
      exact Laid.loopPost .forLoop .forBody .forDone .forPost false hs hw lays_return (hbody _ _) hn
    | some c =>
      exact Laid.loopPost .forLoop .forBody .forDone .forPost true hs hw
        (lays_placeAll [c]) (hbody _ _) hn

lemma lays_rangeStmt {op : String} {x : Node}
    (hbody : ∀ loop done, Lays (⟨done, some loop⟩ :: exits)
      (stmtList (⟨done, some loop⟩ :: exits) body) (ofStmts body)) :
    Lays exits (stmt exits (.rangeStmt m key value op x (.mk bm body)))
      (ofStmt (.rangeStmt m key value op x (.mk bm body))) := by
  rw [stmt, ofStmt]
  refine (lays_place x).seq ?_
  intro s hs hw
  have h :=
    Laid.loopNode .rangeLoop .rangeBody .rangeDone (.rangeStmt m key value op x (.mk bm body)) hs hw
      (hbody _ _)
  exact h

/-- The clauses of a switch are laid one after the other. -/
def LaysClauses (exits : List Exit) (before done : Nat) (clauses : List Clause) : Prop :=
  ∀ s : Lowering, s.graph.Joined → before < s.size → done < s.size → Within s.size exits →
    ∃ entries, entries.length = clauses.length ∧
      LaidClauses exits before done s ((clauseList exits before done clauses).run s).2
        entries (ofClauses clauses)

lemma laysClauses_cons {before done : Nat} {guards : Option (List Node)}
    (hbody : Lays exits (stmtList exits body) (ofStmts body))
    (hclauses : LaysClauses exits before done clauses) :
    LaysClauses exits before done (.mk m guards body :: clauses) := by
  intro s hs hbefore hdone hw
  have hready :=
    ready_clauseStart (if guards.isNone then .switchDefault else .switchCase) hs hbefore
  have hA := hbody _ hready (hw.mono (by rw [size_clauseStart]; omega))
  have hsize := hA.grows.size_le
  rw [size_clauseStart] at hsize
  have hdone' : ∀ t ∈ [(done, EdgeKind.fallThrough)], t.1 < _ := fun t ht => by
    obtain rfl := mem_singleton.mp ht
    exact Nat.lt_of_lt_of_le hdone (Nat.le_trans (Nat.le_succ _) hsize)
  have hjoined := joined_linked hA.ready.joined hA.ready.current_lt hdone'
  obtain ⟨entries, hlength, hB⟩ :=
    hclauses _ hjoined (by rw [size_linked]; omega) (by rw [size_linked]; omega)
    (hw.mono (by rw [size_linked]; omega))
  refine ⟨s.size :: entries, congrArg Nat.succ hlength, ?_⟩
  rw [clauseList, ofClauses]
  exact hA.clause hbefore hB

lemma lays_switch (hinit : Lays exits (stmtOption exits init) (ofOption init))
    (hclauses : ∀ before done, LaysClauses (⟨done, none⟩ :: exits) before done clauses) :
    Lays exits (stmt exits (.switch m init tag clauses)) (ofStmt (.switch m init tag clauses)) := by
  rw [stmt, ofStmt]
  refine hinit.seq ((lays_placeAll _).seq ((lays_placeAll _).seq ?_))
  intro s hs hw
  have hlt := hs.current_lt
  obtain ⟨entries, hlength, hA⟩ :=
    hclauses s.current s.size (s.reserve .switchDone) (joined_reserve hs.joined _)
    (by rw [size_reserve]; omega) (by rw [size_reserve]; omega)
    ((hw.mono (by rw [size_reserve]; omega)).cons (by rw [size_reserve]; omega) (by simp))
  have hne : clauses.any Clause.isDefault = true → entries ≠ [] := by
    rintro hdefault rfl
    rw [eq_nil_of_length_eq_zero hlength.symm] at hdefault
    cases hdefault
  have h := hA.switch hs hne
  cases hdefault : clauses.any Clause.isDefault with
  | false =>
    rw [hdefault] at h
    exact h
  | true =>
    rw [hdefault] at h
    exact h

/-- **Lowering lays what the statements do.**  One induction along the lowering; every case is a
rule from above. -/
theorem lays_stmtList (exits : List Exit) (stmts : List Node) :
    Lays exits (stmtList exits stmts) (ofStmts stmts) := by
  refine stmtList.induct (fun exits n => Lays exits (stmt exits n) (ofStmt n)) LaysClauses
    (fun exits stmts => Lays exits (stmtList exits stmts) (ofStmts stmts))
    (fun exits n => Lays exits (stmtOption exits n) (ofOption n))
    ?block ?ret ?branch ?ifStmt ?forStmt ?rangeStmt ?switch ?simple ?missing ?present ?nil
      ?cons ?noClause ?clause
    exits stmts
  case block =>
    intro exits m stmts ih
    rw [stmt, ofStmt]
    exact ih
  case ret =>
    intro exits m results
    rw [stmt, ofStmt]
    exact (lays_place _).seq lays_cutOff
  case branch =>
    intro exits m word
    rw [stmt, ofStmt]
    exact lays_leave word
  case ifStmt =>
    intro exits m init cond bm body orElse hinit ih
    refine lays_ifStmt hinit ?_ ?_
    · cases orElse with
      | none => exact ih
      | some n => exact ih.1
    · rintro n rfl
      exact ih.2
  case forStmt =>
    intro exits m init cond post bm body hinit ih
    refine lays_forStmt hinit ?_ ?_
    · intro loop done
      cases post with
      | none => exact ih loop done
      | some n => exact (ih loop done).1 loop
    · rintro n rfl
      exact (ih 0 0).2
  case rangeStmt =>
    intro exits m key value op x bm body ih
    exact lays_rangeStmt ih
  case switch =>
    intro exits m init tag clauses hinit ih
    exact lays_switch hinit ih
  case simple =>
    intro exits n hblock hret hbranch hif hfor hrange hswitch
    rw [stmt, ofStmt]
    · exact lays_place n
    all_goals assumption
  case missing =>
    intro exits
    simpa using lays_return
  case present =>
    intro exits n ih
    simpa using ih
  case nil =>
    intro exits
    simpa using lays_return
  case cons =>
    intro exits n ns ih ihs
    simpa using ih.seq ihs
  case noClause =>
    intro exits before done s hs _ _ _
    rw [clauseList, ofClauses]
    exact ⟨[], rfl, .nil hs⟩
  case clause =>
    intro exits before done m guards body cs ih ihs
    exact laysClauses_cons ih ihs

end Statements

/-! ## Functions -/

namespace Graph

/-- The lowering of a function when nothing has been lowered yet. -/
def start (fn : Node) : Lowering := { graph := ({ function := some fn } : Graph).addBlock .entry }

lemma ready_start (fn : Node) : (start fn).Ready :=
  ⟨Nat.zero_lt_one, rfl, fun _ he => absurd he not_mem_nil⟩

/-- The lowering of a function lays what the function does. -/
lemma laid_ofFunction (fn : Node) :
    ∃ s : Lowering, s.graph = (ofFunction fn).1 ∧
    Laid [] (start fn) s (Behaviour.ofFunction fn) := by
  refine ⟨((Lower.body fn.functionBody).run (start fn)).2, rfl, ?_⟩
  rw [Behaviour.ofFunction]
  cases fn.functionBody with
  | none => exact lays_return _ (ready_start fn) (by simp [Within])
  | some body =>
    obtain ⟨m, stmts⟩ := body
    exact lays_stmtList [] stmts _ (ready_start fn) (by simp [Within])

/-- The edges of the graph of a function join blocks of the graph. -/
lemma joined_ofFunction (fn : Node) : (ofFunction fn).1.Joined := by
  obtain ⟨s, hs, h⟩ := laid_ofFunction fn
  exact hs ▸ h.ready.joined

/-- The graph of a function does, from its entry on, what the function does, and ends where no edge
leads on. -/
lemma realizes_ofFunction (fn : Node) : ∃ q, (ofFunction fn).1.EndsAt q [] ∧
    (ofFunction fn).1.Realizes [] ⟨0, 0⟩ q (Behaviour.ofFunction fn) := by
  obtain ⟨s, hs, h⟩ := laid_ofFunction fn
  rw [← hs]
  refine ⟨s.position, ⟨rfl, h.ready.unended⟩, ?_⟩
  exact h.realizes s.graph ⟨fun _ _ _ _ _ => ⟨rfl, rfl⟩, prefix_refl _⟩

/-- What an execution begins with is spelled by the graph. -/
lemma spelled_of_begins {fn : Node} {t : List Node} (h : Begins fn t) :
    (ofFunction fn).1.Spelled t := by
  obtain ⟨q, -, hfn⟩ := realizes_ofFunction fn
  obtain ⟨e, he⟩ := h
  have hspells := hfn.spells (k := 0) he follows_nil
  rw [append_nil] at hspells
  exact spelled_iff.mpr hspells

/-- What the graph spells is what some execution begins with: nothing comes after the end of the
function. -/
lemma begins_of_spelled {fn : Node} {t : List Node} (h : (ofFunction fn).1.Spelled t) :
    Begins fn t := by
  obtain ⟨q, hq, hfn⟩ := realizes_ofFunction fn
  obtain ⟨k, hk⟩ := spelled_iff.mp h
  obtain ⟨t, e, u, rfl, he, hu⟩ := hfn.splits hk
  have hnil : u = [] := by
    cases e with
    | through =>
      rcases Spells.of_endsAt hq hu with hnil | ⟨b, hb, -⟩
      · exact hnil
      · exact absurd hb not_mem_nil
    | _ => exact hu
  rw [hnil, append_nil]
  exact ⟨e, he⟩

/-- **The graph of a function spells the beginnings of its executions and nothing else.** -/
theorem begins_iff_spelled (fn : Node) (t : List Node) :
    Begins fn t ↔ (ofFunction fn).1.Spelled t :=
  ⟨spelled_of_begins, begins_of_spelled⟩

end Graph

end Recast.Flow
