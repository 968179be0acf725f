import Mathlib.Logic.Relation
import Recast.Proofs.Flow.Executions

/-!
# Lowering step by step

The lowering of a function as a sequence of small moves, so that what holds of every graph can be
shown move by move, without regard to how statements are nested.

**Progress.**  `Progress` is a graph in the making with what the recursion over the statements
knows: the compound statements that have been begun (`Opened`), each with the blocks that were
reserved for it and wait to be entered, and the loops that are finished and the nodes that have been
placed (`Notes`).

**Moves.**  There are twelve kinds of `Move`.  An `if` and a loop are made of the same ones: blocks
are reserved, and the current block is left for one of them.  A switch has moves of its own, since
the edges to its clauses leave a block that is not the current one any more.

* `goes_stmtList` — lowering statements is a sequence of moves that begins and ends with the same
  statements begun.
* `Graph.moves_ofFunction` — the same for the graph of a function.
-/

namespace Recast

open List hiding range

/-! ## Loops of a statement -/

/-- The kind of the block with which a loop begins. -/
def Node.headKind? : Node → Option Flow.BlockKind
  | .forStmt .. => some .forLoop
  | .rangeStmt .. => some .rangeLoop
  | _ => none

mutual

/-- The loops of a statement in the order in which they end.  Those of a function inside an
expression are not among them. -/
def Node.loops : Node → List Node
  | .block (.mk _ stmts) => loopsAll stmts
  | .ifStmt _ init _ (.mk _ body) orElse =>
    loopsOption init ++ (loopsAll body ++ loopsOption orElse)
  | .forStmt m init cond post (.mk bm body) =>
    loopsOption init ++
      (loopsAll body ++ (loopsOption post ++ [.forStmt m init cond post (.mk bm body)]))
  | .rangeStmt m key value op x (.mk bm body) =>
    loopsAll body ++ [.rangeStmt m key value op x (.mk bm body)]
  | .switch _ init _ clauses => loopsOption init ++ loopsClauses clauses
  | _ => []

def loopsAll : List Node → List Node
  | [] => []
  | n :: ns => n.loops ++ loopsAll ns

def loopsOption : Option Node → List Node
  | none => []
  | some n => n.loops

def loopsClauses : List Clause → List Node
  | [] => []
  | .mk _ _ body :: cs => loopsAll body ++ loopsClauses cs

end

/-! ## Nodes of a statement -/

mutual

/-- The nodes of a statement that are placed, in this order. -/
def Node.lowered : Node → List Node
  | .block (.mk _ stmts) => loweredAll stmts
  | .branch .. => []
  | .ifStmt _ init cond (.mk _ body) orElse =>
    loweredOption init ++ cond :: (loweredAll body ++ loweredOption orElse)
  | .forStmt _ init cond post (.mk _ body) =>
    loweredOption init ++ (cond.toList ++ (loweredAll body ++ loweredOption post))
  | .rangeStmt m key value op x (.mk bm body) =>
    x :: .rangeStmt m key value op x (.mk bm body) :: loweredAll body
  | .switch _ init tag clauses =>
    loweredOption init ++
      (tag.toList ++ ((clauses.flatMap fun c => c.guards.getD []) ++ loweredClauses clauses))
  | n => [n]

def loweredAll : List Node → List Node
  | [] => []
  | n :: ns => n.lowered ++ loweredAll ns

def loweredOption : Option Node → List Node
  | none => []
  | some n => n.lowered

/-- The guards of all clauses are placed before the first body. -/
def loweredClauses : List Clause → List Node
  | [] => []
  | .mk _ _ body :: cs => loweredAll body ++ loweredClauses cs

end

/-- A property that goes from a node to its children, unless a function begins there. -/
def Flow.Inherited (P : Node → Prop) : Prop :=
  ∀ n, n.isFunction = false → P n → ∀ c ∈ n.children, P c

/-- What is placed for statements are the statements and what is below them, down to the next
function. -/
lemma forall_mem_loweredAll {P : Node → Prop} (hP : Flow.Inherited P) (stmts : List Node)
    (h : ∀ n ∈ stmts, P n) :
    ∀ n ∈ loweredAll stmts, P n := by
  refine loweredAll.induct (fun n => P n → ∀ m ∈ n.lowered, P m)
    (fun cs => (∀ c ∈ cs, P (.clause c)) → ∀ m ∈ loweredClauses cs, P m)
    (fun stmts => (∀ n ∈ stmts, P n) → ∀ m ∈ loweredAll stmts, P m)
    (fun n => (∀ m ∈ n.toList, P m) → ∀ m ∈ loweredOption n, P m)
    ?block ?branch ?ifStmt ?forStmt ?rangeStmt ?switch ?simple ?missing ?present ?nil ?cons
      ?noClause ?clause stmts h
  case block =>
    intro m stmts ih hn
    rw [Node.lowered]
    exact ih (hP _ rfl hn)
  case ifStmt =>
    intro m init cond bm body orElse hinit hbody helse hn
    have h := hP _ rfl hn
    simp only [Node.children, forall_mem_append, forall_mem_cons] at h
    simp only [Node.lowered, forall_mem_append, forall_mem_cons]
    exact ⟨hinit h.1.1, h.1.2.1, hbody (hP _ rfl h.1.2.2.1), helse h.2⟩
  case forStmt =>
    intro m init cond post bm body hinit hbody hpost hn
    have h := hP _ rfl hn
    simp only [Node.children, forall_mem_append, forall_mem_cons] at h
    simp only [Node.lowered, forall_mem_append]
    exact ⟨hinit h.1.1.1, h.1.1.2, hbody (hP _ rfl h.2.1), hpost h.1.2⟩
  case rangeStmt =>
    intro m key value op x bm body hbody hn
    have h := hP _ rfl hn
    simp only [Node.children, forall_mem_append, forall_mem_cons] at h
    simp only [Node.lowered, forall_mem_cons]
    exact ⟨h.2.1, hn, hbody (hP _ rfl h.2.2.1)⟩
  case switch =>
    intro m init tag clauses hinit hclauses hn
    have h := hP _ rfl hn
    simp only [Node.children, forall_mem_append, forall_mem_map] at h
    simp only [Node.lowered, forall_mem_append, forall_mem_flatMap]
    refine ⟨hinit h.1.1, h.1.2, ?_, hclauses h.2⟩
    rintro ⟨cm, guards, body⟩ hc n hguard
    exact hP _ rfl (h.2 _ hc) n (mem_append_left _ hguard)
  case simple =>
    intro n hblock hbranch hif hfor hrange hswitch hn
    rw [Node.lowered]
    · exact forall_mem_singleton.mpr hn
    all_goals assumption
  case present =>
    intro n ih hn
    rw [loweredOption]
    exact ih (hn n (by simp))
  case cons =>
    intro n ns ih ihs hns
    rw [loweredAll]
    exact forall_mem_append.mpr
      ⟨ih (hns n mem_cons_self), ihs fun x hx => hns x (mem_cons_of_mem n hx)⟩
  case branch | missing | nil | noClause =>
    simp [Node.lowered, loweredOption, loweredAll, loweredClauses]
  case clause =>
    intro m guards body cs ih ihs hcs
    rw [loweredClauses]
    refine forall_mem_append.mpr ⟨ih fun x hx => ?_, ihs fun c hc => hcs c (mem_cons_of_mem _ hc)⟩
    exact hP _ rfl (hcs _ mem_cons_self) x (mem_append_right _ hx)

/-- The nodes in the body of a function that are placed. -/
def Node.bodyLowered (fn : Node) : List Node :=
  match fn.functionBody with
  | none => []
  | some (.mk _ stmts) => loweredAll stmts

/-- The loops in the body of a function. -/
def Node.bodyLoops (fn : Node) : List Node :=
  match fn.functionBody with
  | none => []
  | some (.mk _ stmts) => loopsAll stmts

namespace Flow

open Lowering

/-- The kinds of the blocks with which loops begin. -/
def BlockKind.isLoop : BlockKind → Bool
  | .forLoop => true
  | .rangeLoop => true
  | _ => false

/-! ## Progress -/

/-- A compound statement that has been begun. -/
structure Opened where
  /-- The blocks that were reserved for the statement and have not been entered. -/
  waiting : List Nat := []
  /-- The loop and its first block, if the statement is a loop. -/
  loop : Option (Node × Nat) := none
  /-- Where `break` and `continue` go from the part that is being lowered. -/
  exit : Option Exit := none
  /-- The block at the end of which a switch is decided. -/
  dispatch : Option Nat := none

namespace Opened

/-- The first block of a loop. -/
def head? (o : Opened) : Option Nat := o.loop.map Prod.snd

/-- `break` goes to a block that waits, and `continue` to one that waits or to the first block of
the loop. -/
def Fits (o : Opened) : Prop :=
  ∀ e ∈ o.exit, e.breakTo ∈ o.waiting ∧ ∀ c ∈ e.continueTo, c ∈ o.waiting ∨ o.head? = some c

end Opened

/-- Where `break` and `continue` go, innermost first. -/
def exitsOf (os : List Opened) : List Exit := os.filterMap Opened.exit

/-- What has been done. -/
structure Notes where
  /-- The loops that are finished, in this order. -/
  finished : List Node := []
  /-- The nodes that have been placed, in this order. -/
  placed : List Node := []

namespace Notes

/-- More loops are finished, and more nodes are placed. -/
def add (ls : Notes) (loops placed : List Node) : Notes :=
  ⟨ls.finished ++ loops, ls.placed ++ placed⟩

lemma add_nil (ls : Notes) : ls.add [] [] = ls := by
  rw [add, append_nil, append_nil]

lemma add_add (ls : Notes) (loops placed loops' placed' : List Node) :
    (ls.add loops placed).add loops' placed' = ls.add (loops ++ loops') (placed ++ placed') := by
  simp only [add, append_assoc]

end Notes

/-- **Progress.**  How far the lowering of a function has come. -/
structure Progress where
  state : Lowering
  /-- The statements that have been begun, innermost first. -/
  opened : List Opened
  /-- Whether the next node goes to the current block.  This is not so between the clauses of a
  switch. -/
  live : Bool
  notes : Notes

/-- Where a jump leads and what kind of edge it makes.  A jump that leads nowhere makes none. -/
inductive Jump (exits : List Exit) : Option Nat → EdgeKind → Prop where
  | nowhere (kind : EdgeKind) : Jump exits none kind
  | breakOut {b : Nat} : Lower.breakTarget? exits = some b → Jump exits (some b) .breakOut
  | continueOn {c : Nat} : Lower.continueTarget? exits = some c → Jump exits (some c) .continueOn

/-- How a block can be left for blocks that wait: on one way or, at a condition, on two. -/
inductive Onward (waiting : List Nat) : List (Nat × EdgeKind) → Prop where
  | single {b : Nat} : b ∈ waiting → Onward waiting [(b, .fallThrough)]
  | branch {b c : Nat} : b ∈ waiting → c ∈ waiting →
      Onward waiting [(b, .branchTrue), (c, .branchFalse)]

/-- **Moves.**  What a lowering does from one moment to the next. -/
inductive Move : Progress → Progress → Prop where
  /-- A node is added to the current block. -/
  | place {s os ls} (n : Node) : Move ⟨s, os, true, ls⟩ ⟨s.placed n, os, true, ls.add [] [n]⟩
  /-- The current block ends for good, and a block begins to which no edge leads. -/
  | cut {s os ls target kind} (log : Log) (jump : Jump (exitsOf os) target kind) :
      Move ⟨s, os, true, ls⟩
        ⟨{ s.cut (target.toList.map fun b => (b, kind)) with log := log }, os, true, ls⟩
  /-- A condition begins. -/
  | begin {s os ls} : Move ⟨s, os, true, ls⟩ ⟨s, {} :: os, true, ls⟩
  /-- A loop begins in a block of its own. -/
  | beginLoop {s os ls kind} (n : Node) (hkind : n.headKind? = some kind) :
      Move ⟨s, os, true, ls⟩
        ⟨(s.reserve kind).leaveTo [(s.size, .fallThrough)] s.size,
          { loop := some (n, s.size) } :: os, true, ls⟩
  /-- A block is reserved. -/
  | reserve {s o os ls} (kind : BlockKind) (hloop : kind.isLoop = false)
      (hkind : kind ≠ .unreachable) :
      Move ⟨s, o :: os, true, ls⟩
        ⟨s.reserve kind, { o with waiting := o.waiting ++ [s.size] } :: os, true, ls⟩
  /-- The current block is left for one that waits. -/
  | leave {s o os ls targets} (o' : Opened) (front : List Nat) (next : Nat) (rest : List Nat)
      (htargets : Onward o.waiting targets) (hwaiting : o.waiting = front ++ next :: rest)
      (hwaiting' : o'.waiting = front ++ rest) (hloop : o'.loop = o.loop)
      (hdispatch : o'.dispatch = o.dispatch)
      (hfits : o'.Fits) :
      Move ⟨s, o :: os, true, ls⟩ ⟨s.leaveTo targets next, o' :: os, true, ls⟩
  /-- A condition ends. -/
  | finish {s os ls} : Move ⟨s, {} :: os, true, ls⟩ ⟨s, os, true, ls⟩
  /-- A loop ends: an edge leads back to its first block. -/
  | finishLoop {s os ls n head done exit} :
      Move ⟨s, { waiting := [done], loop := some (n, head), exit := exit } :: os, true, ls⟩
        ⟨s.leaveTo [(head, .backEdge)] done, os, true, ls.add [n] []⟩
  /-- A switch begins. -/
  | beginSwitch {s os ls} :
      Move ⟨s, os, true, ls⟩
        ⟨s.reserve .switchDone,
          { waiting := [s.size], exit := some ⟨s.size, none⟩, dispatch := some s.current } :: os,
          false, ls⟩
  /-- A clause of a switch begins. -/
  | clause {s o os ls before kind} (hbefore : o.dispatch = some before)
      (hkind : kind = .switchCase ∨ kind = .switchDefault) :
      Move ⟨s, o :: os, false, ls⟩ ⟨clauseStart s before kind, o :: os, true, ls⟩
  /-- A clause of a switch ends. -/
  | endClause {s o os ls done} (hdone : done ∈ o.waiting) :
      Move ⟨s, o :: os, true, ls⟩ ⟨s.linked s.current [(done, .fallThrough)], o :: os, false, ls⟩
  /-- A switch ends. -/
  | finishSwitch {s os ls before done exit targets}
      (htargets : targets = [] ∨ targets = [(done, .switchDefault)]) :
      Move ⟨s, { waiting := [done], exit := exit, dispatch := some before } :: os, false, ls⟩
        ⟨{ s.linked before targets with current := done }, os, true, ls⟩

/-- Any number of moves. -/
abbrev Moves : Progress → Progress → Prop := Relation.ReflTransGen Move

/-! ## Statements -/

/-- Whenever a step of the lowering is taken among these statements, it is a sequence of moves that
finishes these loops and places these nodes. -/
def Goes (os : List Opened) (x : Lower Unit) (loops placed : List Node) : Prop :=
  ∀ (s : Lowering) (ls : Notes),
    Moves ⟨s, os, true, ls⟩ ⟨(x.run s).2, os, true, ls.add loops placed⟩

section Statements

open Lower

variable {exits : List Exit} {os : List Opened} {x y : Lower Unit} {ks ks' ns ns' : List Node}
  {ls : Notes} {m bm : Mark}
  {init cond post orElse tag key value : Option Node} {body : List Node} {clauses : List Clause}

lemma goes_return : Goes os (return ()) [] [] := by
  intro s ls
  rw [Notes.add_nil]
  exact .refl

lemma Goes.seq (hx : Goes os x ks ns) (hy : Goes os y ks' ns') :
    Goes os (do x; y) (ks ++ ks') (ns ++ ns') := by
  intro s ls
  rw [← Notes.add_add]
  exact (hx s ls).trans (hy _ _)

/-- A step that finishes no loop, and then another one. -/
lemma Goes.before (hx : Goes os x [] ns) (hy : Goes os y ks ns') :
    Goes os (do x; y) ks (ns ++ ns') := hx.seq hy

lemma goes_place (n : Node) : Goes os (place n) [] [n] := fun _ _ => .single (.place n)

lemma Goes.after_place (n : Node) (hy : Goes os y ks ns) : Goes os (do place n; y) ks (n :: ns) :=
  (goes_place n).before hy

lemma goes_placeAll (ns : List Node) : Goes os (placeAll ns) [] ns := by
  induction ns with
  | nil => exact goes_return
  | cons n ns ih => exact ih.after_place n

lemma goes_cutOff : Goes os cutOff [] [] := by
  intro s ls
  rw [Notes.add_nil]
  exact .single (.cut s.log (.nowhere .fallThrough))

lemma goes_leave (word : String) : Goes os (leave (exitsOf os) word) [] [] := by
  intro s ls
  rw [Notes.add_nil, leave]
  by_cases hword : (word == "break") = true
  · rw [if_pos hword]
    cases ht : breakTarget? (exitsOf os) with
    | none => exact .single (.cut _ (.nowhere .breakOut))
    | some b => exact .single (.cut s.log (.breakOut ht))
  · rw [if_neg hword]
    cases ht : continueTarget? (exitsOf os) with
    | none => exact .single (.cut _ (.nowhere .continueOn))
    | some c => exact .single (.cut s.log (.continueOn ht))

/-- Lowering a statement finishes its loops and places its nodes. -/
def GoesStmt (os : List Opened) (exits : List Exit) (n : Node) : Prop :=
  Goes os (stmt exits n) n.loops n.lowered

/-- Nothing is said about where `break` goes inside a condition. -/
lemma Opened.fits_of_exit {o : Opened} (h : o.exit = none) : o.Fits := by
  intro e he
  rw [h] at he
  cases he

lemma goes_ifStmt {cond : Node}
    (hinit : Goes os (stmtOption exits init) (loopsOption init) (loweredOption init))
    (hbody : ∀ o : Opened, o.exit = none →
      Goes (o :: os) (stmtList exits body) (loopsAll body) (loweredAll body))
    (helse : ∀ n, orElse = some n → ∀ o : Opened, o.exit = none → GoesStmt (o :: os) exits n) :
    GoesStmt os exits (.ifStmt m init cond (.mk bm body) orElse) := by
  rw [GoesStmt, stmt, Node.loops, Node.lowered]
  refine hinit.seq (.after_place cond ?_)
  intro s ls
  cases orElse with
  | none =>
    let done := (s.reserve .ifThen).size
    have h₀ : Moves ⟨s, os, true, ls⟩
        ⟨(s.reserve .ifThen).reserve .ifDone, { waiting := [s.size, done] } :: os, true, ls⟩ :=
      ((Relation.ReflTransGen.single .begin).tail (.reserve .ifThen rfl nofun)).tail
        (.reserve .ifDone rfl nofun)
    have h₁ := h₀.tail (.leave { waiting := [done] } [] s.size [done]
      (.branch (b := s.size) (c := done) (by simp) (by simp)) rfl rfl rfl rfl
      (Opened.fits_of_exit rfl))
    have h₂ := (h₁.trans (hbody _ rfl _ _)).tail
      (.leave {} [] done [] (.single (mem_singleton_self done)) rfl rfl rfl rfl
        (Opened.fits_of_exit rfl))
    rw [loopsOption, loweredOption, append_nil, append_nil]
    exact h₂.tail .finish
  | some n =>
    let elseBlock := (s.reserve .ifThen).size
    let done := ((s.reserve .ifThen).reserve .ifElse).size
    have h₀ : Moves ⟨s, os, true, ls⟩ ⟨((s.reserve .ifThen).reserve .ifElse).reserve .ifDone,
        { waiting := [s.size, elseBlock, done] } :: os, true, ls⟩ :=
      (((Relation.ReflTransGen.single .begin).tail (.reserve .ifThen rfl nofun)).tail
        (.reserve .ifElse rfl nofun)).tail
        (.reserve .ifDone rfl nofun)
    have h₁ := h₀.tail (.leave { waiting := [elseBlock, done] } [] s.size [elseBlock, done]
      (.branch (b := s.size) (c := elseBlock) (by simp) (by simp)) rfl rfl rfl rfl
      (Opened.fits_of_exit rfl))
    have h₂ := (h₁.trans (hbody _ rfl _ _)).tail (.leave { waiting := [done] } [] elseBlock [done]
      (.single (b := done) (by simp)) rfl rfl rfl rfl (Opened.fits_of_exit rfl))
    have h₃ := (h₂.trans (helse n rfl _ rfl _ _)).tail
      (.leave {} [] done [] (.single (mem_singleton_self done)) rfl rfl rfl rfl
        (Opened.fits_of_exit rfl))
    rw [loopsOption, loweredOption, ← Notes.add_add]
    exact h₃.tail .finish

/-- The head of a loop is left for the body and, if there is a condition, for the block behind the
loop. -/
lemma moves_enter {s : Lowering} {o : Opened} (cond : Option Node) (o' : Opened)
    (bodyBlock done : Nat) (rest : List Nat)
    (hwaiting : o.waiting = bodyBlock :: rest) (hdone : done ∈ rest) (hwaiting' : o'.waiting = rest)
    (hloop : o'.loop = o.loop) (hdispatch : o'.dispatch = o.dispatch) (hfits : o'.Fits) :
    Moves ⟨s, o :: os, true, ls⟩
      ⟨{ ((stmt.enter s.current bodyBlock done cond).run s).2 with current := bodyBlock },
        o' :: os, true, ls.add [] cond.toList⟩ := by
  have hbody : bodyBlock ∈ o.waiting := by
    rw [hwaiting]
    exact mem_cons_self
  have hdone' : done ∈ o.waiting := by
    rw [hwaiting]
    exact mem_cons_of_mem _ hdone
  cases cond with
  | none =>
    rw [Option.toList_none, Notes.add_nil]
    exact .single
      (.leave o' [] bodyBlock rest (.single hbody) hwaiting hwaiting' hloop hdispatch hfits)
  | some c =>
    exact (Relation.ReflTransGen.single (.place c)).tail
      (.leave o' [] bodyBlock rest (.branch hbody hdone') hwaiting hwaiting' hloop hdispatch hfits)

lemma goes_forStmt (hinit : Goes os (stmtOption exits init) (loopsOption init) (loweredOption init))
    (hbody : ∀ (loop done : Nat) (o : Opened), o.exit = some ⟨done, some loop⟩ →
      Goes (o :: os) (stmtList (⟨done, some loop⟩ :: exits) body) (loopsAll body) (loweredAll body))
    (hpost : ∀ n, post = some n → ∀ o : Opened, o.exit = none → GoesStmt (o :: os) exits n) :
    GoesStmt os exits (.forStmt m init cond post (.mk bm body)) := by
  rw [GoesStmt, stmt, Node.loops, Node.lowered]
  refine hinit.seq ?_
  intro s ls
  let loop := Node.forStmt m init cond post (.mk bm body)
  let head := (s.reserve .forLoop).leaveTo [(s.size, .fallThrough)] s.size
  let bodyBlock := head.size
  let done := (head.reserve .forBody).size
  have h₀ : Moves ⟨s, os, true, ls⟩
      ⟨(head.reserve .forBody).reserve .forDone,
          { waiting := [bodyBlock, done], loop := some (loop, s.size) } :: os, true, ls⟩ :=
    ((Relation.ReflTransGen.single (.beginLoop loop rfl)).tail (.reserve .forBody rfl nofun)).tail
      (.reserve .forDone rfl nofun)
  cases post with
  | none =>
    have h₁ := h₀.trans (moves_enter cond
      { waiting := [done], loop := some (loop, s.size), exit := some ⟨done, some s.size⟩ } bodyBlock
      done [done]
      rfl (mem_singleton_self done) rfl rfl rfl (by simp [Opened.Fits, Opened.head?]))
    have h₂ := (h₁.trans (hbody _ _ _ rfl _ _)).tail .finishLoop
    simp only [loopsOption, loweredOption, Notes.add_add, append_assoc, nil_append] at h₂ ⊢
    exact h₂
  | some n =>
    let postBlock := ((head.reserve .forBody).reserve .forDone).size
    have h₁ := h₀.tail (.reserve .forPost rfl nofun)
    have h₂ := h₁.trans (moves_enter cond
      { waiting := [done, postBlock], loop := some (loop, s.size),
        exit := some ⟨done, some postBlock⟩ } bodyBlock done
      [done, postBlock] rfl (by simp) rfl rfl rfl (by simp [Opened.Fits]))
    have h₃ := (h₂.trans (hbody _ _ _ rfl _ _)).tail
      (.leave { waiting := [done], loop := some (loop, s.size) } [done] postBlock []
        (.single (b := postBlock) (by simp))
        rfl rfl rfl rfl (Opened.fits_of_exit rfl))
    have h₄ := (h₃.trans (hpost n rfl _ rfl _ _)).tail .finishLoop
    simp only [loopsOption, loweredOption, Notes.add_add, append_assoc, nil_append, append_nil]
      at h₄ ⊢
    exact h₄

lemma goes_rangeStmt {op : String} {x : Node}
    (hbody : ∀ (loop done : Nat) (o : Opened), o.exit = some ⟨done, some loop⟩ →
      Goes (o :: os) (stmtList (⟨done, some loop⟩ :: exits) body)
        (loopsAll body) (loweredAll body)) :
    GoesStmt os exits (.rangeStmt m key value op x (.mk bm body)) := by
  rw [GoesStmt, stmt, Node.loops, Node.lowered]
  refine .after_place x ?_
  intro s ls
  let range := Node.rangeStmt m key value op x (.mk bm body)
  let head := ((s.reserve .rangeLoop).leaveTo [(s.size, .fallThrough)] s.size).placed range
  let done := (head.reserve .rangeBody).size
  have h₀ : Moves ⟨s, os, true, ls⟩ ⟨(head.reserve .rangeBody).reserve .rangeDone,
      { waiting := [head.size, done], loop := some (range, s.size) } :: os,
      true, ls.add [] [range]⟩ :=
    (((Relation.ReflTransGen.single (.beginLoop range rfl)).tail (.place range)).tail
      (.reserve .rangeBody rfl nofun)).tail
      (.reserve .rangeDone rfl nofun)
  have h₁ :=
    h₀.tail
      (.leave { waiting := [done], loop := some (range, s.size), exit := some ⟨done, some s.size⟩ }
        []
    head.size [done] (.branch (b := head.size) (c := done) (by simp) (by simp)) rfl rfl rfl rfl
    (by simp [Opened.Fits, Opened.head?]))
  have h₂ := (h₁.trans (hbody _ _ _ rfl _ _)).tail .finishLoop
  simp only [Notes.add_add, nil_append, append_nil] at h₂ ⊢
  exact h₂

/-- The clauses of a switch are lowered one after the other, with the switch as the innermost
statement. -/
def GoesClauses (o : Opened) (os : List Opened) (x : Lower Unit) (loops placed : List Node) :
    Prop :=
  ∀ (s : Lowering) (ls : Notes), Moves ⟨s, o :: os, false, ls⟩
    ⟨(x.run s).2, o :: os, false, ls.add loops placed⟩

lemma goesClauses_cons {o : Opened} {before done : Nat} {guards : Option (List Node)}
    (hbefore : o.dispatch = some before) (hdone : done ∈ o.waiting)
    (hbody : Goes (o :: os) (stmtList exits body) (loopsAll body) (loweredAll body))
    (hclauses : GoesClauses o os (clauseList exits before done clauses) (loopsClauses clauses)
      (loweredClauses clauses)) :
    GoesClauses o os (clauseList exits before done (.mk m guards body :: clauses))
      (loopsClauses (.mk m guards body :: clauses))
      (loweredClauses (.mk m guards body :: clauses)) := by
  intro s ls
  have hkind : ∀ kind, kind = (if guards.isNone then EdgeKind.switchDefault else .switchCase) →
      kind = .switchCase ∨ kind = .switchDefault := by
    rintro _ rfl
    split
    · exact .inr rfl
    · exact .inl rfl
  have h₀ : Moves ⟨s, o :: os, false, ls⟩ _ := .single (.clause hbefore (hkind _ rfl))
  have h₁ := ((h₀.trans (hbody _ _)).tail (.endClause hdone)).trans (hclauses _ _)
  rw [clauseList, loopsClauses, loweredClauses, ← Notes.add_add]
  exact h₁

lemma goes_switch (hinit : Goes os (stmtOption exits init) (loopsOption init) (loweredOption init))
    (hclauses : ∀ before done (o : Opened), o.dispatch = some before → done ∈ o.waiting →
      o.exit = some ⟨done, none⟩ →
      GoesClauses o os (clauseList (⟨done, none⟩ :: exits) before done clauses)
        (loopsClauses clauses) (loweredClauses clauses)) :
    GoesStmt os exits (.switch m init tag clauses) := by
  rw [GoesStmt, stmt, Node.loops, Node.lowered]
  refine hinit.seq ((goes_placeAll _).before ((goes_placeAll _).before ?_))
  intro s ls
  have h₀ : Moves ⟨s, os, true, ls⟩ _ := .single .beginSwitch
  have h₁ := h₀.trans (hclauses s.current s.size _ rfl (mem_singleton_self _) rfl _ _)
  cases hdefault : clauses.any Clause.isDefault with
  | false => exact h₁.tail (.finishSwitch (.inr rfl))
  | true => exact h₁.tail (.finishSwitch (.inl rfl))

lemma exitsOf_cons_none {o : Opened} (ho : o.exit = none) (hexits : exitsOf os = exits) :
    exitsOf (o :: os) = exits := by
  rw [exitsOf, filterMap_cons_none ho]
  exact hexits

lemma exitsOf_cons_some {o : Opened} {e : Exit} (ho : o.exit = some e)
    (hexits : exitsOf os = exits) :
    exitsOf (o :: os) = e :: exits := by
  rw [exitsOf, filterMap_cons_some ho]
  exact congrArg (e :: ·) hexits

/-- **Lowering is a sequence of moves**, at the end of which the statements around are where they
were. -/
theorem goes_stmtList (os : List Opened) (stmts : List Node) :
    Goes os (stmtList (exitsOf os) stmts) (loopsAll stmts) (loweredAll stmts) := by
  refine stmtList.induct (fun exits n => ∀ os, exitsOf os = exits → GoesStmt os exits n)
    (fun exits before done cs => ∀ os (o : Opened), exitsOf (o :: os) = exits →
      o.dispatch = some before → done ∈ o.waiting →
      GoesClauses o os (clauseList exits before done cs) (loopsClauses cs) (loweredClauses cs))
    (fun exits stmts => ∀ os, exitsOf os = exits →
      Goes os (stmtList exits stmts) (loopsAll stmts) (loweredAll stmts))
    (fun exits n => ∀ os, exitsOf os = exits →
      Goes os (stmtOption exits n) (loopsOption n) (loweredOption n))
    ?block ?ret ?branch ?ifStmt ?forStmt ?rangeStmt ?switch ?simple ?missing ?present ?nil
      ?cons ?noClause ?clause
    (exitsOf os) stmts os rfl
  case block =>
    intro exits m stmts ih os hexits
    rw [GoesStmt, stmt, Node.loops, Node.lowered]
    exact ih os hexits
  case ret =>
    intro exits m results os hexits
    rw [GoesStmt, stmt, Node.loops, Node.lowered]
    · exact .after_place _ goes_cutOff
    all_goals simp
  case branch =>
    rintro exits m word os rfl
    rw [GoesStmt, stmt, Node.loops, Node.lowered]
    · exact goes_leave word
    all_goals simp
  case ifStmt =>
    intro exits m init cond bm body orElse hinit ih os hexits
    refine goes_ifStmt (hinit os hexits) (fun o ho => ?_) ?_
    · cases orElse with
      | none => exact ih _ (exitsOf_cons_none ho hexits)
      | some n => exact ih.1 _ (exitsOf_cons_none ho hexits)
    · rintro n rfl o ho
      exact ih.2 _ (exitsOf_cons_none ho hexits)
  case forStmt =>
    intro exits m init cond post bm body hinit ih os hexits
    refine goes_forStmt (hinit os hexits) (fun loop done o ho => ?_) ?_
    · have hinner := exitsOf_cons_some ho hexits
      cases post with
      | none => exact ih loop done _ hinner
      | some n => exact (ih loop done).1 loop _ hinner
    · rintro n rfl o ho
      exact (ih 0 0).2 _ (exitsOf_cons_none ho hexits)
  case rangeStmt =>
    intro exits m key value op x bm body ih os hexits
    exact goes_rangeStmt fun loop done o ho => ih loop done _ (exitsOf_cons_some ho hexits)
  case switch =>
    intro exits m init tag clauses hinit ih os hexits
    refine goes_switch (hinit os hexits) fun before done o hbefore hdone ho => ?_
    exact ih before done os o (exitsOf_cons_some ho hexits) hbefore hdone
  case simple =>
    intro exits n hblock hret hbranch hif hfor hrange hswitch os hexits
    rw [GoesStmt, stmt, Node.loops, Node.lowered]
    · exact goes_place n
    all_goals assumption
  case missing =>
    intro exits os hexits
    rw [stmtOption, loopsOption, loweredOption]
    exact goes_return
  case present =>
    intro exits n ih os hexits
    rw [stmtOption, loopsOption, loweredOption]
    exact ih os hexits
  case nil =>
    intro exits os hexits
    rw [stmtList, loopsAll, loweredAll]
    exact goes_return
  case cons =>
    intro exits n ns ih ihs os hexits
    rw [stmtList, loopsAll, loweredAll]
    exact (ih os hexits).seq (ihs os hexits)
  case noClause =>
    intro exits before done os o hexits hbefore hdone s ls
    rw [clauseList, loopsClauses, loweredClauses, Notes.add_nil]
    exact .refl
  case clause =>
    intro exits before done m guards body cs ih ihs os o hexits hbefore hdone
    exact goesClauses_cons hbefore hdone (ih _ hexits) (ihs os o hexits hbefore hdone)

end Statements

/-- The lowering of a function before and after its statements. -/
def Progress.start (fn : Node) : Progress := ⟨Graph.start fn, [], true, {}⟩

/-- **The graph of a function is made by moves**, at the end of which no statement is left open, the
loops of the function are finished and its nodes are placed. -/
theorem Graph.moves_ofFunction (fn : Node) :
    ∃ s : Lowering, s.graph = (ofFunction fn).1 ∧
    Moves (.start fn) ⟨s, [], true, ⟨fn.bodyLoops, fn.bodyLowered⟩⟩ := by
  refine ⟨((Lower.body fn.functionBody).run (start fn)).2, rfl, ?_⟩
  rw [Node.bodyLoops, Node.bodyLowered]
  cases fn.functionBody with
  | none => exact .refl
  | some body =>
    obtain ⟨m, stmts⟩ := body
    exact goes_stmtList [] stmts (start fn) {}

end Flow

end Recast
