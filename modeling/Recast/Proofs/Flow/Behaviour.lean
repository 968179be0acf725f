import Mathlib.Tactic.Common
import Recast.Syntax.Node

/-!
# What statements do

The executions of structured statements, told without a graph.  An execution is known by the nodes
it goes through, and nothing is known about the values, so a condition may come out either way and
any case of a switch may be the one that is taken.

**Observations.**  An execution may go on for ever, so it is looked at after finitely many nodes.  A
`Behaviour` says which sequences of nodes can be seen, each with its `Ending`: what became of the
statement when the last of them had run.  An execution that was looked at before the statement came
to an end is `running`; that can happen at any moment, and first of all before anything has run.

**Leaving a statement.**  `break`, `continue` and `return` end every statement around them, up to
the one that takes them up: a loop or a switch for `break` (`rounds`, `breakable`), a loop for
`continue`.  What nothing takes up ends the function.

* `Behaviour.ofStmt` — what a statement does.
* `Behaviour.ofFunction` — what a function does.
* `Begins` — the sequences of nodes with which an execution of a function can begin.
-/

namespace Recast.Flow

/-- What became of a statement. -/
inductive Ending where
  /-- It came to its end, and what stands behind it is next. -/
  | through
  /-- It was left by `break`. -/
  | broken
  /-- It was left by `continue`. -/
  | continued
  /-- The function is over. -/
  | halted
  /-- It is not over yet. -/
  | running
  deriving Repr, DecidableEq

/-- What can be seen of a statement: the nodes that have run, and what became of it. -/
abbrev Behaviour := List Node → Ending → Prop

namespace Behaviour

/-- Ends at once in the given way. -/
def stop (e : Ending) : Behaviour := fun t e' => t = [] ∧ (e' = e ∨ e' = .running)

/-- Runs one node. -/
def emit (n : Node) : Behaviour := fun t e => t = [] ∧ e = .running ∨ t = [n] ∧ e = .through

/-- One after the other, as long as the first comes to its end. -/
def seq (A B : Behaviour) : Behaviour := fun t e =>
  A t e ∧ e ≠ .through ∨ ∃ u v, t = u ++ v ∧ A u .through ∧ B v e

/-- One of two. -/
def choice (A B : Behaviour) : Behaviour := fun t e => A t e ∨ B t e

/-- Runs nodes from left to right. -/
def emitAll : List Node → Behaviour
  | [] => stop .through
  | n :: ns => seq (emit n) (emitAll ns)

/-- Takes up `break`, after which control goes on behind. -/
def breakable (A : Behaviour) : Behaviour := fun t e =>
  A t e ∧ e ≠ .broken ∨ A t .broken ∧ e = .through

/-- **The rounds of a loop.**  Every round begins with the head, after which the loop may be over if
it has a way out there.  The body follows, and `break` and `continue` in it belong to the loop.
What comes between two rounds stands outside the loop: a `break` there is one of the statement
around. -/
inductive rounds (head body between : Behaviour) (hasExit : Prop) : List Node → Ending → Prop where
  | start : rounds head body between hasExit [] .running
  | head {t e} : head t e → e ≠ .through → rounds head body between hasExit t e
  | exit {t} : head t .through → hasExit → rounds head body between hasExit t .through
  | inside {t u e} : head t .through → body u e → e = .halted ∨ e = .running →
      rounds head body between hasExit (t ++ u) e
  | left {t u} : head t .through → body u .broken →
      rounds head body between hasExit (t ++ u) .through
  | between {t u v e e'} : head t .through → body u e → e = .through ∨ e = .continued →
      between v e' → e' ≠ .through → rounds head body between hasExit (t ++ (u ++ v)) e'
  | again {t u v w e e'} : head t .through → body u e → e = .through ∨ e = .continued →
      between v .through → rounds head body between hasExit w e' →
      rounds head body between hasExit (t ++ (u ++ (v ++ w))) e'

/-- How a `break` or, with any other word, a `continue` ends the statements around it. -/
def endingOf (word : String) : Ending := if word == "break" then .broken else .continued

mutual

/-- What a statement does. -/
def ofStmt : Node → Behaviour
  | .block (.mk _ stmts) => ofStmts stmts
  | .ret m results => seq (emit (.ret m results)) (stop .halted)
  | .branch _ word => stop (endingOf word)
  | .ifStmt _ init cond (.mk _ body) orElse =>
    seq (ofOption init) (seq (emit cond) (choice (ofStmts body) (ofOption orElse)))
  | .forStmt _ init cond post (.mk _ body) =>
    seq (ofOption init)
      (rounds (emitAll cond.toList) (ofStmts body) (ofOption post) (cond.isSome = true))
  | .rangeStmt m key value op x (.mk bm body) =>
    seq (emit x) (rounds (emit (.rangeStmt m key value op x (.mk bm body)))
      (ofStmts body) (stop .through) True)
  | .switch _ init tag clauses =>
    seq (ofOption init)
      (seq (emitAll tag.toList) (seq (emitAll (clauses.flatMap fun c => c.guards.getD []))
      (breakable fun t e =>
        ofClauses clauses t e ∨ clauses.any Clause.isDefault = false ∧ stop .through t e)))
  | n => emit n

/-- What statements do one after the other. -/
def ofStmts : List Node → Behaviour
  | [] => stop .through
  | n :: ns => seq (ofStmt n) (ofStmts ns)

/-- What a statement does that may be missing. -/
def ofOption : Option Node → Behaviour
  | none => stop .through
  | some n => ofStmt n

/-- What the clauses of a switch do, of which one is taken. -/
def ofClauses : List Clause → Behaviour
  | [] => fun _ _ => False
  | .mk _ _ body :: cs => choice (ofStmts body) (ofClauses cs)

end

/-- What a function does.  A function without a body does nothing. -/
def ofFunction (fn : Node) : Behaviour :=
  match fn.functionBody with
  | none => stop .through
  | some (.mk _ stmts) => ofStmts stmts

end Behaviour

/-- **The beginnings of executions.**  A sequence of nodes with which some execution of a function
begins, whatever becomes of it after that. -/
def Begins (fn : Node) (t : List Node) : Prop := ∃ e, Behaviour.ofFunction fn t e

end Recast.Flow
