import Recast.Proofs.Checker.HeaderWrites

/-!
# Several targets

The verdict on an assignment all of whose targets are fields of variables.

A target *settles* the verdict if its variable is unknown or a header; a variable that is anything
else leaves the verdict to the next target.  The first target that settles the verdict decides
alone.  So a suspect target is *masked* by a safe one that stands before it, and then the assignment
is not reported; in all other cases it is reported exactly if one of its targets is suspect.  The
order of the targets matters.
-/

namespace Recast.HeaderMisuse

open List
open Recast.Flow

/-- A field of a variable as the target of an assignment. -/
structure FieldTarget where
  mark : Mark
  base : Ident
  field : Ident

namespace FieldTarget

/-- The target as a node. -/
def node (t : FieldTarget) : Node := .select t.mark (.ident t.base) t.field

/-- The variable is unknown or a header. -/
def Settles (info : Info) (t : FieldTarget) : Prop :=
  ∀ b, info.bindingOf? t.base = some b → (info.binding b).type.isHeaderShaped info.underlying = true

/-- The variable is unknown, or a header that is not genuine on the discovered way. -/
def Suspect (unit : CompilationUnit) (budget : Int) (stmt : Mark) (above : List Node)
    (t : FieldTarget) : Prop :=
  ∀ b, unit.info.bindingOf? t.base = some b →
    (unit.info.binding b).type.isHeaderShaped unit.info.underlying = true ∧
      ¬GenuineOnWay unit budget stmt above b

end FieldTarget

/-- **Masking.**  The first target that settles the verdict is safe, and a suspect one stands behind
it. -/
def Masked (unit : CompilationUnit) (budget : Int) (stmt : Mark) (above : List Node)
    (ts : List FieldTarget) : Prop :=
  ∃ front t rest, ts = front ++ t :: rest ∧ (∀ x ∈ front, ¬x.Settles unit.info) ∧
    t.Settles unit.info ∧
    ¬t.Suspect unit budget stmt above ∧ ∃ x ∈ rest, x.Suspect unit budget stmt above

section Verdict

variable {file : File} {unit : CompilationUnit} {budget : Int} {before after : List Visit}
  {v : Visit} {stmt : Mark} {above : List Node} {ts : List FieldTarget}

lemma FieldTarget.Suspect.settles {t : FieldTarget} (h : t.Suspect unit budget stmt above) :
    t.Settles unit.info :=
  fun b hb => (h b hb).1

/-- A target that settles the verdict decides alone. -/
lemma isUnsafe_of_settles {t : FieldTarget} (h : t.Settles unit.info) :
    isUnsafe unit budget stmt above ((t :: ts).map FieldTarget.node) = true ↔
      t.Suspect unit budget stmt above := by
  rw [map_cons, FieldTarget.node, isUnsafe, FieldTarget.Suspect]
  cases hbase : unit.info.bindingOf? t.base with
  | none => simp
  | some b => simp [h b hbase, ← isSafe_iff]

/-- Targets that do not settle the verdict leave it to the next ones. -/
lemma isUnsafe_append {front : List FieldTarget} (h : ∀ t ∈ front, ¬t.Settles unit.info) :
    isUnsafe unit budget stmt above ((front ++ ts).map FieldTarget.node) =
      isUnsafe unit budget stmt above (ts.map FieldTarget.node) := by
  induction front with
  | nil => rfl
  | cons t front ih =>
    obtain ⟨ht, hfront⟩ := forall_mem_cons.mp h
    obtain ⟨b, hbase, hheader⟩ : ∃ b, unit.info.bindingOf? t.base = some b ∧
        ¬(unit.info.binding b).type.isHeaderShaped unit.info.underlying = true := by
      simpa [FieldTarget.Settles] using ht
    rw [cons_append, map_cons, FieldTarget.node, isUnsafe, hbase, ← ih hfront]
    exact if_neg hheader

/-- Either no target settles the verdict, or there is a first one that does. -/
lemma settles_cases (info : Info) (ts : List FieldTarget) :
    (∀ t ∈ ts, ¬t.Settles info) ∨
      ∃ front t rest, ts = front ++ t :: rest ∧
      (∀ x ∈ front, ¬x.Settles info) ∧ t.Settles info := by
  induction ts with
  | nil => exact Or.inl (by simp)
  | cons t ts ih =>
    by_cases ht : t.Settles info
    · exact Or.inr ⟨[], t, ts, rfl, by simp, ht⟩
    · rcases ih with hnone | ⟨front, x, rest, rfl, hfront, hx⟩
      · exact Or.inl (forall_mem_cons.mpr ⟨ht, hnone⟩)
      · exact Or.inr ⟨t :: front, x, rest, rfl, forall_mem_cons.mpr ⟨ht, hfront⟩, hx⟩

/-- A list has only one first target that settles the verdict. -/
lemma eq_of_first_settles {info : Info} {front front' rest rest' : List FieldTarget}
    {t t' : FieldTarget}
    (heq : front ++ t :: rest = front' ++ t' :: rest') (hfront : ∀ x ∈ front, ¬x.Settles info)
    (ht : t.Settles info)
    (hfront' : ∀ x ∈ front', ¬x.Settles info) (ht' : t'.Settles info) : t = t' ∧ rest = rest' := by
  rcases append_eq_append_iff.mp heq with ⟨_ | ⟨x, mid⟩, rfl, hmid⟩ | ⟨_ | ⟨x, mid⟩, rfl, hmid⟩
  · cases hmid
    exact ⟨rfl, rfl⟩
  · cases hmid
    exact absurd ht (hfront' t (by simp))
  · cases hmid
    exact ⟨rfl, rfl⟩
  · cases hmid
    exact absurd ht' (hfront t' (by simp))

/-- **The first target that settles the verdict decides.**  An assignment to fields of variables is
reported exactly if that target is suspect.  So the assignment is judged by all its targets, as it
should be, exactly if none of them is masked.  What is reported is what the checker finds at the
node of the assignment. -/
theorem reported_iff_suspect {values : List Node} {op : String} (budget : Int)
    (ts : List FieldTarget)
    (hfile : unit.file = file.numbered) (hwalk : unit.file.node.walk = before ++ v :: after)
    (hnode : v.node = .assign stmt (ts.map FieldTarget.node) op values) :
    (Reported unit budget before v ↔ ∃ front t rest, ts = front ++ t :: rest ∧
      (∀ x ∈ front, ¬x.Settles unit.info) ∧ t.Suspect unit budget stmt v.above) ∧
    ((Reported unit budget before v ↔ ∃ t ∈ ts, t.Suspect unit budget stmt v.above) ↔
      ¬Masked unit budget stmt v.above ts) ∧
    (Reported unit budget before v ↔ ∃ d, (v.node.id, d) ∈ located unit budget) ∧
    ∀ options, HeaderMisuse.budget options = .ok budget →
      checker.found unit options = .ok ((located unit budget).map Prod.snd) := by
  refine and_assoc.mp
    ⟨?_, reported_iff_located hfile hwalk, fun _ hoption => found_eq_located hfile hoption⟩
  rw [reported_assign_iff hfile hwalk hnode]
  rcases settles_cases unit.info ts with hnone | ⟨front, t, rest, rfl, hfront, ht⟩
  · have hsafe : isUnsafe unit budget stmt v.above (ts.map FieldTarget.node) = false := by
      rw [← List.append_nil ts, isUnsafe_append hnone]
      rfl
    have hsuspect : ∀ t ∈ ts, ¬t.Suspect unit budget stmt v.above :=
      fun t ht h => hnone t ht h.settles
    rw [hsafe]
    refine ⟨⟨by simp, ?_⟩, ⟨?_, ?_⟩⟩
    · rintro ⟨front, t, rest, rfl, -, h⟩
      exact absurd h (hsuspect t (by simp))
    · rintro - ⟨front, t, rest, rfl, -, h, -⟩
      exact hnone t (by simp) h
    · rintro -
      refine ⟨by simp, ?_⟩
      rintro ⟨t, ht, h⟩
      exact absurd h (hsuspect t ht)
  · rw [isUnsafe_append hfront, isUnsafe_of_settles ht]
    refine ⟨⟨?_, ?_⟩, ⟨?_, ?_⟩⟩
    · intro h
      exact ⟨front, t, rest, rfl, hfront, h⟩
    · rintro ⟨front', t', rest', heq, hfront', h⟩
      rwa [(eq_of_first_settles heq hfront ht hfront' h.settles).1]
    · rintro hall ⟨front', t', rest', heq, hfront', ht', hsafe, x, hx, h⟩
      obtain ⟨rfl, rfl⟩ := eq_of_first_settles heq hfront ht hfront' ht'
      exact hsafe (hall.mpr ⟨x, by simp [hx], h⟩)
    · intro hmasked
      refine ⟨fun h => ⟨t, by simp, h⟩, ?_⟩
      rintro ⟨x, hx, h⟩
      by_contra hsafe
      rcases List.mem_append.mp hx with hx | hx
      · exact hfront x hx h.settles
      · rcases List.mem_cons.mp hx with rfl | hx
        · exact hsafe h
        · exact hmasked ⟨front, t, rest, rfl, hfront, ht, hsafe, x, hx, h⟩

end Verdict

/-! ## Two orders

A function that derives one header and not the other, and writes to both, first in one order and
then in the other:

    s = (*Header)(unsafe.Pointer(x))
    s.Len, u.Len = 1, 2
    u.Len, s.Len = 1, 2
-/

namespace TwoOrders

def lenOf (name : String) : Node := .select {} (.ident ⟨{}, name⟩) ⟨{}, "Len"⟩

def writeBoth (first second : String) : Node :=
  .assign {} [lenOf first, lenOf second] "=" [.literal {} .int "1", .literal {} .int "2"]

def file : File where
  mark := {}
  package := ⟨{}, "main"⟩
  imports := []
  decls := [.funcDecl {} ⟨{}, "f"⟩ (.mk {} [] []) (some (.mk {} [
    .assign {} [.ident ⟨{}, "s"⟩] "=" [.call {} (.paren {} (.star {} (.ident ⟨{}, "Header"⟩)))
      [.call {} (.select {} (.ident ⟨{}, "unsafe"⟩) ⟨{}, "Pointer"⟩) [.ident ⟨{}, "x"⟩]]],
    writeBoth "s" "u",
    writeBoth "u" "s"]))]

def unit : CompilationUnit where
  name := "two orders"
  file := file.numbered
  info :=
    { types := ⟨[(11, Sample.headerType), (16, .pointer 1 (some (.basic .string)))]⟩
      uses := ⟨[(7, 0), (19, 0), (31, 0), (22, 1), (28, 1)]⟩
      bindings := #[{ name := "s", kind := .var, type := .pointer 2 (some Sample.headerType) },
        { name := "u", kind := .var, type := .pointer 3 (some Sample.headerType) }] }

def function : Node := unit.file.decls.getD 0 default

def block : Block := function.functionBody.getD default

/-- A visit of one of the statements. -/
def visit (i : Nat) : Visit :=
  ⟨block.stmts.getD i default, [.block block, function, unit.file.node]⟩

/-- The target with these numbers. -/
def target (id : Nat) (name : String) : FieldTarget :=
  ⟨{ id := id }, ⟨{ id := id + 1 }, name⟩, ⟨{ id := id + 2 }, "Len"⟩⟩

lemma visit_mem_walk {i : Nat} (h : i < 3) : visit i ∈ unit.file.node.walk := by
  have hroot : ⟨unit.file.node, []⟩ ∈ unit.file.node.walk := Visit.mem_unfold_of_mem mem_cons_self
  have hfn := Visit.mem_unfold_of_child hroot (show function ∈ _ from .tail _ (.head _))
  have hblock :=
    Visit.mem_unfold_of_child hfn (show Node.block block ∈ _ from .tail _ (.tail _ (.head _)))
  refine Visit.mem_unfold_of_child hblock ?_
  match i, h with
  | 0, _ => exact .head _
  | 1, _ => exact .tail _ (.head _)
  | 2, _ => exact .tail _ (.tail _ (.head _))

/-- The variable that is derived from nothing is suspect, wherever in the function the statement
stands. -/
lemma suspect_of_underived {stmt : Mark} {above : List Node} {t : FieldTarget}
    (hbase : unit.info.bindingOf? t.base = some 1)
    (habove : Node.enclosingFunction above = some function) :
    t.Suspect unit 1 stmt above := by
  have hnone : ∀ n ∈ (Graph.ofFunction function).1.contents, (unit.info.assigned? 1 n).isNone =
    true := by decide +kernel
  intro b hb
  obtain rfl := Option.some.inj (hbase.symm.trans hb)
  refine ⟨rfl, ?_⟩
  rintro ⟨fn, path, hfn, hsearch, front, n, rest, value, derivation, htrace, hassigned, -⟩
  obtain rfl := Option.some.inj (habove.symm.trans hfn)
  have hmem : n ∈ path := dropLast_subset path (htrace ▸ mem_append_right front mem_cons_self)
  obtain ⟨b, -, hb⟩ := (Graph.spelled_of_search hsearch).1.reached hmem
  have hn := hnone n (Graph.mem_contents.mpr ⟨b, hb⟩)
  rw [hassigned] at hn
  cases hn

end TwoOrders

/-- The write with the underived header in front is reported. -/
theorem reported_iff_suspect_underived : ∃ before after,
    TwoOrders.unit.file.node.walk = before ++ TwoOrders.visit 2 :: after ∧
      Reported TwoOrders.unit 1 before (TwoOrders.visit 2) := by
  obtain ⟨before, after, hwalk⟩ :=
    List.append_of_mem (TwoOrders.visit_mem_walk (i := 2) (by decide))
  refine ⟨before, after, hwalk, ?_⟩
  have hfile : TwoOrders.unit.file = TwoOrders.file.numbered := rfl
  have h :=
    reported_iff_suspect 1 [TwoOrders.target 27 "u", TwoOrders.target 30 "s"] hfile hwalk rfl
  exact h.1.mpr ⟨[], _, _, rfl, by simp, TwoOrders.suspect_of_underived rfl rfl⟩

/-- The write with the derived header in front is not reported, although a target of it is
suspect. -/
theorem suspect_masked : ∃ before after stmt, ∃ ts : List FieldTarget, ∃ op values,
    TwoOrders.unit.file.node.walk = before ++ TwoOrders.visit 1 :: after ∧
      (TwoOrders.visit 1).node = .assign stmt (ts.map FieldTarget.node) op values ∧
      (∃ t ∈ ts, t.Suspect TwoOrders.unit 1 stmt (TwoOrders.visit 1).above) ∧
      ¬Reported TwoOrders.unit 1 before (TwoOrders.visit 1) := by
  obtain ⟨before, after, hwalk⟩ :=
    List.append_of_mem (TwoOrders.visit_mem_walk (i := 1) (by decide))
  refine ⟨before, after, _, [TwoOrders.target 18 "s", TwoOrders.target 21 "u"], _,
    _, hwalk, rfl, ?_, ?_⟩
  · exact ⟨_, .tail _ (.head _), TwoOrders.suspect_of_underived rfl rfl⟩
  · have hfile : TwoOrders.unit.file = TwoOrders.file.numbered := rfl
    have hstraight : Straight TwoOrders.block.stmts TwoOrders.block.stmts .through :=
      .simple trivial (.simple trivial (.simple trivial .nil))
    have hstmts : TwoOrders.block.stmts = [TwoOrders.block.stmts.getD 0 default] ++
      (TwoOrders.visit 1).node ::
        [TwoOrders.block.stmts.getD 2 default] := rfl
    refine (not_reported_iff_of_straight (b := 0) hfile rfl hwalk rfl rfl rfl rfl rfl hstraight
      hstmts (by decide)).mpr ?_
    exact endsSafely_iff.mp rfl

end Recast.HeaderMisuse
