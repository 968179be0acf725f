import Recast.Proofs.Checker.Runs
import Recast.Proofs.Checker.Targets
import Recast.Proofs.Report.Grouping

/-!
# Graphs that are supplied

The graphs of functions may be supplied with a unit, and those that are not are made when they are
first asked for.  What a run finds does not depend on that.

**Supplying.**  `CompilationUnit.supplying` gives a unit the graphs of some of its functions.  Every
function gets the same graph then, so the verdicts are the same.

**Asking.**  What a step of a checker does to the store of graphs is told by the functions it asks
for (`Asks`).  They depend on the unit alone and not on what has been made before: the search for a
way asks for the graph of the innermost function, and nothing else asks for any.

* `Runner.run_supplying` — a run finds the same whatever is supplied, and it makes the graphs that
  are asked for and not supplied, each once.
-/

namespace Recast

open List
open Recast.Flow

/-! ## Supplying -/

/-- The unit with the graphs of these functions supplied, and no others. -/
def CompilationUnit.supplying (unit : CompilationUnit) (fns : List Node) : CompilationUnit :=
  { unit with graphs := .ofList (fns.map fun fn => (fn.id, (Graph.ofFunction fn).1)) }

section Supplying

variable {file : File} {unit : CompilationUnit} {fns : List Node} {fn : Node}

lemma Table.ofList_concat {κ α : Type} [DecidableEq κ] (es : List (κ × α)) (e : κ × α) :
    ofList (es ++ [e]) = (ofList es).insert e.1 e.2 := by
  rw [ofList, ofList, foldl_append]
  rfl

/-- What is supplied for a number is the graph of a function with that number. -/
lemma CompilationUnit.find?_supplying (unit : CompilationUnit) (fns : List Node) (k : Nat) :
    (k ∉ fns.map Node.id ∧ (unit.supplying fns).graphs.find? k = none) ∨
      ∃ fn ∈ fns, fn.id = k ∧ (unit.supplying fns).graphs.find? k =
        some (Graph.ofFunction fn).1 := by
  induction fns using reverseRecOn with
  | nil => exact .inl ⟨not_mem_nil, rfl⟩
  | append_singleton fns fn ih =>
    have hfind : (unit.supplying (fns ++ [fn])).graphs.find? k =
        if fn.id = k then some (Graph.ofFunction fn).1
            else (unit.supplying fns).graphs.find? k := by
      show (Table.ofList ((fns ++ [fn]).map _)).find? k = _
      rw [map_append, map_singleton, Table.ofList_concat, Table.find?_insert]
      rfl
    rw [hfind]
    by_cases hid : fn.id = k
    · exact .inr ⟨fn, mem_append_right _ mem_cons_self, hid, if_pos hid⟩
    · rw [if_neg hid]
      rcases ih with ⟨hnot, hnone⟩ | ⟨fn', hfn', hid', hsome⟩
      · refine .inl ⟨?_, hnone⟩
        rw [map_append, map_singleton, mem_append, mem_singleton]
        rintro (hmem | rfl)
        · exact hnot hmem
        · exact hid rfl
      · exact .inr ⟨fn', mem_append_left _ hfn', hid', hsome⟩

/-- A function with the number of one whose graph is supplied is that function. -/
lemma CompilationUnit.eq_of_supplied (hfile : unit.file = file.numbered)
    (hfns : ∀ fn ∈ fns, fn ∈ unit.file.node.preorder)
    (hfn : fn ∈ unit.file.node.preorder) {fn' : Node} (hfn' : fn' ∈ fns) (hid : fn'.id = fn.id) :
    fn' = fn := by
  have hmem := hfns fn' hfn'
  rw [hfile] at hmem hfn
  exact File.eq_of_id_eq hmem hfn hid

/-- **Every function gets its own graph**, supplied or not. -/
lemma CompilationUnit.graphOf_supplying (hfile : unit.file = file.numbered)
    (hfns : ∀ fn ∈ fns, fn ∈ unit.file.node.preorder) (hfn : fn ∈ unit.file.node.preorder) :
    (unit.supplying fns).graphOf fn = (Graph.ofFunction fn).1 := by
  rw [graphOf]
  rcases unit.find?_supplying fns fn.id with ⟨-, hnone⟩ | ⟨fn', hfn', hid, hsome⟩
  · rw [hnone]
    rfl
  · rw [hsome, eq_of_supplied hfile hfns hfn hfn' hid]
    rfl

lemma CompilationUnit.contains_supplying (hfile : unit.file = file.numbered)
    (hfns : ∀ fn ∈ fns, fn ∈ unit.file.node.preorder) (hfn : fn ∈ unit.file.node.preorder) :
    (Runner.start (unit.supplying fns)).cache.contains fn = false ↔ fn ∉ fns := by
  show ((unit.supplying fns).graphs.find? fn.id).isSome = false ↔ _
  rcases unit.find?_supplying fns fn.id with ⟨hnot, hnone⟩ | ⟨fn', hfn', hid, hsome⟩
  · rw [hnone]
    exact ⟨fun _ hmem => hnot (mem_map_of_mem hmem), fun _ => rfl⟩
  · rw [hsome, ← eq_of_supplied hfile hfns hfn hfn' hid]
    exact ⟨nofun, fun hnot => absurd hfn' hnot⟩

/-! ## Verdicts -/

namespace HeaderMisuse

variable {budget : Int} {stmt : Mark} {above : List Node}

lemma isSafe_supplying (hfile : unit.file = file.numbered)
    (hfns : ∀ fn ∈ fns, fn ∈ unit.file.node.preorder)
    (habove : ∀ a ∈ above, a ∈ unit.file.node.preorder) (b : Nat) :
    isSafe (unit.supplying fns) budget stmt above b =
      isSafe (unit.supplying []) budget stmt above b := by
  rw [isSafe, isSafe]
  cases hfn : Node.enclosingFunction above with
  | none => rfl
  | some fn =>
    have hmem := habove fn (mem_of_find?_eq_some hfn)
    dsimp only
    rw [CompilationUnit.graphOf_supplying hfile hfns hmem,
      CompilationUnit.graphOf_supplying hfile (fun _ h => absurd h not_mem_nil) hmem]
    rfl

lemma isUnsafe_supplying (hfile : unit.file = file.numbered)
    (hfns : ∀ fn ∈ fns, fn ∈ unit.file.node.preorder)
    (habove : ∀ a ∈ above, a ∈ unit.file.node.preorder) (targets : List Node) :
    isUnsafe (unit.supplying fns) budget stmt above targets =
      isUnsafe (unit.supplying []) budget stmt above targets := by
  fun_induction isUnsafe (unit.supplying fns) budget stmt above targets with
  | case1 sm base name targets hbase =>
    have hbase' : (unit.supplying []).info.bindingOf? base = none := hbase
    rw [isUnsafe, hbase']
  | case2 sm base name targets b hbase hheader =>
    have hbase' : (unit.supplying []).info.bindingOf? base = some b := hbase
    rw [isUnsafe, hbase', isSafe_supplying hfile hfns habove]
    exact (if_pos hheader).symm
  | case3 sm base name targets b hbase hheader ih =>
    have hbase' : (unit.supplying []).info.bindingOf? base = some b := hbase
    rw [isUnsafe, hbase', ih]
    exact (if_neg hheader).symm
  | case4 sm base name targets hident =>
    rw [isUnsafe]
    · rfl
    · assumption
  | case5 targets hident hselect =>
    rw [isUnsafe]
    all_goals assumption

lemma evidence?_supplying (hfile : unit.file = file.numbered)
    (hfns : ∀ fn ∈ fns, fn ∈ unit.file.node.preorder) {v : Visit} (hv : v ∈ unit.file.node.walk) :
    evidence? (unit.supplying fns) budget v = evidence? (unit.supplying []) budget v := by
  rw [evidence?, evidence?]
  cases v.node with
  | assign m targets op values =>
    dsimp only
    rw [isUnsafe_supplying hfile hfns fun a ha => Node.above_mem_preorder hv ha]
  | _ => rfl

end HeaderMisuse

end Supplying

/-! ## Asking for graphs -/

namespace Flow.Cache

/-- The store after the graphs of functions have been asked for, one after the other. -/
def ask (c : Cache) : List Node → Cache
  | [] => c
  | fn :: fns => (c.get fn).2.1.ask fns

lemma ask_append (c : Cache) (fns fns' : List Node) :
    c.ask (fns ++ fns') = (c.ask fns).ask fns' := by
  induction fns generalizing c with
  | nil => rfl
  | cons fn fns ih => exact ih _

/-- **Every graph that is asked for and missing is made, and it is made once.** -/
lemma exists_made (c : Cache) (fns : List Node) : ∃ made : List Node, (made.map Node.id).Nodup ∧
    (∀ fn ∈ made, fn ∈ fns ∧ c.contains fn = false) ∧
    (∀ fn ∈ fns, c.contains fn = false → fn.id ∈ made.map Node.id) ∧
    (c.ask fns).built = c.built + made.length := by
  induction fns generalizing c with
  | nil => exact ⟨[], nodup_nil, nofun, nofun, rfl⟩
  | cons fn fns ih =>
    cases hfind : c.graphs.find? fn.id with
    | some g =>
      have hget : (c.get fn).2.1 = c := by rw [get_of_find? hfind]
      obtain ⟨made, hnodup, hmade, hall, hbuilt⟩ := ih c
      refine ⟨made, hnodup, fun x hx => ⟨mem_cons_of_mem _ (hmade x hx).1, (hmade x hx).2⟩,
        fun x hx hnot => ?_, ?_⟩
      · rcases mem_cons.mp hx with rfl | hx
        · rw [contains, Table.contains, hfind] at hnot
          cases hnot
        · exact hall x hx hnot
      · rw [ask, hget, hbuilt]
    | none =>
      have hget : (c.get fn).2.1 =
        ⟨c.graphs.insert fn.id (Graph.ofFunction fn).1, c.built + 1⟩ := by rw [get, hfind]
      have hcontains : ∀ x : Node, (c.get fn).2.1.contains x = false ↔ fn.id ≠ x.id ∧
          c.contains x = false := by
        intro x
        rw [hget, contains, Table.contains, Table.find?_insert]
        by_cases hid : fn.id = x.id
        · simp [hid]
        · rw [if_neg hid]
          exact (and_iff_right hid).symm
      obtain ⟨made, hnodup, hmade, hall, hbuilt⟩ := ih (c.get fn).2.1
      refine ⟨fn :: made, ?_, fun x hx => ?_, fun x hx hnot => ?_, ?_⟩
      · refine nodup_cons.mpr ⟨fun hmem => ?_, hnodup⟩
        obtain ⟨x, hx, hid⟩ := mem_map.mp hmem
        exact ((hcontains x).mp (hmade x hx).2).1 hid.symm
      · rcases mem_cons.mp hx with rfl | hx
        · exact ⟨mem_cons_self, congrArg Option.isSome hfind⟩
        · exact ⟨mem_cons_of_mem _ (hmade x hx).1, ((hcontains x).mp (hmade x hx).2).2⟩
      · by_cases hid : fn.id = x.id
        · rw [map_cons, hid]
          exact mem_cons_self
        · have hx : x ∈ fns :=
            (mem_cons.mp hx).resolve_left fun heq => hid (congrArg Node.id heq.symm)
          exact mem_cons_of_mem _ (hall x hx ((hcontains x).mpr ⟨hid, hnot⟩))
      · have hmore : (c.get fn).2.1.built = c.built + 1 := congrArg Cache.built hget
        rw [ask, hbuilt, hmore, length_cons]
        omega

end Flow.Cache

/-- **What a step asks for**: the graphs of these functions in this order, and of no others. -/
def Asks {α : Type} (x : StateM Session α) (fns : List Node) : Prop :=
  ∀ s : Session, (x.run s).2.cache = s.cache.ask fns

section Asking

variable {unit : CompilationUnit} {fns fns' : List Node}

lemma asks_return {α : Type} (a : α) : Asks (return a) [] := fun _ => rfl

lemma Asks.bind {α β : Type} {x : StateM Session α} {f : α → StateM Session β} (hx : Asks x fns)
    (hf : ∀ a, Asks (f a) fns') :
    Asks (x >>= f) (fns ++ fns') := by
  intro s
  rw [Cache.ask_append, ← hx s]
  exact hf _ _

/-- What asks for nothing adds nothing. -/
lemma Asks.bind_nil {α β : Type} {x : StateM Session α} {f : α → StateM Session β} (hx : Asks x fns)
    (hf : ∀ a, Asks (f a) []) : Asks (x >>= f) fns := append_nil fns ▸ hx.bind hf

lemma asks_note (channel : Log.Channel) (text : String) : Asks (Session.note channel text) [] :=
  fun _ => rfl

lemma asks_graphOf (fn : Node) : Asks (Session.graphOf fn) [fn] := fun _ => rfl

lemma asks_pathTo? (g : Graph) (target : Mark) (budget : Int) :
    Asks (Session.pathTo? g target budget) [] := by
  rw [Session.pathTo?]
  cases g.search target.id budget with
  | found path => exact asks_return _
  | unreachable => exact asks_return _
  | exhausted => exact (asks_note _ _).bind_nil fun _ => asks_return _

namespace HeaderMisuse

/-- **Reaching the search.**  The first target that settles the verdict on an assignment is a field
of a variable that is known to be a header. -/
def ReachesSearch (info : Info) (targets : List Node) : Prop :=
  ∃ (front : List FieldTarget) (t : FieldTarget) (rest : List Node) (b : Nat),
    targets = front.map FieldTarget.node ++ t.node :: rest ∧ (∀ x ∈ front, ¬x.Settles info) ∧
      info.bindingOf? t.base = some b ∧ (info.binding b).type.isHeaderShaped info.underlying = true

/-- Whether the check of these targets gets to the search for a way. -/
def reachesSearch (info : Info) : List Node → Bool
  | .select _ (.ident base) _ :: targets =>
    match info.bindingOf? base with
    | none => false
    | some b => (info.binding b).type.isHeaderShaped info.underlying || reachesSearch info targets
  | _ => false

lemma reachesSearch_iff {info : Info} {targets : List Node} : reachesSearch info targets = true ↔
    ReachesSearch info targets := by
  constructor
  · intro h
    fun_induction reachesSearch info targets with
    | case1 => cases h
    | case2 m base name targets b hbase ih =>
      by_cases hheader : (info.binding b).type.isHeaderShaped info.underlying = true
      · exact ⟨[], ⟨m, base, name⟩, targets, b, rfl, nofun, hbase, hheader⟩
      · obtain ⟨front, t, rest, b', rfl, hfront, ht⟩ :=
          ih ((Bool.or_eq_true_iff.mp h).resolve_left hheader)
        refine ⟨⟨m, base, name⟩ :: front, t, rest, b', rfl,
          forall_mem_cons.mpr ⟨fun hsettles => ?_, hfront⟩, ht⟩
        exact hheader (hsettles b hbase)
    | case3 => cases h
  · rintro ⟨front, t, rest, b, rfl, hfront, hbase, hheader⟩
    induction front with
    | nil =>
      show reachesSearch info (.select t.mark (.ident t.base) t.field :: rest) = true
      rw [reachesSearch, hbase]
      exact Bool.or_eq_true_iff.mpr (.inl hheader)
    | cons x front ih =>
      obtain ⟨hx, hfront⟩ := forall_mem_cons.mp hfront
      have hrest := ih hfront
      show reachesSearch info (.select x.mark (.ident x.base) x.field ::
        (front.map FieldTarget.node ++ t.node :: rest)) = true
      rw [reachesSearch]
      cases hknown : info.bindingOf? x.base with
      | none =>
        exact absurd (show x.Settles info from fun b hb => by rw [hknown] at hb; cases hb) hx
      | some b => exact Bool.or_eq_true_iff.mpr (.inr hrest)

/-- The function whose graph a visit asks for. -/
def asked? (info : Info) (v : Visit) : Option Node :=
  match v.node with
  | .assign _ targets _ _ =>
    if reachesSearch info targets then Node.enclosingFunction v.above else none
  | _ => none

lemma asks_isDerivedSafely (budget : Int) (stmt : Mark) (above : List Node) (b : Nat) :
    Asks (isDerivedSafely unit budget stmt above b) (Node.enclosingFunction above).toList := by
  rw [isDerivedSafely]
  cases Node.enclosingFunction above with
  | none => exact (asks_note _ _).bind_nil fun _ => asks_return _
  | some fn =>
    refine (asks_graphOf fn).bind_nil fun g => (asks_pathTo? g stmt budget).bind_nil fun path => ?_
    cases path with
    | none => exact (asks_note _ _).bind_nil fun _ => asks_return _
    | some path => exact asks_return _

lemma asks_isUnsafeWrite (budget : Int) (stmt : Mark) (above : List Node) (targets : List Node) :
    Asks (isUnsafeWrite unit budget stmt above targets)
      (if reachesSearch unit.info targets then (Node.enclosingFunction above).toList else []) := by
  fun_induction reachesSearch unit.info targets with
  | case1 m base name targets hbase =>
    rw [isUnsafeWrite, hbase]
    exact (asks_note _ _).bind_nil fun _ => asks_return _
  | case2 m base name targets b hbase ih =>
    rw [isUnsafeWrite, hbase]
    by_cases hheader : (unit.info.binding b).type.isHeaderShaped unit.info.underlying = true
    · rw [hheader, Bool.true_or, if_pos rfl]
      show Asks (if _ then _ else _) _
      rw [if_pos hheader]
      exact (asks_isDerivedSafely budget stmt above b).bind_nil fun _ => asks_return _
    · rw [Bool.eq_false_iff.mpr hheader, Bool.false_or]
      show Asks (if _ then _ else _) _
      rw [if_neg hheader]
      exact ih
  | case3 targets hident =>
    unfold isUnsafeWrite
    split
    · exact absurd rfl (hident _ _ _ _)
    · exact asks_return _
    · exact asks_return _

lemma asks_evidenceAt (budget : Int) (v : Visit) :
    Asks (evidenceAt unit budget v) (asked? unit.info v).toList := by
  rw [evidenceAt, asked?]
  cases v.node with
  | assign m targets op values =>
    dsimp only
    rw [apply_ite Option.toList, Option.toList_none]
    refine (asks_isUnsafeWrite budget m v.above targets).bind_nil fun verdict => ?_
    cases verdict with
    | false => exact asks_return _
    | true => exact asks_return _
  | composite m type elements =>
    show Asks (if _ then _ else _) []
    split
    · exact asks_return _
    · exact asks_return _
  | _ => exact asks_return _

/-- The checker asks for the functions of the visits that reach the search. -/
lemma asks_evidence (budget : Int) (vs : List Visit) :
    Asks (evidence unit budget vs) (vs.filterMap (asked? unit.info)) := by
  induction vs with
  | nil => exact asks_return _
  | cons v vs ih =>
    have hcons : (v :: vs).filterMap (asked? unit.info) = (asked? unit.info v).toList ++
        vs.filterMap (asked? unit.info) := by
      rw [filterMap_cons]
      cases asked? unit.info v <;> rfl
    rw [hcons, evidence]
    exact (asks_evidenceAt budget v).bind fun _ => ih.bind_nil fun _ => asks_return _

end HeaderMisuse

end Asking

/-! ## Runs -/

section Runs

variable {file : File} {unit : CompilationUnit} {r : Runner} {c : Checker} {cs : List Checker}
  {fns : List Node} {fn : Node}

/-- **Searches in a run.**  The checker for headers is selected and has a budget, and the function
is the innermost one around an assignment whose check reaches the search. -/
structure Runner.Searches (r : Runner) (names : Option (List String)) (unit : CompilationUnit)
    (fn : Node) : Prop where
  selected : HeaderMisuse.checker ∈ r.select names
  budget : ∃ n, HeaderMisuse.budget r.options = .ok n
  write : ∃ v ∈ unit.file.node.visits [], ∃ m targets op values, v.node =
    .assign m targets op values ∧
    HeaderMisuse.ReachesSearch unit.info targets ∧ Node.enclosingFunction v.above = some fn

lemma HeaderMisuse.asked?_eq_some_iff {info : Info} {v : Visit} :
    asked? info v = some fn ↔ ∃ m targets op values, v.node = .assign m targets op values ∧
    ReachesSearch info targets ∧
      Node.enclosingFunction v.above = some fn := by
  obtain ⟨node, above⟩ := v
  constructor
  · intro h
    rw [asked?] at h
    split at h
    · rename_i m targets op values hnode
      by_cases hreaches : reachesSearch info targets = true
      · rw [if_pos hreaches] at h
        exact ⟨m, targets, op, values, hnode, reachesSearch_iff.mp hreaches, h⟩
      · rw [if_neg hreaches] at h
        cases h
    · cases h
  · rintro ⟨m, targets, op, values, rfl, hreaches, hfn⟩
    exact (if_pos (reachesSearch_iff.mpr hreaches)).trans hfn

/-- Only the checker for headers asks for graphs, and only if it has a budget. -/
lemma Checker.Known.exists_asks (hc : c.Known) (unit : CompilationUnit) (options : Options) :
    ∃ fns, Asks (c.examine unit options).run fns ∧ ∀ fn, fn ∈ fns ↔ c = HeaderMisuse.checker ∧
      (∃ n, HeaderMisuse.budget options = .ok n) ∧
      fn ∈ unit.file.node.walk.filterMap (HeaderMisuse.asked? unit.info) := by
  rcases hc with hc | ⟨script, rfl⟩
  · rcases mem_cons.mp hc with rfl | hc
    · cases hbudget : HeaderMisuse.budget options with
      | error failure =>
        refine ⟨[], fun s => ?_, fun fn => ⟨nofun, ?_⟩⟩
        · rw [HeaderMisuse.run_examine_error hbudget]
          rfl
        · rintro ⟨-, ⟨n, hn⟩, -⟩
          cases hn
      | ok n =>
        refine ⟨_, fun s => ?_, fun fn => ⟨fun hfn => ⟨rfl, ⟨n, rfl⟩, hfn⟩, fun h => h.2.2⟩⟩
        rw [HeaderMisuse.run_examine hbudget]
        exact HeaderMisuse.asks_evidence n _ s
    · obtain rfl := mem_singleton.mp hc
      refine ⟨[], fun s => rfl, fun fn => ⟨nofun, fun h => ?_⟩⟩
      have hname : StructCast.checker.name = HeaderMisuse.checker.name := congrArg Checker.name h.1
      exact absurd hname (by decide)
  · refine ⟨[], fun s => ?_, fun fn => ⟨nofun, fun h => ?_⟩⟩
    · obtain ⟨name, severity, drafts, failsIn, message⟩ := script
      match failsIn with
      | none => rfl
      | some .configure => rfl
      | some .collect => rfl
      | some .diagnose => rfl
      | some .report => rfl
    · have hdescription : "" = HeaderMisuse.checker.description := congrArg Checker.description h.1
      exact absurd hdescription (by decide)

lemma Runner.asks_check (h : Asks (c.examine unit r.options).run fns) :
    Asks (r.check unit c) fns := by
  rw [check]
  refine h.bind_nil fun outcome => ?_
  cases outcome with
  | ok drafts => exact asks_return _
  | error failure => exact fun s => rfl

/-- The checkers of a run ask for a function exactly if the checker for headers does. -/
lemma Runner.exists_asks_checkAll (r : Runner) (unit : CompilationUnit) (hcs : ∀ c ∈ cs, c.Known) :
    ∃ fns, (∀ report, Asks (r.checkAll unit cs report) fns) ∧ ∀ fn, fn ∈ fns ↔
      HeaderMisuse.checker ∈ cs ∧
      (∃ n, HeaderMisuse.budget r.options = .ok n) ∧
      fn ∈ unit.file.node.walk.filterMap (HeaderMisuse.asked? unit.info) := by
  induction cs with
  | nil => exact ⟨[], fun report => asks_return _, fun fn => by simp⟩
  | cons c cs ih =>
    obtain ⟨hc, hcs⟩ := forall_mem_cons.mp hcs
    obtain ⟨first, hfirst, hmem⟩ := hc.exists_asks unit r.options
    obtain ⟨rest, hrest, hmem'⟩ := ih hcs
    refine ⟨first ++ rest, fun report => (asks_check hfirst).bind fun found =>
      hrest _, fun fn => ?_⟩
    rw [mem_append, hmem, hmem', mem_cons, ← or_and_right, eq_comm]

/-- With checkers that keep apart, the report of a run is put together from what each
contributes. -/
lemma Runner.checkAll_eq_foldl (hcs : ∀ c ∈ cs, c.KeepsApart unit) (report : Report) {s : Session}
    (hs : s.Serves unit) :
    ((r.checkAll unit cs report).run s).1 =
      (cs.map fun c => (c.name, r.contribution unit c)).foldl Report.add report := by
  induction cs generalizing report s with
  | nil => rfl
  | cons c cs ih =>
    obtain ⟨hc, hcs⟩ := forall_mem_cons.mp hcs
    obtain ⟨hfound, hs'⟩ := answers_check (r := r) hc s hs
    show ((r.checkAll unit cs (report.addChecker c.name ((r.check unit c).run s).1)).run
      ((r.check unit c).run s).2).1 = _
    rw [ih hcs _ hs', hfound]
    rfl

/-- A checker contributes the same whatever graphs are supplied. -/
lemma Runner.contribution_supplying (hc : c.Known) (hfile : unit.file = file.numbered)
    (hfns : ∀ fn ∈ fns, fn ∈ unit.file.node.preorder) :
    r.contribution (unit.supplying fns) c = r.contribution (unit.supplying []) c := by
  have hfound : c.found (unit.supplying fns) r.options = c.found (unit.supplying []) r.options := by
    rcases hc with hc | ⟨script, rfl⟩
    · rcases mem_cons.mp hc with rfl | hc
      · cases hbudget : HeaderMisuse.budget r.options with
        | error failure =>
          rw [Checker.found, Checker.found, HeaderMisuse.run_examine_error hbudget,
            HeaderMisuse.run_examine_error hbudget]
        | ok n =>
          have hfile' : ∀ fns', (unit.supplying fns').file = file.numbered := fun _ => hfile
          have hsame : unit.file.node.walk.filterMap
            (HeaderMisuse.evidence? (unit.supplying fns) n) =
              unit.file.node.walk.filterMap (HeaderMisuse.evidence? (unit.supplying []) n) :=
            filterMap_congr fun v hv => HeaderMisuse.evidence?_supplying hfile hfns hv
          rw [HeaderMisuse.found_eq (hfile' fns) hbudget, HeaderMisuse.found_eq (hfile' []) hbudget]
          exact congrArg (fun es => Except.ok (map _ es)) hsame
      · obtain rfl := mem_singleton.mp hc
        rfl
    · obtain ⟨name, severity, drafts, failsIn, message⟩ := script
      cases failsIn with
      | none => rfl
      | some phase => cases phase <;> rfl
  rw [contribution, contribution, hfound]
  rfl

/-- **Supplied graphs change nothing but the work.**  Whichever functions of a unit have their
graphs supplied, a run finds the same as without any.  It makes the graph of each function that is
searched and not supplied, and makes it once. -/
theorem Runner.run_supplying (r : Runner) (names : Option (List String)) (fns : List Node)
    (hfile : unit.file = file.numbered)
    (htable : ∀ c ∈ r.table, c.Known) (hfns : ∀ fn ∈ fns, fn ∈ unit.file.node.functions) :
    ((r.run (unit.supplying fns) names).1.findings = (r.run (unit.supplying []) names).1.findings ∧
      (r.run (unit.supplying fns) names).1.byChecker =
        (r.run (unit.supplying []) names).1.byChecker ∧
      (r.run (unit.supplying fns) names).1.checkers =
        (r.run (unit.supplying []) names).1.checkers) ∧
    ∃ made : List Node, made.Nodup ∧ (∀ fn, fn ∈ made ↔ r.Searches names unit fn ∧ fn ∉ fns) ∧
      (r.run (unit.supplying fns) names).1.stats.find? "cfgs_built" =
        some (.count made.length) := by
  have hknown : ∀ c ∈ r.select names, c.Known := by
    intro c hc
    rw [select_eq] at hc
    exact known_of_mem htable c (List.mem_of_mem_filter hc)
  have hinside : ∀ fn ∈ fns, fn ∈ unit.file.node.preorder :=
    fun fn hfn => List.mem_of_mem_filter (hfns fn hfn)
  have hapart : ∀ fns', ∀ c ∈ r.select names, c.KeepsApart (unit.supplying fns') := fun fns' c hc =>
    (hknown c hc).keepsApart (show (unit.supplying fns').file = file.numbered from hfile)
  constructor
  · have hreport :
      ((r.checkAll (unit.supplying fns) (r.select names) {}).run (start (unit.supplying fns))).1 =
        ((r.checkAll (unit.supplying []) (r.select names) {}).run
            (start (unit.supplying []))).1 := by
      rw [checkAll_eq_foldl (hapart fns) {} (serves_start _),
        checkAll_eq_foldl (hapart []) {} (serves_start _)]
      refine congrArg (List.foldl Report.add {}) (List.map_congr_left fun c hc => ?_)
      rw [contribution_supplying (hknown c hc) hfile hinside]
    exact ⟨(congrArg Report.findings hreport :), (congrArg Report.byChecker hreport :),
      (congrArg Report.checkers hreport :)⟩
  · obtain ⟨asked, hasks, hasked⟩ := r.exists_asks_checkAll (unit.supplying fns) hknown
    obtain ⟨made, hnodup, hmade, hall, hbuilt⟩ :=
      (start (unit.supplying fns)).cache.exists_made asked
    have hsearches : ∀ fn, fn ∈ asked ↔ r.Searches names unit fn := by
      intro fn
      rw [hasked]
      show _ ∧ _ ∧ fn ∈ unit.file.node.walk.filterMap (HeaderMisuse.asked? unit.info) ↔ _
      rw [Node.walk_eq, List.mem_filterMap]
      simp only [HeaderMisuse.asked?_eq_some_iff]
      exact ⟨fun h => ⟨h.1, h.2.1, h.2.2⟩, fun h => ⟨h.selected, h.budget, h.write⟩⟩
    have hmember : ∀ fn ∈ asked, fn ∈ unit.file.node.preorder := by
      intro fn hfn
      obtain ⟨v, hv, -, -, -, -, -, -, henclosing⟩ := ((hsearches fn).mp hfn).write
      rw [← Node.walk_eq] at hv
      exact Node.above_mem_preorder hv (List.mem_of_find?_eq_some henclosing)
    refine ⟨made, hnodup.of_map _, fun fn => ⟨fun hfn => ?_, fun ⟨hfn, hnot⟩ => ?_⟩, ?_⟩
    · obtain ⟨hmem, hmissing⟩ := hmade fn hfn
      exact ⟨(hsearches fn).mp hmem,
        (CompilationUnit.contains_supplying hfile hinside (hmember fn hmem)).mp hmissing⟩
    · have hmem := (hsearches fn).mpr hfn
      have hmissing := (CompilationUnit.contains_supplying hfile hinside (hmember fn hmem)).mpr hnot
      obtain ⟨fn', hfn', hid⟩ := List.mem_map.mp (hall fn hmem hmissing)
      have hsame : fn' = fn := by
        have hleft := hmember fn' (hmade fn' hfn').1
        have hright := hmember fn hmem
        rw [hfile] at hleft hright
        exact File.eq_of_id_eq hleft hright hid
      exact hsame ▸ hfn'
    · have hcache := hasks {} (start (unit.supplying fns))
      show (stats _ ((r.checkAll (unit.supplying fns) (r.select names) {}).run
        (start (unit.supplying fns))).2).find? _ = _
      rw [stats, Table.find?_insert, if_pos rfl, hcache, hbuilt]
      exact congrArg (fun n : Nat => some (Stat.count n)) (Nat.zero_add _)

end Runs

/-- With the graph of the only function supplied, no graph is made; without it, that one is. -/
theorem Runner.run_supplying_once : ∃ made made' : List Node,
    HeaderMisuse.TwoOrders.function ∈ made ∧ HeaderMisuse.TwoOrders.function ∉ made' ∧
      (({} : Runner).run (HeaderMisuse.TwoOrders.unit.supplying []) none).1.stats.find?
        "cfgs_built" = some (.count made.length) ∧
      (({} : Runner).run (HeaderMisuse.TwoOrders.unit.supplying [HeaderMisuse.TwoOrders.function])
        none).1.stats.find? "cfgs_built" =
        some (.count made'.length) := by
  have hfile : HeaderMisuse.TwoOrders.unit.file = HeaderMisuse.TwoOrders.file.numbered := rfl
  have hmem : HeaderMisuse.TwoOrders.visit 1 ∈ HeaderMisuse.TwoOrders.unit.file.node.walk :=
    HeaderMisuse.TwoOrders.visit_mem_walk (by decide)
  have hfunction : HeaderMisuse.TwoOrders.function ∈
      HeaderMisuse.TwoOrders.unit.file.node.functions :=
    List.mem_filter.mpr ⟨Node.above_mem_preorder hmem (.tail _ (.head _)), rfl⟩
  have hsearches : ({} : Runner).Searches none HeaderMisuse.TwoOrders.unit
      HeaderMisuse.TwoOrders.function := by
    refine ⟨List.mem_cons_self, ⟨_, rfl⟩, _, Node.walk_eq _ ▸ hmem, _, _, _, _, rfl, ?_, rfl⟩
    exact HeaderMisuse.reachesSearch_iff.mp rfl
  obtain ⟨-, made, -, hmade, hstat⟩ := Runner.run_supplying {} none [] hfile nofun nofun
  obtain ⟨-, made', -, hmade', hstat'⟩ :=
    Runner.run_supplying {} none [HeaderMisuse.TwoOrders.function] hfile nofun
      (List.forall_mem_singleton.mpr hfunction)
  refine ⟨made, made', (hmade _).mpr ⟨hsearches, List.not_mem_nil⟩, fun h => ?_, hstat, hstat'⟩
  exact ((hmade' _).mp h).2 List.mem_cons_self

end Recast
