import Mathlib.Data.List.Perm.Basic
import Recast.CompilationUnit
import Recast.Proofs.Surface.LineNumbers

/-!
# Annotations do not matter

A description without the annotations that are detached from its forms describes the same tree.

**Stripping.**  The annotations are where the table of the surface syntax has a trailer, so a
description is stripped along the roles of its forms (`strip`).  From outside a form looks as
before, so the same plans are made for the stripped forms.

**Twins.**  Of two steps of building the second does what the first does and records nothing
(`Twin`).

* `stripped_alike` — the same tree, and no messages.
-/

namespace Recast.Surface

open List
open Build

/-! ## Stripping -/

mutual

/-- **A form without the annotations** that are detached from it and from the forms in it. -/
def strip : Form → Role → Form
  | .list forms, ρ =>
    let stripped := ((ρ.parts (forms.map look)).map (stripAll forms)).getD forms
    .list (if ρ.isLined (forms.map look) && isAnnotated (forms.map look) then stripped.dropLast
      else stripped)
  | form, _ => form

/-- Forms without their annotations, each in its role. -/
def stripAll : List Form → List Role → List Form
  | form :: forms, ρ :: ρs => strip form ρ :: stripAll forms ρs
  | forms, _ => forms

end

/-- A form ends with two annotations. -/
def EndsTwice : Form → Prop
  | .list forms =>
    isAnnotated (forms.map look) = true ∧ isAnnotated (forms.map look).dropLast = true
  | _ => False

lemma length_stripAll (forms : List Form) (ρs : List Role) :
    (stripAll forms ρs).length = forms.length := by
  induction forms generalizing ρs with
  | nil => cases ρs <;> rfl
  | cons form forms ih =>
    cases ρs with
    | nil => rfl
    | cons ρ ρs => exact congrArg (· + 1) (ih ρs)

/-- What stands at the head of a form is not seen to be stripped. -/
lemma look_stripAll (forms : List Form) (ρs : List Role) :
    look (.list (stripAll forms ρs)) = look (.list forms) ∧
    (2 ≤ forms.length → look (.list (stripAll forms ρs).dropLast) = look (.list forms)) := by
  match forms, ρs with
  | [], _ => exact ⟨rfl, nofun⟩
  | first :: rest, [] =>
    refine ⟨rfl, fun h => ?_⟩
    obtain ⟨second, rest, rfl⟩ :=
      exists_cons_of_ne_nil (length_pos_iff.mp (Nat.lt_of_succ_lt_succ h))
    cases first with
    | _ => rfl
  | first :: rest, ρ :: ρs =>
    have hfirst : ∀ rest', look (.list (strip first ρ :: rest')) =
        look (.list (first :: rest)) := by
      intro rest'
      cases first with
      | _ => rfl
    refine ⟨hfirst _, fun h => ?_⟩
    have hrest : stripAll rest ρs ≠ [] := by
      rw [← length_pos_iff, length_stripAll]
      exact Nat.lt_of_succ_lt_succ h
    rw [stripAll, dropLast_cons_of_ne_nil hrest]
    exact hfirst _

/-- Stripped forms look the same from outside. -/
lemma look_strip (form : Form) (ρ : Role) : look (strip form ρ) = look form := by
  cases form with
  | list forms =>
    obtain ⟨ρs, hρs⟩ : ∃ ρs, ((ρ.parts (forms.map look)).map (stripAll forms)).getD forms =
        stripAll forms ρs := by
      cases ρ.parts (forms.map look) with
      | none =>
        refine ⟨[], ?_⟩
        cases forms with
        | _ => rfl
      | some roles => exact ⟨roles, rfl⟩
    rw [strip, hρs]
    split
    next h =>
      have hlength := ((Bool.and_eq_true _ _).mp ((Bool.and_eq_true _ _).mp h).2).1
      exact (look_stripAll forms ρs).2 (by simpa using hlength)
    next => exact (look_stripAll forms ρs).1
  | _ => rfl

lemma map_look_stripAll (forms : List Form) (ρs : List Role) :
    (stripAll forms ρs).map look = forms.map look := by
  induction forms generalizing ρs with
  | nil => cases ρs <;> rfl
  | cons form forms ih =>
    cases ρs with
    | nil => rfl
    | cons ρ ρs => exact congrArg₂ List.cons (look_strip form ρ) (ih ρs)

/-! ## Twins -/

/-- A cursor that has met no annotations. -/
def Cursor.muted (c : Cursor) : Cursor := { c with expectations := [] }

section Twin

variable {α β : Type} {x x' : Build α} {f f' : α → Build β}

/-- **The second step of building does what the first does**, and records nothing. -/
def Twin (x x' : Build α) : Prop :=
  ∀ c a c', x.run c = .ok (a, c') → x'.run (Cursor.muted c) = .ok (a, Cursor.muted c')

lemma twin_pure (a : α) : Twin (pure a) (pure a) := by
  rintro c _ _ ⟨⟩
  rfl

lemma Twin.bind (hx : Twin x x') (hf : ∀ a, Twin (f a) (f' a)) : Twin (x >>= f) (x' >>= f') := by
  intro c b c' hrun
  obtain ⟨a, c₁, ha, hb⟩ := run_bind_ok hrun
  rw [StateT.run_bind, hx c a c₁ ha]
  exact hf a c₁ b c' hb

lemma twin_place : Twin place place := by
  rintro c _ _ ⟨⟩
  rfl

lemma twin_nextLine : Twin nextLine nextLine := by
  rintro c _ _ ⟨⟩
  rfl

lemma twin_note (forms : List Form) : Twin (note forms) (pure ()) := by
  intro c _ c' hrun
  obtain ⟨expectations, rfl⟩ := note_run hrun
  rfl

end Twin

/-- A form in a role has a twin, if no form in it that gets a line ends with two annotations. -/
def TwinForm (form : Form) (ρ : Role) : Prop :=
  (∀ p ∈ linedForms form ρ, ¬EndsTwice p.2) → Twin (read ρ form) (read ρ (strip form ρ))

lemma twin_mapM {ρ : Role} {forms : List Form} (hforms : ∀ form ∈ forms, TwinForm form ρ)
    (hsingle : ∀ p ∈ linedAll forms (replicate forms.length ρ), ¬EndsTwice p.2) :
    Twin (forms.mapM (read ρ)) ((stripAll forms (replicate forms.length ρ)).mapM (read ρ)) := by
  induction forms with
  | nil => exact twin_pure _
  | cons form forms ih =>
    obtain ⟨hform, hforms⟩ := forall_mem_cons.mp hforms
    obtain ⟨hfirst, hrest⟩ := forall_mem_append.mp hsingle
    rw [length_cons, replicate_succ, stripAll, mapM_cons, mapM_cons]
    exact (hform hfirst).bind fun v => (ih hforms hrest).bind fun vs => twin_pure _

/-- **Plans have twins**, if the forms they read do. -/
lemma twin_run {α : Type} {p : Plan α} {ls : List Look} {roles : Option (List Role)}
    (h : Takes p ls roles) {forms : List Form}
    (hls : forms.map look = ls) {ρs : List Role} (hroles : roles = some ρs)
    (hforms : ∀ form ∈ forms, ∀ ρ, ρ.isPart = true → TwinForm form ρ)
    (hsingle : ∀ p ∈ linedAll forms ρs, ¬EndsTwice p.2) :
    Twin (p.run forms) (p.run (stripAll forms ρs)) := by
  induction h generalizing forms ρs with
  | refuse => cases hroles
  | give => exact twin_pure _
  | place _ ih => exact twin_place.bind fun m => ih m hls hroles hforms hsingle
  | skip _ ih =>
    obtain ⟨form, forms, rfl, hl, hls⟩ := map_eq_cons_iff.mp hls
    obtain ⟨ρs, hρs, rfl⟩ := Option.map_eq_some_iff.mp hroles
    exact ih hls hρs (forall_mem_cons.mp hforms).2 (forall_mem_append.mp hsingle).2
  | blank hρ _ ih =>
    obtain ⟨form, forms, rfl, hl, hls⟩ := map_eq_cons_iff.mp hls
    obtain ⟨ρs, hρs, rfl⟩ := Option.map_eq_some_iff.mp hroles
    rw [form_of_look hl]
    exact ih hls hρs (forall_mem_cons.mp hforms).2 (forall_mem_append.mp hsingle).2
  | other hne _ ih =>
    rw [Plan.run, Plan.run, if_neg (head_isBlank (hls ▸ hne)),
      if_neg (head_isBlank (map_look_stripAll forms ρs ▸ hls ▸ hne))]
    exact ih hls hroles hforms hsingle
  | part hρ _ ih =>
    obtain ⟨form, forms, rfl, -, hls⟩ := map_eq_cons_iff.mp hls
    obtain ⟨ρs, hρs, rfl⟩ := Option.map_eq_some_iff.mp hroles
    obtain ⟨hfirst, hrest⟩ := forall_mem_append.mp hsingle
    exact (hforms form mem_cons_self _ hρ hfirst).bind fun v => ih v hls hρs
      (forall_mem_cons.mp hforms).2 hrest
  | inline hne _ ih =>
    obtain ⟨form, forms, rfl, -, hls⟩ := map_eq_cons_iff.mp hls
    obtain ⟨ρs, hρs, rfl⟩ := Option.map_eq_some_iff.mp hroles
    obtain ⟨hfirst, hrest⟩ := forall_mem_append.mp hsingle
    have hsame : strip form .optionalInline = strip form .inline ∧ linedForms form .optionalInline =
        linedForms form .inline := by
      cases form with
      | _ => exact ⟨rfl, rfl⟩
    rw [stripAll, hsame.1]
    exact (hforms form mem_cons_self .inline rfl (hsame.2 ▸ hfirst)).bind fun v =>
      ih v hls hρs (forall_mem_cons.mp hforms).2 hrest
  | short => cases hroles
  | all hρ =>
    cases hroles
    rw [← hls, length_map] at hsingle ⊢
    exact (twin_mapM (fun form hform => hforms form hform _ hρ) hsingle).bind fun vs => twin_pure _

/-- A list without annotations is as it was. -/
lemma bare_of_plain {forms : List Form} (h : isAnnotated (forms.map look) = false) :
    bare forms = forms ∧ note forms = pure () := by
  rw [bare, note, h]
  exact ⟨rfl, rfl⟩

lemma stripAll_append {front back : List Form} {ρs σs : List Role} (h : front.length = ρs.length) :
    stripAll (front ++ back) (ρs ++ σs) = stripAll front ρs ++ stripAll back σs := by
  induction front generalizing ρs with
  | nil =>
    cases ρs with
    | nil => rfl
    | cons ρ ρs => cases h
  | cons form front ih =>
    cases ρs with
    | nil => cases h
    | cons ρ ρs => exact congrArg (_ :: ·) (ih (Nat.succ.inj h))

/-- What is left of the items of a list that gets a line. -/
lemma strip_lined {ρ : Role} {forms rest : List Form} {roles roles' back : List Role}
    (hlined : ρ.isLined (forms.map look) = true)
    (hroles : ρ.parts (forms.map look) = some roles) (h : Parted ρ forms roles roles' rest back) :
    strip (.list forms) ρ = .list (stripAll (bare forms) roles') := by
  have hall : stripAll forms roles = stripAll (bare forms) roles' ++ stripAll rest back := by
    rw [h.split, ← stripAll_append h.length, ← h.items]
  have hrest := h.length_rest
  rw [strip, hroles, hlined, Option.map_some, Option.getD_some, hall, Bool.true_and]
  split at hrest
  next hann =>
    obtain ⟨last, hlast⟩ := length_eq_one_iff.mp ((length_stripAll rest back).trans hrest)
    rw [if_pos hann, hlast, dropLast_concat]
  next hann =>
    rw [length_eq_zero_iff] at hrest
    rw [if_neg hann, hrest, length_eq_zero_iff.mp (length_stripAll [] back), append_nil]

/-- A list has a twin, if its items do. -/
lemma twin_list {ρ : Role} (hρ : ρ.isRead = true) {forms : List Form}
    (hforms : ∀ form ∈ forms, ∀ ρ, ρ.isPart = true → TwinForm form ρ) :
    TwinForm (.list forms) ρ := by
  intro hsingle c v c' hrun
  obtain ⟨roles, hroles⟩ := exists_parts hρ hrun
  rw [linedForms, hroles, Option.map_some, Option.getD_some] at hsingle
  obtain ⟨hself, hsingle⟩ := forall_mem_append.mp hsingle
  have hplanned := (read_list ρ forms).ok_iff.mp hrun
  rw [planned] at hplanned
  by_cases h : ρ.isLined (forms.map look) = true
  · obtain ⟨roles', rest, back, hparted⟩ := exists_parted h hroles
    have hlook := map_look_stripAll (bare forms) roles'
    have hplain : isAnnotated ((bare forms).map look) = false := by
      rw [if_pos h] at hself
      have hself := forall_mem_singleton.mp hself
      rw [bare]
      split
      next hann => exact map_dropLast ▸ Bool.eq_false_iff.mpr fun htwice => hself ⟨hann, htwice⟩
      next hann => exact Bool.eq_false_iff.mpr hann
    have hbare := bare_of_plain (hlook.symm ▸ hplain)
    rw [if_pos h] at hplanned
    rw [strip_lined h hroles hparted]
    refine (read_list ρ _).ok_iff.mpr ?_
    rw [planned, hlook, hparted.lined, if_pos h, hbare.1, hbare.2, hlook]
    refine (twin_nextLine.bind fun _ => (twin_note forms).bind fun _ =>
      twin_run (takes_plan hρ _) rfl hparted.parts ?_ ?_) c v c' hplanned
    · intro form hform
      refine hforms form ?_
      rw [hparted.items]
      exact mem_append_left _ hform
    · have hbegins := linedAll_prefix (bare forms) rest roles' back
      rw [← hparted.items, ← hparted.split] at hbegins
      exact fun p hp => hsingle p (hbegins.subset hp)
  · rw [if_neg h] at hplanned
    rw [parts_unlined (Bool.eq_false_iff.mpr h)] at hroles
    have hlook := map_look_stripAll forms roles
    have hstrip : strip (.list forms) ρ = .list (stripAll forms roles) := by
      rw [strip, parts_unlined (Bool.eq_false_iff.mpr h), hroles, Bool.eq_false_iff.mpr h]
      rfl
    rw [hstrip]
    refine (read_list ρ _).ok_iff.mpr ?_
    rw [planned, hlook, if_neg h]
    exact twin_run (takes_plan hρ _) rfl hroles hforms hsingle c v c' hplanned

lemma twin_refuse {α : Type} (cause : Malformed) : Twin (refuse cause : Build α) (refuse cause) :=
  nofun

lemma twin_plainIdent (form : Form) : Twin (plainIdent form) (plainIdent form) := by
  cases form with
  | symbol name =>
    show Twin (if name.toList.contains '.' then _ else _)
      (if name.toList.contains '.' then _ else _)
    split
    · exact twin_refuse _
    · exact twin_place.bind fun _ => twin_pure _
  | _ => exact nofun

lemma twin_atom {form : Form} (hform : ∀ forms, form ≠ .list forms) (ρ : Role) :
    Twin (read ρ form) (read ρ form) := by
  have hexpr : Twin form.reading.expr form.reading.expr := by
    cases form with
    | symbol name =>
      refine twin_place.bind fun m => ?_
      split
      · exact twin_refuse _
      · split
        · exact twin_refuse _
        · exact twin_pure _
    | text | integer | real => exact twin_place.bind fun _ => twin_pure _
    | list forms => exact absurd rfl (hform forms)
    | quoted | brackets => exact twin_refuse _
  have hreading : form.reading = .ofAtom form form.reading.expr := by
    cases form with
    | list forms => exact absurd rfl (hform forms)
    | _ => rfl
  cases ρ with
  | expr => exact hexpr
  | element =>
    rw [read, hreading]
    exact hexpr
  | name => exact twin_plainIdent form
  | names =>
    have hnames : namesOf form = plainIdent form >>= fun i => pure [i] := by
      cases form with
      | list forms => exact absurd rfl (hform forms)
      | _ => exact map_eq_pure_bind _ _
    rw [read, hnames]
    exact (twin_plainIdent form).bind fun _ => twin_pure _
  | path =>
    cases form with
    | symbol | text => exact twin_place.bind fun _ => twin_pure _
    | _ => exact twin_refuse _
  | item =>
    cases form with
    | list forms => exact absurd rfl (hform forms)
    | _ => exact twin_refuse _
  | optionalInline | trailer | message | keyword | ignored => exact twin_refuse _
  | _ =>
    rw [read, hreading]
    exact twin_refuse _

/-- **Reading a stripped form** gives the same as reading the form. -/
lemma twin_form (form : Form) : ∀ ρ : Role, ρ.isRead = true → TwinForm form ρ := by
  induction form using Form.induction with
  | atom form hform =>
    intro ρ hρ _
    have hstrip : strip form ρ = form := by
      cases form with
      | list forms => exact absurd rfl (hform forms)
      | _ => rfl
    rw [hstrip]
    exact twin_atom hform ρ
  | list forms ih =>
    exact fun ρ hρ => twin_list hρ fun form hform σ hσ => ih form hform σ (Role.isRead_of_isPart hσ)

/-! ## Messages -/

mutual

/-- The messages of the annotations that are detached from a form and from the forms in it, in the
order in which they are written. -/
def erased : Form → Role → List String
  | .list forms, ρ => ((ρ.parts (forms.map look)).map (erasedAll forms)).getD [] ++
    if ρ.isLined (forms.map look) then wantsOf forms else []
  | _, _ => []

/-- The messages that are detached from some forms, each in its role. -/
def erasedAll : List Form → List Role → List String
  | form :: forms, ρ :: ρs => erased form ρ ++ erasedAll forms ρs
  | _, _ => []

end

mutual

/-- Forms end with the messages that are detached from them. -/
lemma erased_perm : (form : Form) → (ρ : Role) →
    ((linedForms form ρ).flatMap (·.2.wants)).Perm (erased form ρ)
  | .list forms, ρ => by
    rw [linedForms, erased, flatMap_append]
    refine perm_append_comm.trans (Perm.append ?_ ?_)
    · cases ρ.parts (forms.map look) with
      | none => exact .refl _
      | some roles => exact erasedAll_perm forms roles
    · split
      · rw [flatMap_singleton]
        exact .refl _
      · exact .refl _
  | .symbol _, _ | .text _, _ | .integer _, _ | .real _, _ | .quoted _, _
  | .brackets _, _ => .refl _

lemma erasedAll_perm : (forms : List Form) → (ρs : List Role) →
    ((linedAll forms ρs).flatMap (·.2.wants)).Perm (erasedAll forms ρs)
  | form :: forms, ρ :: ρs => by
    rw [linedAll, erasedAll, flatMap_append]
    exact (erased_perm form ρ).append (erasedAll_perm forms ρs)
  | [], _ | _ :: _, [] => .refl _

end

lemma stripAll_replicate (forms : List Form) (ρ : Role) :
    stripAll forms (replicate forms.length ρ) = forms.map (strip · ρ) := by
  induction forms with
  | nil => rfl
  | cons form forms ih => rw [length_cons, replicate_succ, stripAll, ih, map_cons]

lemma message_messagesOn (file : String) (line : Nat) (lined : List (Role × Form)) :
    (messagesOn file line lined).map Expectation.message = lined.flatMap (·.2.wants) := by
  induction lined generalizing line with
  | nil => rfl
  | cons p lined ih =>
    rw [messagesOn, zipIdx_cons, flatMap_cons, map_append, flatMap_cons, ← ih (line + 1), map_map]
    exact congrArg (· ++ _) (map_id _)

/-! ## Descriptions -/

/-- **Annotations do not matter.**

If a description is accepted and no form in it that gets a line ends with two annotations, it is
also accepted without those that are detached from its forms.  Then it describes the same tree and
records no messages, so that a text of it gives the same unit, with the same types, bindings and
graphs.  The messages that are recorded otherwise are the detached ones, each once, in the order of
the lines of the forms that end with them. -/
theorem stripped_alike {file : String} {forms : List Form} {f : File} {es : List Expectation}
    (h : File.ofForms file forms = .ok (f, es))
    (hsingle : ∀ p ∈ forms.flatMap (linedForms · .item), ¬EndsTwice p.2) :
    let stripped := forms.map (strip · .item)
    File.ofForms file stripped = .ok (f, []) ∧
    (∀ text text', Form.read text = .ok forms → Form.read text' = .ok stripped →
      CompilationUnit.ofText file text' =
      (CompilationUnit.ofText file text).map fun built => (built.1, [], built.2.2)) ∧
    es.map Expectation.message = (forms.flatMap (linedForms · .item)).flatMap (·.2.wants) ∧
    (es.map Expectation.message).Perm (forms.flatMap (erased · .item)) := by
  intro stripped
  obtain ⟨items, c, hrun, rfl, rfl⟩ := File.run_of_ofForms h
  have hmessages : c.expectations.map Expectation.message =
      (forms.flatMap (linedForms · .item)).flatMap (·.2.wants) := by
    rw [(played_items hrun).expectations, noted_signsOf]
    exact message_messagesOn _ _ _
  have hstripped : File.ofForms file stripped = .ok (File.ofItems file items, []) := by
    have htwin :=
      twin_mapM (fun form _ => twin_form form .item rfl)
        (linedAll_replicate forms .item ▸ hsingle) _ _ _ hrun
    rw [stripAll_replicate] at htwin
    rw [File.ofForms]
    exact htwin ▸ rfl
  refine ⟨hstripped, fun text text' htext htext' => ?_, hmessages, ?_⟩
  · rw [CompilationUnit.ofText, CompilationUnit.ofText, File.ofText, File.ofText, htext, htext']
    dsimp only
    rw [hstripped, h]
    show (CompilationUnit.ofFile file (File.ofItems file items) >>= _) =
      (CompilationUnit.ofFile file (File.ofItems file items) >>= _).map _
    cases CompilationUnit.ofFile file (File.ofItems file items) with
    | _ => rfl
  · rw [hmessages, List.flatMap_assoc]
    exact List.Perm.flatMap_left forms fun form _ => erased_perm form .item

/-- `(func f () () (return (want "a")) (want "b"))`. -/
def nestedMessages : List Form := [.list [.symbol "func", .symbol "f", .list [], .list [],
  .list [.symbol "return", .list [.symbol "want", .text "a"]], .list [.symbol "want", .text "b"]]]

lemma nestedMessages_single :
    ∀ p ∈ nestedMessages.flatMap (linedForms · .item), ¬EndsTwice p.2 := by
  have hlined : nestedMessages.flatMap (linedForms · .item) =
      [(.item, nestedMessages.headD (.list [])),
        (.stmt, .list [.symbol "return", .list [.symbol "want", .text "a"]])] := rfl
  rw [hlined]
  simp [nestedMessages, EndsTwice, isAnnotated, look]

theorem stripped_alike_nested : ∃ f es, File.ofForms "u" nestedMessages = .ok (f, es) ∧
    File.ofForms "u"
      [.list [.symbol "func", .symbol "f", .list [], .list [], .list [.symbol "return"]]] =
        .ok (f, []) ∧
    es.map Expectation.message = ["b", "a"] := by
  obtain ⟨f, es, h⟩ : ∃ f es, File.ofForms "u" nestedMessages = .ok (f, es) := ⟨_, _, rfl⟩
  obtain ⟨hstripped, -, hmessages, -⟩ := stripped_alike h nestedMessages_single
  exact ⟨f, es, h, hstripped, hmessages⟩

/-- Messages are not recorded in the order in which they are written: the message of the function
comes first. -/
theorem message_overtaken :
    (∃ f, File.ofForms "u" nestedMessages = .ok (f, [⟨"u", 1, "b"⟩, ⟨"u", 2, "a"⟩])) ∧
    nestedMessages.flatMap (erased · .item) = ["a", "b"] ∧
    ∀ p ∈ nestedMessages.flatMap (linedForms · .item), ¬EndsTwice p.2 :=
  ⟨⟨_, rfl⟩, rfl, nestedMessages_single⟩

end Recast.Surface
