import Mathlib.Data.List.Basic
import Recast.Form.Reader

/-!
# Descriptions one below the other

Two descriptions that can be read can be written one below the other, and what is read then is what
they hold together.

**Derivations.**  `Reads cs forms rest` says that forms up to a closing bracket or the end are read
from a text, with what is left of it.  It has one rule for each kind of character that can stand
between forms, and describes what `items` returns.

**Framing.**  What is read in front of a closing bracket does not depend on what comes behind it
(`Reads.frame`).  So the brackets around a description are closed by the last character of the text
or not at all (`read_eq_ok_iff`), and another description can begin at the line end in front of it
(`Reads.append`).

* `read_append` — the forms of two descriptions, one below the other.
-/

namespace Recast.Form

open List

/-! ## Derivations -/

/-- Forms are read from a text up to a closing bracket or the end. -/
inductive Reads : List Char → List Form → List Char → Prop
  | done : Reads [] [] []
  | gap {c : Char} {cs rest : List Char} {forms : List Form} (h : start c = .gap) :
      Reads cs forms rest → Reads (c :: cs) forms rest
  | comment {c : Char} {cs rest : List Char} {forms : List Form} (h : start c = .comment) :
      Reads (afterComment cs) forms rest → Reads (c :: cs) forms rest
  | closer {c : Char} {cs : List Char} (h : start c = .closer) : Reads (c :: cs) [] (c :: cs)
  | opener {c : Char} {cs after rest : List Char} {forms others : List Form} {bracket : Bracket}
      (h : start c = .opener bracket) :
      Reads cs forms (bracket.closer :: after) → Reads after others rest →
        Reads (c :: cs) (bracket.form forms :: others) rest
  | apostrophe {c : Char} {cs rest : List Char} {form : Form} {forms : List Form}
      (h : start c = .apostrophe) :
      Reads cs (form :: forms) rest → Reads (c :: cs) (.quoted form :: forms) rest
  | text {c : Char} {cs inside after rest : List Char} {forms : List Form} (h : start c = .text)
      (ht : readText cs = some (inside, after)) : Reads after forms rest →
        Reads (c :: cs) (.text (String.ofList inside) :: forms) rest
  | atom {c : Char} {cs word after rest : List Char} {forms : List Form} (h : start c = .atom)
      (ha : readAtom (c :: cs) = (word, after)) : Reads after forms rest →
        Reads (c :: cs) (ofAtom (String.ofList word) :: forms) rest

variable {cs rest : List Char} {forms : List Form} {c d : Char}

lemma exists_of_map_eq_ok {α β : Type} {f : α → β} {x : Except Fault α} {b : β}
    (h : x.map f = .ok b) :
    ∃ a, x = .ok a ∧ f a = b := by
  cases x with
  | error e => cases h
  | ok a => exact ⟨a, rfl, Except.ok.inj h⟩

lemma exists_of_bind_eq_ok {α β : Type} {f : α → Except Fault β} {x : Except Fault α} {b : β}
    (h : x >>= f = .ok b) :
    ∃ a, x = .ok a ∧ f a = .ok b := by
  cases x with
  | error e => cases h
  | ok a => exact ⟨a, rfl, h⟩

/-- What is read has a derivation. -/
lemma reads_of_items {cs : List Char} : ∀ {b : Batch cs.length}, items cs = .ok b →
    Reads cs b.forms b.rest := by
  fun_induction items cs with
  | case1 =>
    intro b hb
    cases hb
    exact .done
  | case2 c cs hc ih =>
    intro b hb
    obtain ⟨b', hb', rfl⟩ := exists_of_map_eq_ok hb
    exact .gap hc (ih hb')
  | case3 c cs hc short ih =>
    intro b hb
    obtain ⟨b', hb', rfl⟩ := exists_of_map_eq_ok hb
    exact .comment hc (ih hb')
  | case4 c cs hc =>
    intro b hb
    cases hb
    exact .closer hc
  | case5 c cs bracket hc ihinner ihafter =>
    intro b hb
    obtain ⟨inner, hinner, hb⟩ := exists_of_bind_eq_ok hb
    split at hb
    next => cases hb
    next d after hrest =>
      split at hb
      next hd =>
        obtain ⟨b', hb', rfl⟩ := exists_of_map_eq_ok hb
        have hreads := ihinner hinner
        rw [hrest, beq_iff_eq.mp hd] at hreads
        exact .opener hc hreads (ihafter inner d after hrest hb')
      next => cases hb
  | case6 c cs hc ih =>
    intro b hb
    obtain ⟨b', hb', hb⟩ := exists_of_bind_eq_ok hb
    split at hb
    next => cases hb
    next form forms hforms =>
      cases hb
      have hreads := ih hb'
      rw [hforms] at hreads
      exact .apostrophe hc hreads
  | case7 c cs hc ht =>
    intro b hb
    cases hb
  | case8 c cs hc inside after ht short ih =>
    intro b hb
    obtain ⟨b', hb', rfl⟩ := exists_of_map_eq_ok hb
    exact .text hc ht (ih hb')
  | case9 c cs hc short ih =>
    intro b hb
    obtain ⟨b', hb', rfl⟩ := exists_of_map_eq_ok hb
    exact .atom hc rfl (ih hb')

/-- What has a derivation is read. -/
lemma items_of_reads (h : Reads cs forms rest) : ∃ b, items cs = .ok b ∧
    b.forms = forms ∧ b.rest = rest := by
  induction h with
  | done => exact ⟨_, by rw [items], rfl, rfl⟩
  | gap hc _ ih =>
    obtain ⟨b, hb, rfl, rfl⟩ := ih
    refine ⟨b.weaken (Nat.le_succ _), ?_, rfl, rfl⟩
    rw [items]
    split <;> simp_all only [reduceCtorEq, Except.map]
  | comment hc _ ih =>
    obtain ⟨b, hb, rfl, rfl⟩ := ih
    refine ⟨b.weaken (Nat.le_succ_of_le (afterComment_length _)), ?_, rfl, rfl⟩
    rw [items]
    split <;> simp_all only [reduceCtorEq, Except.map]
  | closer hc =>
    refine ⟨.none _, ?_, rfl, rfl⟩
    rw [items]
    split <;> simp_all only [reduceCtorEq]
  | opener hc _ _ ihinner ihafter =>
    obtain ⟨inner, hinner, rfl, hrest⟩ := ihinner
    obtain ⟨b, hb, rfl, rfl⟩ := ihafter
    rw [items]
    split <;> simp_all only [reduceCtorEq]
    cases hc
    dsimp only [bind, Except.bind]
    split
    next hnil => cases hrest.symm.trans hnil
    next d after hcons =>
      cases hrest.symm.trans hcons
      rw [if_pos (beq_self_eq_true _), hb]
      exact ⟨_, rfl, rfl, rfl⟩
  | apostrophe hc _ ih =>
    obtain ⟨b, hb, hforms, rfl⟩ := ih
    rw [items]
    split <;> simp_all only [reduceCtorEq]
    dsimp only [bind, Except.bind]
    split
    next hnil => cases hforms.symm.trans hnil
    next form forms hcons =>
      cases hforms.symm.trans hcons
      exact ⟨_, rfl, rfl, rfl⟩
  | text hc ht _ ih =>
    obtain ⟨b, hb, rfl, rfl⟩ := ih
    refine ⟨b.cons (Nat.le_succ_of_le (Nat.le_of_lt (readText_length ht))) _, ?_, rfl, rfl⟩
    rw [items]
    split <;> simp_all only [reduceCtorEq]
    split
    next hnone => cases ht.symm.trans hnone
    next inside after hsome =>
      cases ht.symm.trans hsome
      rw [hb]
      rfl
  | atom hc ha _ ih =>
    obtain ⟨b, hb, rfl, rfl⟩ := ih
    have hafter := congrArg Prod.snd ha
    have hword := congrArg Prod.fst ha
    subst hafter hword
    clear ha
    refine ⟨b.cons (Nat.le_succ_of_le (readAtom_cons_length (isDelimiter_of_start hc) _)) _,
      ?_, rfl, rfl⟩
    rw [items]
    split <;> simp_all only [reduceCtorEq, Except.map]

/-! ## Framing -/

/-- A text ends with a quote, and what is behind it does not matter. -/
lemma readText_frame {cs inside after : List Char} (h : readText cs = some (inside, after)) :
    ∃ p, cs = p ++ '"' :: after ∧ ∀ after', readText (p ++ '"' :: after') =
      some (inside, after') := by
  fun_induction readText cs generalizing inside after with
  | case1 => cases h
  | case2 c rest hc =>
    cases h
    rw [beq_iff_eq.mp hc]
    exact ⟨[], rfl, fun _ => by rw [readText.eq_def]; rfl⟩
  | case3 => cases h
  | case4 c hquote hslash d rest ih =>
    obtain ⟨⟨inside', after'⟩, hrest, heq⟩ := Option.map_eq_some_iff.mp h
    cases heq
    obtain ⟨p, rfl, hframe⟩ := ih hrest
    refine ⟨c :: d :: p, rfl, fun after' => ?_⟩
    simp only [cons_append, readText, hquote, hslash, hframe, if_true, if_false,
      Option.map_some, Bool.false_eq_true]
  | case5 c rest hquote hslash ih =>
    obtain ⟨⟨inside', after'⟩, hrest, heq⟩ := Option.map_eq_some_iff.mp h
    cases heq
    obtain ⟨p, rfl, hframe⟩ := ih hrest
    refine ⟨c :: p, rfl, fun after' => ?_⟩
    rw [cons_append, readText.eq_def]
    simp only [hquote, hslash, hframe, if_false, Option.map_some, Bool.false_eq_true]

/-- An atom ends in front of a character, and what is behind that one does not matter. -/
lemma readAtom_frame {cs word after : List Char} (h : readAtom cs = (word, after)) :
    ∃ p, cs = p ++ after ∧
    ∀ after', after' ≠ [] → after'.head? = after.head? →
      readAtom (p ++ after') = (word, after') := by
  fun_induction readAtom cs generalizing word after with
  | case1 =>
    cases h
    exact ⟨[], rfl, fun _ hne hhead => absurd (head?_eq_none_iff.mp hhead) hne⟩
  | case2 c hc =>
    cases h
    exact ⟨[c], rfl, fun _ hne hhead => absurd (head?_eq_none_iff.mp hhead) hne⟩
  | case3 c hc d rest ih =>
    cases h
    obtain ⟨p, heq, hframe⟩ := ih rfl
    refine ⟨c :: d :: p, congrArg (c :: d :: ·) heq, fun after' hne hhead => ?_⟩
    simp only [cons_append, readAtom, hc, if_true, hframe after' hne hhead]
  | case4 c rest hslash hc =>
    cases h
    refine ⟨[], rfl, fun after' hne hhead => ?_⟩
    cases after' with
    | nil => cases hhead
    | cons d after' =>
      cases hhead
      rw [nil_append, readAtom.eq_def]
      simp only [hslash, hc, if_true, if_false, Bool.false_eq_true]
  | case5 c rest hslash hc ih =>
    cases h
    obtain ⟨p, heq, hframe⟩ := ih rfl
    refine ⟨c :: p, congrArg (c :: ·) heq, fun after' hne hhead => ?_⟩
    rw [cons_append, readAtom.eq_def]
    simp only [hslash, hc, if_false, Bool.false_eq_true, hframe after' hne hhead]

/-- An atom has at least one character. -/
lemma readAtom_frame_cons {cs word after : List Char} (hc : start c = .atom)
    (h : readAtom (c :: cs) = (word, after)) :
    ∃ p, cs = p ++ after ∧
      ∀ after', after' ≠ [] → after'.head? = after.head? →
        readAtom (c :: p ++ after') = (word, after') := by
  obtain ⟨p, heq, hframe⟩ := readAtom_frame h
  cases p with
  | nil =>
    have hlength := readAtom_cons_length (isDelimiter_of_start hc) cs
    rw [h, ← nil_append after, ← heq] at hlength
    exact absurd hlength (Nat.not_succ_le_self _)
  | cons d p =>
    cases heq
    exact ⟨p, rfl, hframe⟩

lemma afterComment_line {line : List Char} (h : '\n' ∉ line) (after : List Char) :
    afterComment (line ++ '\n' :: after) = after := by
  have hline : ∀ c ∈ line, (c != '\n') = true := fun c hc => bne_iff_ne.mpr fun heq => h (heq ▸ hc)
  rw [afterComment, dropWhile_append_of_pos hline]
  rfl

lemma afterComment_of_not_mem (h : '\n' ∉ cs) : afterComment cs = [] := by
  have hall : ∀ c ∈ cs, (c != '\n') = true := fun c hc => bne_iff_ne.mpr fun heq => h (heq ▸ hc)
  rw [afterComment, ← append_nil cs, dropWhile_append_of_pos hall]
  rfl

/-- **What is read in front of a closing bracket** does not depend on what comes behind it. -/
lemma Reads.frame (h : Reads cs forms rest) : ∀ {d after}, rest = d :: after →
    ∃ p, cs = p ++ d :: after ∧ ∀ after', Reads (p ++ d :: after') forms (d :: after') := by
  induction h with
  | done => exact nofun
  | @gap c _ _ _ hc _ ih =>
    intro d after hrest
    obtain ⟨p, rfl, hframe⟩ := ih hrest
    exact ⟨c :: p, rfl, fun after' => .gap hc (hframe after')⟩
  | @comment c cs _ _ hc _ ih =>
    intro d after hrest
    obtain ⟨p, heq, hframe⟩ := ih hrest
    by_cases hline : '\n' ∈ cs
    · obtain ⟨line, left, rfl, hno⟩ := eq_append_cons_of_mem hline
      rw [afterComment_line hno] at heq
      refine ⟨c :: line ++ '\n' :: p, by simp [heq], fun after' => ?_⟩
      rw [append_assoc]
      refine .comment hc ?_
      exact (afterComment_line hno (p ++ d :: after')).symm ▸ hframe after'
    · rw [afterComment_of_not_mem hline] at heq
      cases p <;> cases heq
  | closer hc =>
    rintro d after ⟨⟩
    exact ⟨[], rfl, fun _ => .closer hc⟩
  | @opener c _ _ _ _ _ bracket hc _ _ ihinner ihafter =>
    intro d after hrest
    obtain ⟨p, rfl, hframe⟩ := ihafter hrest
    obtain ⟨q, rfl, hinner⟩ := ihinner rfl
    refine ⟨c :: q ++ bracket.closer :: p, by simp, fun after' => ?_⟩
    rw [append_assoc]
    exact .opener hc (hinner _) (hframe after')
  | @apostrophe c _ _ _ _ hc _ ih =>
    intro d after hrest
    obtain ⟨p, rfl, hframe⟩ := ih hrest
    exact ⟨c :: p, rfl, fun after' => .apostrophe hc (hframe after')⟩
  | @text c _ _ _ _ _ hc ht _ ih =>
    intro d after hrest
    obtain ⟨p, rfl, hframe⟩ := ih hrest
    obtain ⟨q, rfl, htext⟩ := readText_frame ht
    refine ⟨c :: q ++ '"' :: p, by simp, fun after' => ?_⟩
    rw [List.append_assoc]
    exact .text hc (htext _) (hframe after')
  | @atom c _ _ _ _ _ hc ha _ ih =>
    intro d after hrest
    obtain ⟨p, rfl, hframe⟩ := ih hrest
    obtain ⟨q, rfl, hatom⟩ := readAtom_frame_cons hc ha
    refine ⟨c :: q ++ p, by simp, fun after' => ?_⟩
    rw [List.append_assoc]
    exact .atom hc (hatom _ (by simp) (by cases p <;> rfl)) (hframe after')

/-! ## The brackets around a description -/

/-- What is inside the brackets around a description, and the one that closes them. -/
def closed (cs : List Char) : List Char := cs ++ ['\n', ')']

/-- The first character of a description in brackets. -/
lemma cons_eq_closed {s : List Char} (h : c :: cs = closed s) :
    c = '\n' ∧ cs = [')'] ∧ s = [] ∨ ∃ s', s = c :: s' ∧ cs = closed s' := by
  cases s with
  | nil =>
    cases h
    exact .inl ⟨rfl, rfl, rfl⟩
  | cons _ s =>
    cases h
    exact .inr ⟨s, rfl, rfl⟩

/-- Where a description in brackets can be cut. -/
lemma closed_cut {p after : List Char} (h : closed cs = p ++ after) (hlength : 2 ≤ after.length) :
    ∃ s, cs = p ++ s ∧ after = closed s := by
  rcases List.append_eq_append_iff.mp h with ⟨s, rfl, heq⟩ | ⟨s, rfl, heq⟩
  · have hs : s = [] := by
      have := congrArg List.length heq
      simp only [List.length_cons, List.length_nil, List.length_append] at this
      exact List.length_eq_zero_iff.mp (by omega)
    subst hs
    exact ⟨[], by simp, heq.symm⟩
  · exact ⟨s, rfl, heq⟩

lemma closed_cut_cons {p after : List Char} (h : closed cs = p ++ d :: after) (hd : d ≠ '\n')
    (hafter : after ≠ []) :
    ∃ s, cs = p ++ d :: s ∧ after = closed s := by
  obtain ⟨s, rfl, heq⟩ := closed_cut h (Nat.succ_le_succ (List.length_pos_iff.mpr hafter))
  cases s with
  | nil =>
    cases heq
    exact absurd rfl hd
  | cons e s =>
    cases heq
    exact ⟨s, rfl, rfl⟩

/-- A comment takes the line that is added, or it ends before. -/
lemma afterComment_append (cs : List Char) : (∀ after, afterComment (cs ++ '\n' :: after) = after) ∨
    ∃ s, s <:+ cs ∧ ∀ after, afterComment (cs ++ '\n' :: after) = s ++ '\n' :: after := by
  by_cases hline : '\n' ∈ cs
  · obtain ⟨line, s, rfl, hno⟩ := List.eq_append_cons_of_mem hline
    refine .inr ⟨s, ⟨line ++ ['\n'], by simp⟩, fun after => ?_⟩
    rw [List.append_assoc]
    exact afterComment_line hno (s ++ '\n' :: after)
  · exact .inl (afterComment_line hline)

/-- A backslash at the end is all that could join an atom with the line that is added. -/
lemma readAtom_closed (hend : ¬['\\'] <:+ cs) : 2 ≤ (readAtom (closed cs)).2.length := by
  induction cs using readAtom.induct with
  | case1 => exact Nat.le_refl 2
  | case2 c hc => exact absurd (beq_iff_eq.mp hc ▸ List.suffix_rfl) hend
  | case3 c hc d rest ih =>
    have hrest := ih fun h => hend (h.trans ⟨[c, d], rfl⟩)
    simpa only [closed, List.cons_append, readAtom, hc, if_true] using hrest
  | case4 c rest hslash hc =>
    rw [closed, List.cons_append, readAtom.eq_def]
    simp [hslash, hc]
  | case5 c rest hslash hc ih =>
    have hrest := ih fun h => hend (h.trans ⟨[c], rfl⟩)
    rw [closed] at hrest
    rw [closed, List.cons_append, readAtom.eq_def]
    simpa only [hslash, hc, if_false, Bool.false_eq_true] using hrest

/-- The last bracket is met between forms. -/
lemma Reads.ne_closed (h : Reads cs forms rest) : forms = [] → rest = [] → cs ≠ [')'] ∧
    ∀ s, cs ≠ closed s := by
  induction h with
  | done => exact fun _ _ => ⟨nofun, fun s h => by cases s <;> cases h⟩
  | gap hc _ ih =>
    intro hforms hrest
    obtain ⟨hlast, hclosed⟩ := ih hforms hrest
    refine ⟨fun heq => ?_, fun s heq => ?_⟩
    · cases heq
      cases hc
    · rcases cons_eq_closed heq with ⟨-, heq, -⟩ | ⟨s', -, heq⟩
      · exact hlast heq
      · exact hclosed s' heq
  | comment hc _ ih =>
    intro hforms hrest
    obtain ⟨hlast, hclosed⟩ := ih hforms hrest
    refine ⟨fun heq => ?_, fun s heq => ?_⟩
    · cases heq
      cases hc
    · rcases cons_eq_closed heq with ⟨rfl, -, -⟩ | ⟨s', -, rfl⟩
      · cases hc
      · rcases afterComment_append s' with hnone | ⟨s, -, hsome⟩
        · exact hlast (hnone _)
        · exact hclosed s (hsome _)
  | closer => exact fun _ => nofun
  | opener | apostrophe | text | atom => exact nofun

/-- Nothing is left of nothing. -/
lemma Reads.ne_nil (h : Reads cs forms (d :: rest)) : cs ≠ [] := by
  rintro rfl
  cases h

lemma Reads.nil_of_closer (h : Reads [')'] forms rest) : forms = [] := by
  cases h with
  | closer => rfl
  | gap hc | comment hc | opener hc | apostrophe hc | text hc | atom hc => cases hc

/-- **Where a description ends another can begin.** -/
lemma Reads.append (h : Reads cs forms rest) : rest = [')'] → ∀ {s}, cs = closed s → ¬['\\'] <:+ s →
    ∀ {left others rest'}, Reads left others rest' →
      Reads (s ++ '\n' :: left) (forms ++ others) rest' := by
  induction h with
  | done => exact nofun
  | @gap c cs _ _ hc h ih =>
    rintro rfl s heq hend left others rest' hleft
    rcases cons_eq_closed heq with ⟨rfl, rfl, rfl⟩ | ⟨s', rfl, htail⟩
    · rw [h.nil_of_closer]
      exact .gap hc hleft
    · exact .gap hc (ih rfl htail (fun h => hend (h.trans ⟨[c], rfl⟩)) hleft)
  | @comment c cs _ _ hc h ih =>
    rintro rfl s heq hend left others rest' hleft
    rcases cons_eq_closed heq with ⟨rfl, -, -⟩ | ⟨s', rfl, rfl⟩
    · cases hc
    · rw [List.cons_append]
      refine .comment hc ?_
      rcases afterComment_append s' with hnone | ⟨s, hsuffix, hsome⟩
      · rw [closed, hnone] at h
        rw [hnone, h.nil_of_closer]
        exact hleft
      · rw [hsome]
        exact ih rfl (hsome _) (fun h => hend (h.trans (hsuffix.trans ⟨[c], rfl⟩))) hleft
  | closer hc =>
    rintro heq s hs
    cases heq
    rcases cons_eq_closed hs with ⟨hc, -, -⟩ | ⟨s', -, hs⟩
    · cases hc
    · cases s' <;> cases hs
  | @opener c cs _ _ _ _ bracket hc hinner hafter _ ih =>
    rintro rfl s heq hend left others rest' hleft
    obtain ⟨p, rfl, hframe⟩ := hinner.frame rfl
    obtain ⟨s', rfl, rfl⟩ :=
      closed_cut_cons (p := c :: p) heq.symm (by cases bracket <;> decide) hafter.ne_nil
    have hrest := ih rfl rfl (fun h => hend (h.trans ⟨c :: p ++ [bracket.closer], by simp⟩)) hleft
    simp only [List.append_assoc, List.cons_append]
    exact .opener hc (hframe _) hrest
  | @apostrophe c _ _ _ _ hc _ ih =>
    rintro rfl s heq hend left others rest' hleft
    rcases cons_eq_closed heq with ⟨rfl, -, -⟩ | ⟨s', rfl, htail⟩
    · cases hc
    · exact .apostrophe hc (ih rfl htail (fun h => hend (h.trans ⟨[c], rfl⟩)) hleft)
  | @text c _ _ _ _ _ hc ht hafter ih =>
    rintro rfl s heq hend left others rest' hleft
    obtain ⟨p, rfl, hframe⟩ := readText_frame ht
    obtain ⟨s', rfl, rfl⟩ := closed_cut_cons (p := c :: p) heq.symm (by decide) hafter.ne_nil
    have hrest := ih rfl rfl (fun h => hend (h.trans ⟨c :: p ++ ['"'], by simp⟩)) hleft
    simp only [append_assoc, cons_append]
    exact .text hc (hframe _) hrest
  | @atom c _ _ _ _ _ hc ha hafter ih =>
    rintro rfl s heq hend left others rest' hleft
    obtain ⟨p, rfl, hframe⟩ := readAtom_frame_cons hc ha
    have hlength := readAtom_closed hend
    rw [← heq, ha] at hlength
    obtain ⟨s', rfl, rfl⟩ := closed_cut (p := c :: p) heq.symm hlength
    have hrest := ih rfl rfl (fun h => hend (h.trans ⟨c :: p, rfl⟩)) hleft
    simp only [append_assoc, cons_append]
    refine .atom hc (hframe _ (by simp) ?_) hrest
    cases s' <;> rfl

/-! ## Descriptions -/

/-- The brackets around a description are closed by the last character and by no other. -/
lemma read_eq_ok_iff {text : String} : read text = .ok forms ↔
    Reads (closed text.toList) forms [')'] := by
  constructor
  · intro h
    obtain ⟨b, hb, h⟩ := exists_of_bind_eq_ok h
    have hreads := reads_of_items hb
    split at h
    next => cases h
    next hrest hforms =>
      cases h
      rw [hrest, hforms, wrapped] at hreads
      generalize hall : [Form.list forms] = all at hreads
      cases hreads with
      | @opener _ _ after _ _ _ bracket hc hinner hafter =>
        cases hc
        cases hall
        cases hinner with
        | gap _ hinner =>
          obtain ⟨p, hp, -⟩ := hinner.frame rfl
          by_cases hlast : after = []
          · rwa [hlast] at hinner
          · obtain ⟨s, -, rfl⟩ := closed_cut_cons hp (by decide) hlast
            exact absurd rfl ((hafter.ne_closed rfl rfl).2 s)
        | comment hc | apostrophe hc | text hc | atom hc | opener hc => cases hc
      | gap hc | comment hc | apostrophe hc | text hc | atom hc => cases hc
    next => cases h
  · intro h
    have hwrapped : Reads (wrapped text) [Bracket.round.form forms] [] :=
      .opener rfl (.gap rfl h) .done
    obtain ⟨b, hb, hforms, hrest⟩ := items_of_reads hwrapped
    show (items (wrapped text) >>= _) = _
    rw [hb]
    dsimp only [bind, Except.bind]
    rw [hforms, hrest]
    rfl

/-- **Descriptions one below the other** are read as one. -/
theorem read_append {a b : String} {forms others : List Form} (ha : read a = .ok forms)
    (hb : read b = .ok others)
    (hend : a.toList.getLast? ≠ some '\\') : read (a ++ "\n" ++ b) = .ok (forms ++ others) := by
  rw [read_eq_ok_iff] at ha hb ⊢
  have hlast : ¬['\\'] <:+ a.toList := fun ⟨s, hs⟩ => hend (by rw [← hs, List.getLast?_concat])
  have h := ha.append rfl rfl hlast hb
  rw [closed, String.toList_append, String.toList_append, List.append_assoc, List.append_assoc]
  exact h

/-- A comment and an apostrophe reach no further than their own description. -/
theorem read_append_comment : read "[\"a\"];(" = .ok [.brackets [.text "a"]] ∧
    read "'\"b\"" = .ok [.quoted (.text "b")] ∧
    read ("[\"a\"];(" ++ "\n" ++ "'\"b\"") = .ok [.brackets [.text "a"], .quoted (.text "b")] := by
  have ha : read "[\"a\"];(" = .ok [.brackets [.text "a"]] := by
    refine read_eq_ok_iff.mpr ?_
    show Reads ('[' :: '"' :: 'a' :: '"' :: ']' :: ';' :: '(' :: ['\n', ')'])
      [Bracket.square.form [.text "a"]] [')']
    exact .opener rfl (.text rfl rfl (.closer rfl)) (.comment rfl (.closer rfl))
  have hb : read "'\"b\"" = .ok [.quoted (.text "b")] := read_eq_ok_iff.mpr <|
    .apostrophe rfl (.text rfl rfl (.gap rfl (.closer rfl)))
  exact ⟨ha, hb, read_append ha hb (by decide)⟩

end Recast.Form
