import Jack.Token.Scanner

/-!
# Layout

Blanks and comments may stand before and behind every token.  Such layout is given here by
its form.  A reader skips it and stops behind it.  In what it is given all line ends are line
feeds, and layout stays layout when the other line ends are read as such.
-/

namespace Jack

open Text

namespace Reading

/-!
# Forms of layout
-/

def IsLineEnd (c : Char) : Prop :=
  c = '\n' ∨ c = '\r'

/-- Blanks and comments.  A line comment has the line end behind it, and a block comment
goes up to the first star with a slash behind it. -/
inductive IsLayout : List Char -> Prop where
  | nil : IsLayout []
  | blank {c : Char} {rest : List Char} :
      isBlank c = true -> IsLayout rest -> IsLayout (c :: rest)
  | line {body rest : List Char} {stop : Char} :
      (forall c, c ∈ body -> ¬ IsLineEnd c) -> IsLineEnd stop -> IsLayout rest ->
      IsLayout ('/' :: '/' :: (body ++ stop :: rest))
  | block {body rest : List Char} :
      ¬ ['*', '/'] <:+: body -> IsLayout rest ->
      IsLayout ('/' :: '*' :: (body ++ '*' :: '/' :: rest))

/-- Layout is empty, or it begins with a blank or a slash. -/
theorem IsLayout.head {gap : List Char} (h : IsLayout gap) {c : Char} (hc : gap.head? = some c) :
    isBlank c = true ∨ c = '/' := by
  cases h with
  | nil => cases hc
  | blank hblank _ =>
      cases hc
      exact Or.inl hblank
  | line =>
      cases hc
      exact Or.inr rfl
  | block =>
      cases hc
      exact Or.inr rfl

theorem IsLayout.of_blank {c : Char} {rest : List Char} (hc : isBlank c = true)
    (h : IsLayout (c :: rest)) : IsLayout rest := by
  cases h with
  | blank _ hrest => exact hrest
  | line => exact absurd hc (by decide)
  | block => exact absurd hc (by decide)

/-!
# Comments
-/

theorem afterLine_eq_some_iff {text after : List Char} :
    afterLine text = some after ↔
      exists body, text = body ++ '\n' :: after ∧ '\n' ∉ body := by
  induction text with
  | nil => simp [afterLine]
  | cons c rest ih =>
      unfold afterLine
      split
      · next hc =>
          subst hc
          constructor
          · intro h
            cases h
            exact ⟨[], rfl, List.not_mem_nil⟩
          · rintro ⟨body, hbody, hnot⟩
            cases body with
            | nil => simpa using hbody
            | cons d body =>
                cases hbody
                exact absurd List.mem_cons_self hnot
      · next hc =>
          rw [ih]
          constructor
          · rintro ⟨body, rfl, hnot⟩
            refine ⟨c :: body, rfl, ?_⟩
            simp [hnot, Ne.symm hc]
          · rintro ⟨body, hbody, hnot⟩
            cases body with
            | nil =>
                cases hbody
                exact absurd rfl hc
            | cons d body =>
                cases hbody
                exact ⟨body, rfl, fun hmem => hnot (List.mem_cons_of_mem _ hmem)⟩

theorem exists_of_afterBlock {text after : List Char} (h : afterBlock text = some after) :
    exists body, text = body ++ '*' :: '/' :: after ∧ ¬ ['*', '/'] <:+: body := by
  fun_induction afterBlock text with
  | case1 => cases h
  | case2 => cases h
  | case3 c d rest hclose =>
      cases h
      exact ⟨[], by rw [hclose.1, hclose.2]; rfl, by simp⟩
  | case4 c d rest hclose ih =>
      rcases ih h with ⟨body, hbody, hnot⟩
      refine ⟨c :: body, by rw [hbody]; rfl, ?_⟩
      rw [List.infix_cons_iff]
      rintro (hfront | hbehind)
      · -- the star would have the slash behind it that the reader looks for
        cases body with
        | nil => simp at hfront
        | cons e body =>
            cases hbody
            simp only [List.cons_prefix_cons] at hfront
            exact hclose ⟨hfront.1.symm, hfront.2.1.symm⟩
      · exact hnot hbehind

theorem afterBlock_append {body : List Char} (hbody : ¬ ['*', '/'] <:+: body)
    (after : List Char) : afterBlock (body ++ '*' :: '/' :: after) = some after := by
  induction body with
  | nil => simp [afterBlock]
  | cons c body ih =>
      rw [List.infix_cons_iff, not_or] at hbody
      have hrest := ih hbody.2
      cases body with
      | nil =>
          simp only [List.nil_append, List.cons_append] at hrest ⊢
          rw [afterBlock, if_neg (by simp)]
          exact hrest
      | cons d body =>
          have hclose : ¬ (c = '*' ∧ d = '/') := by
            rintro ⟨rfl, rfl⟩
            exact hbody.1 (by simp)
          simp only [List.cons_append] at hrest ⊢
          rw [afterBlock, if_neg hclose]
          exact hrest

/-- A comment that was read has one of the two forms. -/
theorem exists_of_readComment {text after : List Char} (h : readComment text = .ok () after) :
    (exists body, text = '/' :: (body ++ '\n' :: after) ∧ '\n' ∉ body) ∨
      exists body, text = '*' :: (body ++ '*' :: '/' :: after) ∧ ¬ ['*', '/'] <:+: body := by
  unfold readComment at h
  split at h
  · cases h
  · next c rest =>
      split at h
      · next hc =>
          subst hc
          split at h
          · next hline =>
              cases h
              rcases afterLine_eq_some_iff.mp hline with ⟨body, rfl, hnot⟩
              exact Or.inl ⟨body, rfl, hnot⟩
          · cases h
      · split at h
        · next hc =>
            subst hc
            split at h
            · next hblock =>
                cases h
                rcases exists_of_afterBlock hblock with ⟨body, rfl, hnot⟩
                exact Or.inr ⟨body, rfl, hnot⟩
            · cases h
        · cases h

/-!
# Skipping layout
-/

theorem skipLayout_blank {c : Char} (hc : isBlank c = true) (rest : List Char) :
    skipLayout (c :: rest) = skipLayout rest := by
  rw [skipLayout, if_pos hc]

theorem skipLayout_comment {rest after : List Char} (hopens : opensComment rest = true)
    (hread : readComment rest = .ok () after) : skipLayout ('/' :: rest) = skipLayout after := by
  rw [skipLayout, if_neg (by decide), if_pos ⟨rfl, hopens⟩]
  split
  · next hok =>
      rw [hread] at hok
      cases hok
      rfl
  · next herror =>
      rw [hread] at herror
      cases herror

theorem skipLayout_comment_error {rest behind : List Char} {fault : Fault}
    (hopens : opensComment rest = true) (hread : readComment rest = .error fault behind) :
    skipLayout ('/' :: rest) = .error fault behind := by
  rw [skipLayout, if_neg (by decide), if_pos ⟨rfl, hopens⟩]
  split
  · next hok =>
      rw [hread] at hok
      cases hok
  · next herror =>
      rw [hread] at herror
      cases herror
      rfl

/-- Layout is skipped.  The line ends in it are line feeds. -/
theorem IsLayout.skip {gap : List Char} (h : IsLayout gap) (hreturn : '\r' ∉ gap)
    (rest : List Char) : skipLayout (gap ++ rest) = skipLayout rest := by
  induction h with
  | nil => rfl
  | blank hblank _ ih =>
      rw [List.cons_append, skipLayout_blank hblank]
      exact ih fun hmem => hreturn (List.mem_cons_of_mem _ hmem)
  | @line body gap stop hbody hstop _ ih =>
      have hstop : stop = '\n' := by
        rcases hstop with hstop | hstop
        · exact hstop
        · exact absurd (by simp [hstop]) hreturn
      subst hstop
      have hread : readComment ('/' :: (body ++ '\n' :: (gap ++ rest))) = .ok () (gap ++ rest) := by
        have hline : afterLine (body ++ '\n' :: (gap ++ rest)) = some (gap ++ rest) :=
          afterLine_eq_some_iff.mpr ⟨body, rfl, fun hmem => hbody '\n' hmem (Or.inl rfl)⟩
        unfold readComment
        simp only [if_true, hline]
      rw [List.cons_append, List.cons_append, List.append_assoc, List.cons_append,
        skipLayout_comment rfl hread]
      exact ih fun hmem => hreturn (by simp [hmem])
  | @block body gap hbody _ ih =>
      have hread : readComment ('*' :: (body ++ '*' :: '/' :: (gap ++ rest))) =
          .ok () (gap ++ rest) := by
        unfold readComment
        simp only [afterBlock_append hbody]
        rfl
      rw [List.cons_append, List.cons_append, List.append_assoc, List.cons_append,
        List.cons_append, skipLayout_comment rfl hread]
      exact ih fun hmem => hreturn (by simp [hmem])

/-- What is skipped is layout.  Behind it stands no more of it, or a comment that cannot be
read. -/
theorem exists_of_skipLayout {text : List Char} (hreturn : '\r' ∉ text) :
    exists gap after, text = gap ++ after ∧ IsLayout gap ∧ skipLayout text = skipLayout after ∧
      (skipLayout after = .ok () after ∨
        exists behind fault rest, after = '/' :: behind ∧ readComment behind = .error fault rest ∧
          skipLayout after = .error fault rest) := by
  fun_induction skipLayout text with
  | case1 => exact ⟨[], [], rfl, .nil, by rw [skipLayout], Or.inl (by rw [skipLayout])⟩
  | case2 c rest hblank ih =>
      rcases ih (fun hmem => hreturn (List.mem_cons_of_mem _ hmem)) with
        ⟨gap, after, rfl, hgap, hskip, hafter⟩
      exact ⟨c :: gap, after, rfl, .blank hblank hgap, hskip, hafter⟩
  | case3 c rest hblank hcomment behind hread ih =>
      rcases hcomment with ⟨rfl, _⟩
      rcases exists_of_readComment hread with ⟨body, rfl, hnot⟩ | ⟨body, rfl, hnot⟩
      · rcases ih (fun hmem => hreturn (by simp [hmem])) with
          ⟨gap, after, rfl, hgap, hskip, hafter⟩
        refine ⟨'/' :: '/' :: (body ++ '\n' :: gap), after, by simp, ?_, hskip, hafter⟩
        apply IsLayout.line ?_ (Or.inl rfl) hgap
        rintro c hc (rfl | rfl)
        · exact hnot hc
        · exact hreturn (by simp [hc])
      · rcases ih (fun hmem => hreturn (by simp [hmem])) with
          ⟨gap, after, rfl, hgap, hskip, hafter⟩
        exact ⟨'/' :: '*' :: (body ++ '*' :: '/' :: gap), after, by simp, .block hnot hgap,
          hskip, hafter⟩
  | case4 c rest hblank hcomment fault behind hread =>
      rcases hcomment with ⟨rfl, hopens⟩
      have hskip := skipLayout_comment_error hopens hread
      exact ⟨[], '/' :: rest, rfl, .nil, hskip.symm,
        Or.inr ⟨rest, fault, behind, rfl, hread, hskip⟩⟩
  | case5 c rest hblank hcomment =>
      have hskip : skipLayout (c :: rest) = .ok () (c :: rest) := by
        rw [skipLayout, if_neg hblank, if_neg hcomment]
      exact ⟨[], c :: rest, rfl, .nil, hskip.symm, Or.inl hskip⟩

/-- Where no layout is left, a slash opens no comment. -/
theorem opensComment_of_skipLayout {rest : List Char}
    (h : skipLayout ('/' :: rest) = .ok () ('/' :: rest)) : opensComment rest = false := by
  cases hopens : opensComment rest with
  | false => rfl
  | true =>
      rw [skipLayout, if_neg (by decide), if_pos ⟨rfl, hopens⟩] at h
      split at h
      · next after hread =>
          have hlt := length_lt_of_readComment hread
          have hle := length_le_of_skipLayout h
          simp only [List.length_cons] at hle
          omega
      · cases h

end Reading

/-!
# Line ends
-/

namespace Text

open Reading

theorem foldLineEnds_cons (c : Char) (rest : List Char) :
    foldLineEnds (c :: rest) =
      if c = '\r' then
        if rest.head? = some '\n' then foldLineEnds rest else '\n' :: foldLineEnds rest
      else c :: foldLineEnds rest := by
  by_cases hc : c = '\r'
  · subst hc
    rw [if_pos rfl]
    split
    · next hhead =>
        rcases List.head?_eq_some_iff.mp hhead with ⟨after, rfl⟩
        rfl
    · next hhead =>
        rw [foldLineEnds]
        rintro after rfl
        exact hhead rfl
  · rw [if_neg hc, foldLineEnds]
    · rintro after hreturn
      exact absurd hreturn hc
    · exact hc

theorem not_mem_foldLineEnds (text : List Char) : '\r' ∉ foldLineEnds text := by
  induction text with
  | nil => exact List.not_mem_nil
  | cons c rest ih =>
      rw [foldLineEnds_cons]
      split
      · split
        · exact ih
        · simp [ih]
      · next hc => simp [ih, Ne.symm hc]

theorem head?_foldLineEnds (text : List Char) :
    (foldLineEnds text).head? = text.head?.map fun c => if c = '\r' then '\n' else c := by
  cases text with
  | nil => rfl
  | cons c rest =>
      rw [foldLineEnds_cons]
      split
      · next hc =>
          subst hc
          split
          · next hhead =>
              rcases List.head?_eq_some_iff.mp hhead with ⟨after, rfl⟩
              rfl
          · rfl
      · next hc => simp [hc]

/-- A line end that is written with two characters is not divided. -/
theorem foldLineEnds_append (front : List Char) {back : List Char}
    (h : back.head? ≠ some '\n') :
    foldLineEnds (front ++ back) = foldLineEnds front ++ foldLineEnds back := by
  induction front with
  | nil => rfl
  | cons c rest ih =>
      have hhead : (rest ++ back).head? = some '\n' ↔ rest.head? = some '\n' := by
        cases rest with
        | nil => simp [h]
        | cons d rest => rfl
      rw [List.cons_append, foldLineEnds_cons, foldLineEnds_cons, ih]
      simp only [hhead]
      split
      · split
        · rfl
        · rfl
      · rfl

theorem foldLineEnds_append_of_no_return {front : List Char} (h : '\r' ∉ front)
    (back : List Char) : foldLineEnds (front ++ back) = front ++ foldLineEnds back := by
  induction front with
  | nil => rfl
  | cons c rest ih =>
      simp only [List.mem_cons, not_or] at h
      rw [List.cons_append, foldLineEnds_cons, if_neg (Ne.symm h.1), ih h.2]
      rfl

/-- No star gets a slash behind it. -/
theorem infix_of_infix_foldLineEnds {text : List Char}
    (h : ['*', '/'] <:+: foldLineEnds text) : ['*', '/'] <:+: text := by
  induction text with
  | nil => exact h
  | cons c rest ih =>
      apply List.infix_cons_iff.mpr
      rw [foldLineEnds_cons] at h
      split at h
      · split at h
        · exact Or.inr (ih h)
        · refine Or.inr (ih ?_)
          rcases List.infix_cons_iff.mp h with hfront | hbehind
          · simp at hfront
          · exact hbehind
      · rcases List.infix_cons_iff.mp h with hfront | hbehind
        · apply Or.inl
          rcases List.cons_prefix_cons.mp hfront with ⟨rfl, hslash⟩
          have hhead : (foldLineEnds rest).head? = some '/' := by
            rcases hslash with ⟨after, hafter⟩
            rw [← hafter]
            rfl
          rw [head?_foldLineEnds] at hhead
          rcases Option.map_eq_some_iff.mp hhead with ⟨d, hd, hfold⟩
          rcases List.head?_eq_some_iff.mp hd with ⟨after, rfl⟩
          split at hfold
          · exact absurd hfold (by decide)
          · simp [hfold]
        · exact Or.inr (ih hbehind)

end Text

namespace Reading

/-- Layout stays layout when all line ends in it are read as line feeds. -/
theorem IsLayout.foldLineEnds {gap : List Char} (h : IsLayout gap) :
    IsLayout (Text.foldLineEnds gap) := by
  induction h with
  | nil => exact .nil
  | @blank c rest hblank _ ih =>
      rw [foldLineEnds_cons]
      split
      · split
        · exact ih
        · exact .blank rfl ih
      · exact .blank hblank ih
  | @line body rest stop hbody hstop _ ih =>
      have hreturn : '\r' ∉ '/' :: '/' :: body := by
        simp only [List.mem_cons, not_or]
        exact ⟨by decide, by decide, fun hmem => hbody '\r' hmem (Or.inr rfl)⟩
      have hfold := foldLineEnds_append_of_no_return hreturn (stop :: rest)
      simp only [List.cons_append] at hfold
      rw [hfold, foldLineEnds_cons]
      rcases hstop with rfl | rfl
      · exact .line hbody (Or.inl rfl) ih
      · rw [if_pos rfl]
        split
        · next hhead =>
            -- the line feed behind the carriage return ends the comment now
            rcases List.head?_eq_some_iff.mp hhead with ⟨after, rfl⟩
            rw [foldLineEnds_cons, if_neg (by decide)] at ih ⊢
            exact .line hbody (Or.inl rfl) (ih.of_blank rfl)
        · exact .line hbody (Or.inl rfl) ih
  | @block body rest hbody _ ih =>
      have hhead : ('*' :: '/' :: rest).head? ≠ some '\n' := by simp
      have hfold := foldLineEnds_append ('/' :: '*' :: body) hhead
      simp only [List.cons_append] at hfold
      rw [hfold]
      simp only [foldLineEnds_cons]
      exact .block (fun hclose => hbody (infix_of_infix_foldLineEnds hclose)) ih

end Reading

end Jack
