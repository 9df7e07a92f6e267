import Jack.Proofs.Steps

/-!
# The tokens ahead of a scanner

A scanner has tokens ahead: the current one and those behind it.  What is taken on
the way from one scanner to another is a part of them, up to repetitions of the
last token.
-/

namespace Jack
namespace Scanner

/-!
# Moving one token on
-/

theorem tokens_of_next_none {s : Scanner} (h : s.next = none) : s.tokens = ([], none) := by
  unfold tokens
  split
  · rfl
  · next token hnext =>
      rw [h] at hnext
      cases hnext

theorem current_of_lookAhead {s s' : Scanner} (h : lookAhead.run s = .ok () s') :
    s'.current = s.current := by
  have hlook : lookAhead s = .ok () s' := h
  unfold lookAhead reading at hlook
  split at hlook
  · next hread =>
      split at hread
      · split at hread
        · cases hread
          cases hlook
          rfl
        · cases hread
      · cases hread
  · cases hlook

theorem run_advance_of_next {s : Scanner} {token : Token} (h : s.next = some token) :
    advance.run s = lookAhead.run { s with current := some token } := by
  show advance s = lookAhead { s with current := some token }
  unfold advance
  simp only [h]

theorem run_advance_of_next_none {s : Scanner} (h : s.next = none) :
    advance.run s = .error .noMoreTokens s := by
  show advance s = _
  unfold advance
  simp only [h]

theorem current_of_advance {s s' : Scanner} {token : Token} (hnext : s.next = some token)
    (h : advance.run s = .ok () s') : s'.current = some token := by
  rw [run_advance_of_next hnext] at h
  exact current_of_lookAhead h

theorem tokens_of_advance {s s' : Scanner} {token : Token} (hnext : s.next = some token)
    (h : advance.run s = .ok () s') :
    s.tokens = (token :: s'.tokens.1, s'.tokens.2) := by
  rw [run_advance_of_next hnext] at h
  rw [tokens]
  split
  · next hnone =>
      rw [hnone] at hnext
      cases hnext
  · next found hfound =>
      rw [hnext] at hfound
      cases hfound
      split
      · next hlook =>
          have hlook' : lookAhead.run { s with current := some token } = _ := hlook
          rw [h] at hlook'
          cases hlook'
      · next s1 hlook =>
          have hlook' : lookAhead.run { s with current := some token } = _ := hlook
          rw [h] at hlook'
          cases hlook'
          rfl

/-- Without a fault ahead the scanner can move on. -/
theorem exists_advance_of_tokens {s : Scanner} {token : Token} {rest : List Token}
    (h : s.tokens = (token :: rest, none)) :
    s.next = some token ∧
      exists s', advance.run s = .ok () s' ∧ s'.current = some token ∧
        s'.tokens = (rest, none) := by
  cases hnext : s.next with
  | none =>
      rw [tokens_of_next_none hnext] at h
      cases h
  | some found =>
      cases hrun : advance.run s with
      | error fault s' =>
          rw [run_advance_of_next hnext] at hrun
          rw [tokens] at h
          split at h
          · cases h
          · next found' hfound =>
              rw [hnext] at hfound
              cases hfound
              split at h
              · cases h
              · next s1 hlook =>
                  have hlook' : lookAhead.run { s with current := some found } = _ := hlook
                  rw [hrun] at hlook'
                  cases hlook'
      | ok _ s' =>
          have htokens := tokens_of_advance hnext hrun
          rw [h] at htokens
          have hfirst : token = found := by simpa using congrArg (fun p => p.1.head?) htokens
          subst hfirst
          refine ⟨rfl, s', rfl, current_of_advance hnext hrun, ?_⟩
          have hrest : rest = s'.tokens.1 := by
            simpa using congrArg (fun p => p.1.tail) htokens
          have hfault : none = s'.tokens.2 := congrArg Prod.snd htokens
          rw [hrest, hfault]

theorem next_of_tokens_nil {s : Scanner} (h : s.tokens = ([], none)) : s.next = none := by
  rw [tokens] at h
  split at h
  · next hnext => exact hnext
  · split at h
    · cases h
    · cases h

/-!
# The scanner at a token
-/

/-- The scanner stands at a token, and other tokens follow without a fault. -/
def StandsAt (s : Scanner) (token : Token) (rest : List Token) : Prop :=
  s.current = some token ∧ s.tokens = (rest, none)

theorem StandsAt.exists_moves {s : Scanner} {token second : Token} {rest : List Token}
    (h : s.StandsAt token (second :: rest)) :
    exists s', s.Moves s' ∧ s'.StandsAt second rest := by
  rcases exists_advance_of_tokens h.2 with ⟨hnext, s', hrun, hcurrent, htokens⟩
  refine ⟨s', ?_, hcurrent, htokens⟩
  unfold Moves
  rw [if_pos (by simp [hasNext, hnext])]
  exact hrun

theorem Moves.standsAt {s s' : Scanner} {token second : Token} {rest : List Token}
    (hmoves : s.Moves s') (h : s.StandsAt token (second :: rest)) :
    s'.StandsAt second rest := by
  rcases exists_advance_of_tokens h.2 with ⟨hnext, s1, hrun, hcurrent, htokens⟩
  unfold Moves at hmoves
  rw [if_pos (by simp [hasNext, hnext]), hrun] at hmoves
  cases hmoves
  exact ⟨hcurrent, htokens⟩

/-- Tokens that are followed by another one are taken one after the other. -/
theorem Takes.standsAt {s s' : Scanner} {taken : List Token} (htakes : s.Takes taken s')
    {token : Token} {rest : List Token} {first : Token} {others : List Token}
    (h : s.StandsAt first others) (hsplit : first :: others = taken ++ token :: rest) :
    s'.StandsAt token rest := by
  induction htakes generalizing first others with
  | nil s =>
      cases hsplit
      exact h
  | cons hcurrent hmoves hrest ih =>
      rename_i s s1 s2 head taken
      rw [List.cons_append] at hsplit
      injection hsplit with hhead hothers
      cases taken with
      | nil =>
          subst hothers
          exact ih (hmoves.standsAt h) rfl
      | cons second taken =>
          subst hothers
          exact ih (hmoves.standsAt h) rfl

/-- Every token ahead takes at least one of the characters that are not read yet, but
for the one that is read already. -/
theorem length_tokens_le_left (s : Scanner) : s.tokens.1.length ≤ s.left := by
  fun_induction tokens s with
  | case1 s hnext => simp
  | case2 s token hnext fault s' hlook => simp
  | case3 s token hnext s' hlook following ih =>
      have hle := left_le_of_lookAhead hlook
      change (token :: s'.tokens.1).length ≤ _
      simp only [left, hnext, Option.isSome_some, if_true, List.length_cons] at hle ih ⊢
      omega

theorem StandsAt.length_le {s : Scanner} {token : Token} {rest : List Token}
    (h : s.StandsAt token rest) : rest.length ≤ s.rest.length + 1 := by
  have hle := length_tokens_le_left s
  rw [h.2] at hle
  have hleft : s.left ≤ s.rest.length + 1 := by
    unfold left
    split <;> simp
  exact Nat.le_trans hle hleft

/-!
# Taking the last token again
-/

/-- The current token and the tokens behind it. -/
def ahead (s : Scanner) : List Token :=
  s.current.toList ++ s.tokens.1

theorem ahead_of_next_none {s : Scanner} {token : Token} (hcurrent : s.current = some token)
    (hnext : s.next = none) : s.ahead = [token] := by
  simp [ahead, hcurrent, tokens_of_next_none hnext]

theorem ahead_of_advance {s s' : Scanner} {token second : Token}
    (hcurrent : s.current = some token) (hnext : s.next = some second)
    (h : advance.run s = .ok () s') : s.ahead = token :: s'.ahead := by
  simp [ahead, hcurrent, tokens_of_advance hnext h, current_of_advance hnext h]

/-- What is taken stands before what is still ahead, or the last token was taken over
again. -/
theorem Takes.ahead_eq_or_repeats {s s' : Scanner} {taken : List Token} (h : s.Takes taken s') :
    s.ahead = taken ++ s'.ahead ∨
      exists last repeats, s'.ahead <+: [last] ∧ s.ahead.getLast? = some last ∧
        taken = s.ahead ++ List.replicate repeats last := by
  induction h with
  | nil s => exact Or.inl rfl
  | cons hcurrent hmoves hrest ih =>
      rename_i s s1 s2 token taken
      unfold Moves at hmoves
      cases hnext : s.next with
      | none =>
          rw [if_neg (by simp [hasNext, hnext])] at hmoves
          subst hmoves
          have hahead := ahead_of_next_none hcurrent hnext
          rw [hahead] at ih ⊢
          apply Or.inr
          rcases ih with hsplit | ⟨last, repeats, hbehind, hlast, htaken⟩
          · cases taken with
            | nil => exact ⟨token, 0, by rw [hsplit]; exact List.prefix_refl _, rfl, rfl⟩
            | cons second rest =>
                injection hsplit with hsecond hempty
                rcases List.append_eq_nil_iff.mp hempty.symm with ⟨rfl, hbehind⟩
                subst hsecond
                exact ⟨token, 1, by rw [hbehind]; exact List.nil_prefix, rfl, rfl⟩
          · have htoken : token = last := by simpa using hlast
            subst htoken
            exact ⟨token, repeats + 1, hbehind, rfl, by rw [htaken]; rfl⟩
      | some second =>
          rw [if_pos (by simp [hasNext, hnext])] at hmoves
          rw [ahead_of_advance hcurrent hnext hmoves]
          rcases ih with hsplit | ⟨last, repeats, hbehind, hlast, htaken⟩
          · exact Or.inl (by rw [hsplit]; rfl)
          · refine Or.inr ⟨last, repeats, hbehind, ?_, by rw [htaken]; rfl⟩
            rw [List.getLast?_cons, hlast]
            rfl

/-- The tokens that are taken begin the tokens ahead, or they are all of them and the
last one over again.  This holds also with the token where the scanner arrives. -/
theorem Takes.begins_or_repeats {s s' : Scanner} {taken : List Token} (h : s.Takes taken s')
    (leaf : Option Token) (hleaf : forall token, leaf = some token -> s'.current = some token) :
    taken ++ leaf.toList <+: s.ahead ∨
      exists last repeats, s.ahead.getLast? = some last ∧
        taken ++ leaf.toList = s.ahead ++ List.replicate repeats last := by
  cases leaf with
  | none =>
      rw [Option.toList_none, List.append_nil]
      rcases h.ahead_eq_or_repeats with hsplit | ⟨last, repeats, _, hlast, htaken⟩
      · exact Or.inl ⟨s'.ahead, hsplit.symm⟩
      · exact Or.inr ⟨last, repeats, hlast, htaken⟩
  | some token =>
      have hahead : s'.ahead = token :: s'.tokens.1 := by simp [ahead, hleaf token rfl]
      rw [Option.toList_some]
      rcases h.ahead_eq_or_repeats with hsplit | ⟨last, repeats, hbehind, hlast, htaken⟩
      · exact Or.inl ⟨s'.tokens.1, by rw [hsplit, hahead]; simp⟩
      · rw [hahead] at hbehind
        have htoken : token = last := (List.cons_prefix_cons.mp hbehind).1
        subst htoken
        refine Or.inr ⟨token, repeats + 1, hlast, ?_⟩
        rw [htaken, List.append_assoc, List.replicate_succ']

end Scanner
end Jack
