import Jack.Proofs.Calls.Routines
import Jack.Proofs.Spelling

/-!
# Runs that do not end

A scanner that reads a line comment without a line end, or a string constant without an end,
is never done.  Where there are none of these ahead, only the compiler itself can go on for
ever.  It does so where a term is to be read at the last token of a source and this token
asks for another term.  A step settles if this is the only way for it not to end.
-/

namespace Jack

open Text
open Reading

/-!
# Texts whose comments and strings end
-/

/-- The text is a line comment or a string constant that does not end. -/
def OpenEnded (text : List Char) : Prop :=
  (exists body, text = '/' :: '/' :: body ∧ '\n' ∉ body) ∨
    exists body, text = doubleQuote :: body ∧ forall c, c ∈ body -> inString c = true

/-- Behind the tokens that can be read there is no line comment and no string constant
without an end. -/
def Terminated (text : List Char) : Prop :=
  forall tokens gap rest, Lexes text tokens (gap ++ rest) -> IsLayout gap -> ¬ OpenEnded rest

theorem afterLine_eq_none_iff {text : List Char} : afterLine text = none ↔ '\n' ∉ text := by
  induction text with
  | nil => simp [afterLine]
  | cons c rest ih =>
      unfold afterLine
      split
      · next hc => simp [hc]
      · next hc => simp [ih, Ne.symm hc]

theorem openEnded_of_readComment {behind rest : List Char}
    (h : readComment behind = .error .endless rest) : OpenEnded ('/' :: behind) := by
  unfold readComment at h
  split at h
  · cases h
  · next c behind =>
      split at h
      · next hc =>
          subst hc
          split at h
          · cases h
          · next hline => exact Or.inl ⟨behind, rfl, afterLine_eq_none_iff.mp hline⟩
      · split at h
        · split at h <;> cases h
        · cases h

theorem readInteger_ne_endless (text rest : List Char) :
    readInteger text ≠ .error .endless rest := by
  intro h
  unfold readInteger at h
  simp only at h
  split at h
  · next fault hvalue =>
      cases h
      unfold valueOfDigits at hvalue
      simp only at hvalue
      split at hvalue
      · cases hvalue
      · split at hvalue <;> cases hvalue
  · split at h <;> cases h

theorem openEnded_of_readLexeme {text rest : List Char}
    (h : readLexeme text = .error .endless rest) : OpenEnded text := by
  unfold readLexeme at h
  split at h
  · cases h
  · next c behind =>
      split at h
      · next hquote =>
          subst hquote
          split at h
          · cases h
          · next fault after hread =>
              cases h
              refine Or.inr ⟨behind, rfl, ?_⟩
              rcases eq_append_of_span inString behind with ⟨hspan, hall, _⟩
              unfold readString at hread
              simp only [List.drop_succ_cons, List.drop_zero] at hread
              split at hread
              · next hdrop =>
                  rw [hdrop, List.append_nil] at hspan
                  rwa [hspan]
              · split at hread <;> cases hread
      · split at h
        · cases h
        · split at h
          · split at h
            · cases h
            · next fault after hread =>
                cases h
                exact absurd hread (readInteger_ne_endless _ _)
          · split at h <;> cases h

theorem OpenEnded.readToken {text : List Char} (h : OpenEnded text) :
    readToken text = .error .endless [] := by
  unfold Reading.readToken
  rcases h with ⟨body, rfl, hline⟩ | ⟨body, rfl, hstring⟩
  · have hcomment : readComment ('/' :: body) = .error .endless [] := by
      unfold readComment
      simp only [if_true, afterLine_eq_none_iff.mpr hline]
    rw [skipLayout_comment_error rfl hcomment]
  · have hskip : skipLayout (doubleQuote :: body) = .ok () (doubleQuote :: body) := by
      rw [skipLayout, if_neg (by decide), if_neg fun hslash => absurd hslash.1 (by decide)]
    have hdrop : body.dropWhile inString = [] := by
      have hspan : (body ++ []).dropWhile inString = [].dropWhile inString :=
        List.dropWhile_append_of_pos hstring
      simpa using hspan
    have hread : readString (doubleQuote :: body) = .error .endless [] := by
      unfold readString
      simp only [List.drop_succ_cons, List.drop_zero, hdrop]
    rw [hskip]
    unfold readLexeme
    simp only [if_true, hread]

/-- Reading a token has no end exactly if a comment or a string without an end stands
behind layout. -/
theorem readToken_endless_iff {text : List Char} (hreturn : '\r' ∉ text) :
    (exists rest, readToken text = .error .endless rest) ↔
      exists gap after, text = gap ++ after ∧ IsLayout gap ∧ OpenEnded after := by
  constructor
  · rintro ⟨rest, hread⟩
    unfold readToken at hread
    rcases exists_of_skipLayout hreturn with ⟨gap, after, htext, hgap, hskip, hafter | hcomment⟩
    · rw [hskip, hafter] at hread
      exact ⟨gap, after, htext, hgap, openEnded_of_readLexeme hread⟩
    · rcases hcomment with ⟨behind, fault, left, rfl, hcomment, herror⟩
      rw [hskip, herror] at hread
      cases hread
      exact ⟨gap, _, htext, hgap, openEnded_of_readComment hcomment⟩
  · rintro ⟨gap, after, rfl, hgap, hopen⟩
    refine ⟨[], ?_⟩
    have hread := hopen.readToken
    unfold readToken at hread ⊢
    rwa [hgap.skip fun hmem => hreturn (List.mem_append_left _ hmem)]

theorem Terminated.readToken_ne {text : List Char} (h : Terminated text) (hreturn : '\r' ∉ text)
    (rest : List Char) : readToken text ≠ .error .endless rest := by
  intro hread
  rcases (readToken_endless_iff hreturn).mp ⟨rest, hread⟩ with ⟨gap, after, htext, hgap, hopen⟩
  exact h [] gap after htext hgap hopen

/-- A text that can be read up to its end has only comments and strings that end. -/
theorem terminated_of_lexes {text last : List Char} {tokens : List Token}
    (hreturn : '\r' ∉ text) (hlexes : Lexes text tokens last) (hlast : IsLayout last) :
    Terminated text := by
  intro tokens' gap rest hlexes' hgap hopen
  induction tokens' generalizing text tokens with
  | nil =>
      rcases (readToken_endless_iff hreturn).mpr ⟨gap, rest, hlexes', hgap, hopen⟩ with
        ⟨left, hendless⟩
      cases tokens with
      | nil =>
          have htext : text = last := hlexes
          rw [(readToken_eq_none_iff hreturn).mpr ⟨by rwa [htext], rfl⟩] at hendless
          cases hendless
      | cons token tokens =>
          rcases (lexes_cons_iff hreturn).mp hlexes with ⟨after, hread, _⟩
          rw [hread] at hendless
          cases hendless
  | cons token' tokens' ih =>
      rcases (lexes_cons_iff hreturn).mp hlexes' with ⟨after', hread', hrest'⟩
      cases tokens with
      | nil =>
          have htext : text = last := hlexes
          rw [(readToken_eq_none_iff hreturn).mpr ⟨by rwa [htext], rfl⟩] at hread'
          cases hread'
      | cons token tokens =>
          rcases (lexes_cons_iff hreturn).mp hlexes with ⟨after, hread, hrest⟩
          rw [hread'] at hread
          cases hread
          exact ih (not_mem_of_readToken hreturn hread') hrest hrest'

theorem terminated_of_tokenize {text : String} {tokens : List Token}
    (h : tokenize text = (tokens, none)) : Terminated (foldLineEnds text.toList) := by
  rcases tokenize_eq_iff.mp h with ⟨last, hlast, hlexes⟩
  exact terminated_of_lexes (not_mem_foldLineEnds _) hlexes hlast

theorem Terminated.behind {text rest : List Char} {token : Option Token} (h : Terminated text)
    (hreturn : '\r' ∉ text) (hread : readToken text = .ok token rest) : Terminated rest := by
  cases token with
  | none =>
      rw [((readToken_eq_none_iff hreturn).mp hread).2]
      have hlexes : Lexes [] [] [] := rfl
      exact terminated_of_lexes List.not_mem_nil hlexes .nil
  | some token =>
      intro tokens gap left hlexes
      exact h (token :: tokens) gap left ((lexes_cons_iff hreturn).mpr ⟨rest, hread, hlexes⟩)

/-!
# Scanners
-/

namespace Scanner

/-- What is not read yet has line feeds as its line ends, and its comments and strings
end. -/
structure IsTerminated (s : Scanner) : Prop where
  folded : '\r' ∉ s.rest
  terminated : Terminated s.rest

theorem IsTerminated.lookAhead {s s' : Scanner} (h : s.IsTerminated)
    (hlook : lookAhead.run s = .ok () s') : s'.IsTerminated := by
  cases hopen : s.isOpen with
  | false =>
      have hclosed : Scanner.lookAhead s = .ok () s' := hlook
      unfold Scanner.lookAhead reading at hclosed
      simp [hopen] at hclosed
  | true =>
      rcases (run_lookAhead_eq_ok_iff hopen).mp hlook with ⟨token, after, hread, rfl⟩
      exact ⟨not_mem_of_readToken h.folded hread, h.terminated.behind h.folded hread⟩

theorem IsTerminated.lookAhead_ne {s : Scanner} (h : s.IsTerminated) (s' : Scanner) :
    Scanner.lookAhead.run s ≠ .error .endless s' := by
  intro hlook
  have hlook : Scanner.lookAhead s = .error .endless s' := hlook
  unfold Scanner.lookAhead reading at hlook
  cases hopen : s.isOpen with
  | false => simp [hopen] at hlook
  | true =>
      cases hread : readToken s.rest with
      | ok token after => simp [hopen, hread] at hlook
      | error fault after =>
          simp only [hopen, if_true, hread] at hlook
          cases hlook
          exact h.terminated.readToken_ne h.folded after hread

theorem IsTerminated.advance {s s' : Scanner} (h : s.IsTerminated)
    (hadvance : advance.run s = .ok () s') : s'.IsTerminated := by
  cases hnext : s.next with
  | none =>
      rw [run_advance_of_next_none hnext] at hadvance
      cases hadvance
  | some token =>
      rw [run_advance_of_next hnext] at hadvance
      exact IsTerminated.lookAhead (s := { s with current := some token }) ⟨h.1, h.2⟩ hadvance

theorem IsTerminated.advance_ne {s : Scanner} (h : s.IsTerminated) (s' : Scanner) :
    Scanner.advance.run s ≠ .error .endless s' := by
  intro hadvance
  cases hnext : s.next with
  | none =>
      rw [run_advance_of_next_none hnext] at hadvance
      cases hadvance
  | some token =>
      rw [run_advance_of_next hnext] at hadvance
      exact IsTerminated.lookAhead_ne (s := { s with current := some token }) ⟨h.1, h.2⟩ s' hadvance

/-- The scanner moved on.  Fewer characters are left. -/
def Passes (s s' : Scanner) : Prop :=
  s.hasNext = true ∧ s'.left < s.left

/-- The scanner stayed, or it moved on. -/
def Precedes (s s' : Scanner) : Prop :=
  s' = s ∨ s.Passes s'

theorem Precedes.trans {s s' s'' : Scanner} (hfirst : s.Precedes s') (hsecond : s'.Precedes s'') :
    s.Precedes s'' := by
  rcases hsecond with rfl | hsecond
  · exact hfirst
  · rcases hfirst with rfl | hfirst
    · exact Or.inr hsecond
    · exact Or.inr ⟨hfirst.1, Nat.lt_trans hsecond.2 hfirst.2⟩

theorem Passes.trans_precedes {s s' s'' : Scanner} (hfirst : s.Passes s')
    (hsecond : s'.Precedes s'') : s.Passes s'' := by
  rcases hsecond with rfl | hsecond
  · exact hfirst
  · exact ⟨hfirst.1, Nat.lt_trans hsecond.2 hfirst.2⟩

theorem passes_of_advance {s s' : Scanner} (hnext : s.hasNext = true)
    (h : advance.run s = .ok () s') : s.Passes s' := by
  refine ⟨hnext, ?_⟩
  rcases Option.isSome_iff_exists.mp hnext with ⟨token, htoken⟩
  rw [run_advance_of_next htoken] at h
  have hle := left_le_of_lookAhead h
  simp only [left, htoken, Option.isSome_some, if_true] at hle ⊢
  omega

theorem Moves.passes {s s' : Scanner} (h : s.Moves s') (hnext : s.hasNext = true) :
    s.Passes s' := by
  unfold Moves at h
  rw [if_pos hnext] at h
  exact passes_of_advance hnext h

theorem Moves.eq_of_last {s s' : Scanner} (h : s.Moves s') (hlast : s.hasNext = false) :
    s' = s := by
  unfold Moves at h
  rwa [if_neg (by simp [hlast])] at h

theorem Moves.isTerminated {s s' : Scanner} (h : s.Moves s') (hs : s.IsTerminated) :
    s'.IsTerminated := by
  cases hnext : s.hasNext with
  | false => rwa [h.eq_of_last hnext]
  | true =>
      unfold Moves at h
      rw [if_pos hnext] at h
      exact hs.advance h

theorem Takes.isTerminated {s s' : Scanner} {tokens : List Token} (h : s.Takes tokens s')
    (hs : s.IsTerminated) : s'.IsTerminated := by
  induction h with
  | nil => exact hs
  | cons _ hmoves _ ih => exact ih (hmoves.isTerminated hs)

theorem Takes.precedes {s s' : Scanner} {tokens : List Token} (h : s.Takes tokens s') :
    s.Precedes s' := by
  induction h with
  | nil => exact Or.inl rfl
  | @cons s s1 s2 token rest _ hmoves _ ih =>
      cases hnext : s.hasNext with
      | false =>
          rw [hmoves.eq_of_last hnext] at ih
          exact ih
      | true => exact Or.inr ((hmoves.passes hnext).trans_precedes ih)

/-- Where tokens are taken before the last one, the scanner moves on. -/
theorem Takes.passes {s s' : Scanner} {token : Token} {rest : List Token}
    (h : s.Takes (token :: rest) s') (hnext : s.hasNext = true) : s.Passes s' := by
  cases h with
  | cons _ hmoves hrest => exact (hmoves.passes hnext).trans_precedes hrest.precedes

/-- At the last token no other token is taken. -/
theorem Takes.current_of_last {s s' : Scanner} {tokens : List Token} (h : s.Takes tokens s')
    (hlast : s.hasNext = false) : forall token, token ∈ tokens -> s.current = some token := by
  induction h with
  | nil => simp
  | @cons s s1 s2 first rest hcurrent hmoves _ ih =>
      rw [hmoves.eq_of_last hlast] at ih
      intro token htoken
      rcases List.mem_cons.mp htoken with rfl | htoken
      · exact hcurrent
      · exact ih hlast token htoken

/-- Two different tokens are taken only if the scanner moves on. -/
theorem Takes.passes_of_ne {s s' : Scanner} {tokens : List Token} (h : s.Takes tokens s')
    (first second : Token) (hfirst : first ∈ tokens) (hsecond : second ∈ tokens)
    (hne : first ≠ second) : s.Passes s' := by
  cases hnext : s.hasNext with
  | false =>
      have hcurrent := h.current_of_last hnext first hfirst
      rw [h.current_of_last hnext second hsecond] at hcurrent
      cases hcurrent
      exact absurd rfl hne
  | true =>
      cases tokens with
      | nil => cases hfirst
      | cons token rest => exact h.passes hnext

/-- The token at which a scanner arrives without another one ahead is the last of all, and
no fault comes before it. -/
theorem Takes.last {s s' : Scanner} {tokens : List Token} {token : Token}
    (h : s.Takes tokens s') (hcurrent : s'.current = some token) (hlast : s'.next = none) :
    s.tokens.2 = none ∧ s.ahead.getLast? = some token := by
  have hahead := ahead_of_next_none hcurrent hlast
  constructor
  · induction h with
    | nil => rw [tokens_of_next_none hlast]
    | @cons s s1 s2 first rest _ hmoves _ ih =>
        cases hnext : s.next with
        | none =>
            rw [tokens_of_next_none hnext]
        | some second =>
            unfold Moves at hmoves
            rw [if_pos (by simp [hasNext, hnext])] at hmoves
            rw [tokens_of_advance hnext hmoves]
            exact ih hcurrent hlast hahead
  · rcases h.ahead_eq_or_repeats with hsplit | ⟨last, repeats, hbehind, hgetLast, _⟩
    · rw [hsplit, hahead, List.getLast?_append]
      rfl
    · rw [hahead] at hbehind
      rw [hgetLast, (List.cons_prefix_cons.mp hbehind).1]

/-- Behind a token another one stands only if the scanner moved on. -/
theorem Takes.passes_of_current {s s' s'' : Scanner} {token other : Token} {rest : List Token}
    (h : s.Takes (token :: rest) s') (hprecedes : s'.Precedes s'')
    (hcurrent : s''.current = some other) (hne : token ≠ other) : s.Passes s'' := by
  cases hnext : s.hasNext with
  | true => exact (h.passes hnext).trans_precedes hprecedes
  | false =>
      have hfirst := h.current_of_last hnext token List.mem_cons_self
      rcases h.precedes.trans hprecedes with rfl | hpasses
      · rw [hfirst] at hcurrent
        cases hcurrent
        exact absurd rfl hne
      · exact hpasses

/-- The scanner moved on, unless it stands on the last token. -/
def Advances (s s' : Scanner) : Prop :=
  s.Passes s' ∨ (s.hasNext = false ∧ s' = s)

theorem Takes.advances {s s' : Scanner} {token : Token} {rest : List Token}
    (h : s.Takes (token :: rest) s') : s.Advances s' := by
  cases hnext : s.hasNext with
  | true => exact Or.inl (h.passes hnext)
  | false =>
      rcases h.precedes with hsame | hpasses
      · exact Or.inr ⟨hnext, hsame⟩
      · exact Or.inl hpasses

/-!
# Limits
-/

/-- The limit allows four levels for every character that is left and some levels more, or
so many levels in all at the last token. -/
def Fits (s : Scanner) (levels atLast limit : Nat) : Prop :=
  if s.hasNext then 4 * s.left + levels ≤ limit else atLast ≤ limit

section

variable {s s' : Scanner} {levels atLast limit : Nat}

theorem fits_of_next (hnext : s.hasNext = true) :
    s.Fits levels atLast limit ↔ 4 * s.left + levels ≤ limit := by
  simp [Fits, hnext]

theorem fits_of_last (hlast : s.hasNext = false) :
    s.Fits levels atLast limit ↔ atLast ≤ limit := by
  simp [Fits, hlast]

theorem not_fits_zero (hlevels : 0 < levels) (hlast : 0 < atLast) : ¬ s.Fits levels atLast 0 := by
  intro h
  cases hnext : s.hasNext with
  | true =>
      rw [fits_of_next hnext] at h
      omega
  | false =>
      rw [fits_of_last hnext] at h
      omega

theorem Fits.pred {levels' atLast' : Nat} (h : s.Fits levels atLast (limit + 1))
    (hlevels : levels' < levels) (hlast : atLast' < atLast) : s.Fits levels' atLast' limit := by
  cases hnext : s.hasNext with
  | true =>
      rw [fits_of_next hnext] at h ⊢
      omega
  | false =>
      rw [fits_of_last hnext] at h ⊢
      omega

/-- A token that was passed is worth four levels. -/
theorem Fits.passes (h : s.Fits levels atLast limit) (hs : s.Passes s') {atLast' : Nat}
    (hle : atLast' ≤ levels + 4) : s'.Fits (levels + 4) atLast' limit := by
  have hlt := hs.2
  rw [fits_of_next hs.1] at h
  cases hnext : s'.hasNext with
  | true =>
      rw [fits_of_next hnext]
      omega
  | false =>
      rw [fits_of_last hnext]
      omega

theorem Fits.advances (h : s.Fits levels atLast limit) (hle : atLast ≤ levels + 4)
    (hs : s.Advances s') : s'.Fits (levels + 4) atLast limit := by
  rcases hs with hpasses | ⟨hlast, rfl⟩
  · exact h.passes hpasses hle
  · rw [fits_of_last hlast] at h ⊢
    exact h

theorem Fits.precedes (h : s.Fits levels atLast limit) (hle : atLast ≤ levels + 4)
    (hs : s.Precedes s') : s'.Fits levels atLast limit := by
  rcases hs with rfl | hpasses
  · exact h
  · have hfits := h.passes hpasses hle
    cases hnext : s'.hasNext with
    | true =>
        rw [fits_of_next hnext] at hfits ⊢
        omega
    | false =>
        rw [fits_of_last hnext] at hfits ⊢
        exact hfits

theorem fits_bound (s : Scanner) (hlevels : levels ≤ 12) (hlast : atLast ≤ 16) :
    s.Fits levels atLast (4 * (s.rest.length + 4)) := by
  cases hnext : s.hasNext with
  | true =>
      have hsome : s.next.isSome = true := hnext
      rw [fits_of_next hnext, left, if_pos hsome]
      omega
  | false =>
      rw [fits_of_last hnext]
      omega

end

end Scanner

/-!
# Where the compiler does not end
-/

/-- The symbols that open a term with another term in it. -/
def termOpeners : List Symbol := [.leftParen, .minus, .tilde]

namespace Compiler

open Compile

/-- The tree can be written, and comments and strings of the source end. -/
structure Supplied (c : Compiler) : Prop where
  treeOpen : c.treeOpen = true
  source : c.scanner.IsTerminated

/-- Calls lead from one compiler to the other.  They take tokens and leave the tree as open
as it was. -/
structure Leads (c c' : Compiler) : Prop where
  calls : exists calls, (Call.performAll calls).run c = .ok () c'
  takes : exists tokens, c.scanner.Takes tokens c'.scanner
  treeOpen : c'.treeOpen = c.treeOpen

/-- The last token of the source is at hand, and it opens a term with another term in it. -/
def Stuck (c : Compiler) : Prop :=
  c.scanner.hasNext = false ∧
    exists sign, sign ∈ termOpeners ∧ c.scanner.current = some (.symbol sign)

/-- Calls lead to a compiler that is stuck, and there a term is compiled without an end. -/
def Strays (c c' : Compiler) : Prop :=
  exists d n, c.Leads d ∧ d.Stuck ∧ (termWithin n).run d = .error .endless c'

/-- The step is done by calls if it succeeds, and it has no end only if it strays. -/
structure Settles (c : Compiler) (step : CompileM α) : Prop where
  ok : forall a c', step.run c = .ok a c' -> c.Leads c'
  endless : forall c', step.run c = .error .endless c' -> c.Strays c'

section

variable {c c' c'' : Compiler}

theorem Leads.refl (c : Compiler) : c.Leads c :=
  ⟨⟨[], rfl⟩, ⟨[], .nil _⟩, rfl⟩

theorem Leads.trans (hfirst : c.Leads c') (hsecond : c'.Leads c'') : c.Leads c'' := by
  rcases hfirst with ⟨⟨calls, hrun⟩, ⟨tokens, htakes⟩, hopen⟩
  rcases hsecond with ⟨⟨calls', hrun'⟩, ⟨tokens', htakes'⟩, hopen'⟩
  refine ⟨⟨calls ++ calls', ?_⟩, ⟨tokens ++ tokens', htakes.append htakes'⟩, hopen'.trans hopen⟩
  rw [Call.performAll_append, run_bind_of_ok hrun]
  exact hrun'

theorem Leads.supplied (h : c.Leads c') (hsupplied : c.Supplied) : c'.Supplied := by
  rcases h with ⟨_, ⟨tokens, htakes⟩, hopen⟩
  exact ⟨hopen.trans hsupplied.treeOpen, htakes.isTerminated hsupplied.source⟩

theorem Leads.precedes (h : c.Leads c') : c.scanner.Precedes c'.scanner := by
  rcases h.takes with ⟨tokens, htakes⟩
  exact htakes.precedes

theorem Calls.leads {f f' : Frame} {calls : List Call} (h : c.Calls f calls c' f') :
    c.Leads c' := by
  rcases h.exists_makes with ⟨marks, code, labels, t, hmakes, _⟩
  exact ⟨⟨calls, h.run⟩, ⟨_, hmakes.takes⟩, h.treeOpen⟩

theorem Strays.of_leads (hleads : c.Leads c') (h : c'.Strays c'') : c.Strays c'' := by
  rcases h with ⟨d, n, hd, hstuck, hrun⟩
  exact ⟨d, n, hleads.trans hd, hstuck, hrun⟩

theorem Settles.bind {step : CompileM α} {second : α -> CompileM β} (hsupplied : c.Supplied)
    (hfirst : c.Settles step)
    (hsecond : forall a c', step.run c = .ok a c' -> c'.Supplied -> c.scanner.Precedes c'.scanner ->
      c'.Settles (second a)) : c.Settles (step >>= second) := by
  constructor
  · intro b c'' hok
    rcases run_bind_eq_ok_iff.mp hok with ⟨a, c', hrun, hrest⟩
    have hleads := hfirst.ok a c' hrun
    have hsettles := hsecond a c' hrun (hleads.supplied hsupplied) hleads.precedes
    exact hleads.trans (hsettles.ok b c'' hrest)
  · intro c'' herror
    rcases run_bind_eq_error_iff.mp herror with herror | ⟨a, c', hrun, hrest⟩
    · exact hfirst.endless c'' herror
    · have hleads := hfirst.ok a c' hrun
      have hsettles := hsecond a c' hrun (hleads.supplied hsupplied) hleads.precedes
      exact (hsettles.endless c'' hrest).of_leads hleads

theorem Settles.congr {step step' : CompileM α} (hrun : step.run c = step'.run c)
    (h : c.Settles step') : c.Settles step := by
  constructor
  · intro a c' hok
    rw [hrun] at hok
    exact h.ok a c' hok
  · intro c' herror
    rw [hrun] at herror
    exact h.endless c' herror

/-- At a last token that opens a term, a term strays with any limit. -/
theorem Stuck.settles_term (hstuck : c.Stuck) (hsupplied : c.Supplied) (n : Nat) :
    c.Settles (termWithin n) := by
  constructor
  · intro a c' hok
    have hfollows := (keepsExpressions n).term ⟨[], []⟩ c hsupplied.treeOpen
    rcases hfollows.ok a c' hok with ⟨calls, hcalls⟩
    exact hcalls.leads
  · intro c' herror
    exact ⟨c, n, .refl c, hstuck, herror⟩

end

end Compiler

namespace Compile

open Compiler

/-- The step settles wherever it starts. -/
def Settled (step : CompileM α) : Prop :=
  forall c : Compiler, c.Supplied -> c.Settles step

theorem Settled.bind {step : CompileM α} {second : α -> CompileM β} (hfirst : Settled step)
    (hsecond : forall a, Settled (second a)) : Settled (step >>= second) := by
  intro c hsupplied
  exact (hfirst c hsupplied).bind hsupplied fun a c' _ hsupplied' _ => hsecond a c' hsupplied'

/-- A step with the compiler's own limit settles if it does so wherever the limit fits. -/
theorem settled_of_bound {step : Nat -> CompileM α} {levels atLast : Nat}
    (hlevels : levels ≤ 12) (hlast : atLast ≤ 16)
    (h : forall {n : Nat} {c : Compiler}, c.Supplied -> c.scanner.Fits levels atLast n ->
      c.Settles (step n)) : Settled (bound >>= step) := by
  intro c hsupplied
  apply Settles.congr (run_bind_of_ok (run_bound c))
  exact h hsupplied (c.scanner.fits_bound hlevels hlast)

/-- A step that is done by calls settles if it ends. -/
theorem settles_of_follows {c : Compiler} {f : Frame} {step : CompileM α} {next : α -> Frame}
    (h : c.Follows f step next) (hends : forall c', step.run c ≠ .error .endless c') :
    c.Settles step := by
  constructor
  · intro a c' hok
    rcases h.ok a c' hok with ⟨calls, hcalls⟩
    exact hcalls.leads
  · intro c' herror
    exact absurd herror (hends c')

theorem Keeps.settled {step : CompileM α} (h : Keeps step)
    (hends : forall c c', c.Supplied -> step.run c ≠ .error .endless c') : Settled step := by
  intro c hsupplied
  exact settles_of_follows (h ⟨[], []⟩ c hsupplied.treeOpen) fun c' => hends c c' hsupplied

end Compile

end Jack
