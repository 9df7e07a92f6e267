import Jack.Proofs.Termination.Basic

/-!
# Expressions settle

Steps that take tokens, write code or look names up come to an end.  The routines for the
parts of an expression have a limit.  They do not reach it unless they stray: before the
last token of a source each of them needs at most four levels for every character that is
left and some levels more, and at the last token a few levels in all.
-/

namespace Jack
namespace Compile

open Compiler

/-!
# Single steps
-/

theorem settled_pure (a : α) : Settled (pure a : CompileM α) :=
  (keeps_pure a).settled fun _ _ _ h => by cases h

theorem settled_get : Settled (get : CompileM Compiler) :=
  keeps_get.settled fun _ _ _ h => by cases h

theorem settled_current : Settled current :=
  keeps_current.settled fun _ _ _ h => by cases h

theorem settled_atSymbol (sign : Symbol) : Settled (atSymbol sign) := by
  refine (keeps_atSymbol sign).settled fun c c' _ h => ?_
  rw [run_atSymbol] at h
  cases h

theorem settled_atKeyword (words : List Keyword) : Settled (atKeyword words) := by
  refine (keeps_atKeyword words).settled fun c c' _ h => ?_
  rw [run_atKeyword] at h
  cases h

theorem settled_currentKeyword : Settled currentKeyword := by
  refine keeps_currentKeyword.settled fun c c' _ h => ?_
  rw [run_currentKeyword, Scanner.keyword] at h
  cases hcurrent : c.scanner.current with
  | none => simp [hcurrent] at h
  | some token => cases token <;> simp [hcurrent] at h

theorem settled_enter (nonterminal : Nonterminal) : Settled (enter nonterminal) := by
  intro c hsupplied
  apply settles_of_follows (traced_enter ⟨[], []⟩ nonterminal c hsupplied.treeOpen)
  intro c' h
  rw [run_enter_eq_ok_iff.mpr ⟨hsupplied.treeOpen, c.scanner, .nil _, rfl⟩] at h
  cases h

theorem settled_leave (nonterminal : Nonterminal) : Settled (leave nonterminal) := by
  intro c hsupplied
  apply settles_of_follows (traced_leave ⟨[], []⟩ nonterminal c hsupplied.treeOpen)
  intro c' h
  rw [run_leave_eq_ok_iff.mpr ⟨hsupplied.treeOpen, c.scanner, .nil _, rfl⟩] at h
  cases h

/-- A step that is a call and does not move the scanner. -/
theorem settled_of_call (call : Call) {step : CompileM α}
    (h : forall c : Compiler, exists a c', step.run c = .ok a c' ∧ call.action.run c = .ok () c' ∧
      c'.scanner = c.scanner ∧ c'.treeOpen = c.treeOpen) : Settled step := by
  intro c _
  rcases h c with ⟨a, c', hstep, hcall, hscanner, hopen⟩
  constructor
  · intro b d hok
    rw [hstep] at hok
    cases hok
    refine ⟨⟨[call], ?_⟩, ⟨[], Scanner.takes_nil_iff.mpr hscanner⟩, hopen⟩
    rw [Call.performAll_singleton, hcall]
  · intro d herror
    rw [hstep] at herror
    cases herror

theorem settled_emit (instr : Instr) : Settled (emit instr) :=
  settled_of_call (.emit instr) fun _ => ⟨_, _, rfl, rfl, rfl, rfl⟩

theorem settled_emitAll (code : List Instr) : Settled (emitAll code) := by
  induction code with
  | nil => exact settled_pure ()
  | cons instr rest ih => exact (settled_emit instr).bind fun _ => ih

theorem settled_drawLabel : Settled drawLabel :=
  settled_of_call .draw fun _ => ⟨_, _, rfl, rfl, rfl, rfl⟩

/-!
# Taking tokens
-/

theorem take_ne_endless {c : Compiler} (hsupplied : c.Supplied) (token : Token) (c' : Compiler) :
    (take token).run c ≠ .error .endless c' := by
  intro h
  unfold take at h
  rw [run_bind_of_ok (run_writeMark_eq_ok_iff.mpr ⟨hsupplied.treeOpen, rfl⟩), run_moveOn] at h
  split at h
  · rw [run_scanning] at h
    split at h
    · cases h
    · next hadvance =>
        cases h
        exact hsupplied.source.advance_ne _ hadvance
  · cases h

theorem settles_take {c : Compiler} {token : Token} (hsupplied : c.Supplied)
    (hcurrent : c.scanner.current = some token) : c.Settles (take token) :=
  settles_of_follows (follows_take hcurrent ⟨[], []⟩) (take_ne_endless hsupplied token)

theorem settles_take_pure {c : Compiler} {token : Token} (hsupplied : c.Supplied)
    (hcurrent : c.scanner.current = some token) (a : α) :
    c.Settles (take token >>= fun _ => pure a) :=
  (settles_take hsupplied hcurrent).bind hsupplied fun _ c' _ hsupplied' _ =>
    settled_pure a c' hsupplied'

theorem settled_throw {fault : Fault} (h : fault ≠ .endless) :
    Settled (throw fault : CompileM α) :=
  (keeps_throw fault).settled fun _ _ _ hthrow => by
    cases hthrow
    exact h rfl

theorem settled_unexpectedKind (expected : Token.Kind) :
    Settled (unexpectedKind expected : CompileM α) :=
  (keeps_unexpectedKind expected).settled fun _ _ _ h => by cases h

section

variable {rest : Option Token -> CompileM α}

theorem settled_of_current (h : forall c : Compiler, c.Supplied ->
    c.Settles (rest c.scanner.current)) : Settled (current >>= rest) := by
  intro c hsupplied
  exact (h c hsupplied).congr (run_bind_of_ok (run_current c))

end

theorem settled_takeKeyword (words : List Keyword) : Settled (takeKeyword words) := by
  apply settled_of_current
  intro c hsupplied
  split
  · next word hcurrent =>
      split
      · exact settles_take_pure hsupplied hcurrent word
      · exact settled_throw (by simp) c hsupplied
  · exact settled_unexpectedKind _ c hsupplied

theorem settled_takeSymbol (sign : Symbol) : Settled (takeSymbol sign) := by
  apply settled_of_current
  intro c hsupplied
  split
  · next found hcurrent =>
      split
      · exact settles_take hsupplied hcurrent
      · exact settled_throw (by simp) c hsupplied
  · exact settled_unexpectedKind _ c hsupplied

theorem settled_takeIdentifier : Settled takeIdentifier := by
  apply settled_of_current
  intro c hsupplied
  split
  · next name hcurrent =>
      exact settles_take_pure hsupplied hcurrent name
  · exact settled_unexpectedKind _ c hsupplied

theorem settled_takeInteger : Settled takeInteger := by
  apply settled_of_current
  intro c hsupplied
  split
  · next digits hcurrent =>
      exact settles_take_pure hsupplied hcurrent _
  · exact settled_unexpectedKind _ c hsupplied

theorem settled_takeString : Settled takeString := by
  apply settled_of_current
  intro c hsupplied
  split
  · next text hcurrent =>
      apply (settled_emitAll _ c hsupplied).bind hsupplied
      intro _ c1 hrun hsupplied1 _
      have hscanner : c1.scanner = c.scanner :=
        Scanner.takes_nil_iff.mp (yields_emitAll hrun).takes
      rw [← hscanner] at hcurrent
      exact settles_take_pure hsupplied1 hcurrent _
  · exact settled_unexpectedKind _ c hsupplied

theorem Settled.map {step : CompileM α} (g : α -> β) (h : Settled step) :
    Settled (g <$> step) := by
  rw [map_eq_pure_bind]
  exact h.bind fun a => settled_pure (g a)

theorem settled_takeType : Settled takeType := by
  apply settled_current.bind
  intro token
  split
  · exact settled_takeIdentifier
  · exact (settled_takeKeyword _).map Keyword.word

/-!
# Looking names up
-/

theorem settled_classEntry (name className : Option String) :
    Settled ( classEntry? name className) := by
  refine (keeps_classEntry name className).settled fun c c' _ h => ?_
  rw [Scope.run_classEntry] at h
  split at h <;> cases h

theorem settled_entry (name : Option String) : Settled ( entry? name) := by
  refine (keeps_entry name).settled fun c c' _ h => ?_
  rw [Scope.run_entry] at h
  split at h
  · cases h
  · split at h
    · cases h
    · rw [Scope.run_classEntry] at h
      split at h <;> cases h

theorem settled_subroutineEntry (receiver subroutine : Option String) :
    Settled ( subroutineEntry? receiver subroutine) := by
  apply (settled_entry subroutine).bind
  intro found
  cases found with
  | some e => exact settled_pure (some e)
  | none =>
      apply (settled_entry receiver).bind
      intro holder
      cases holder with
      | some e => exact settled_classEntry subroutine e.type
      | none => exact settled_pure none

theorem settled_placeOf (e : Option Entry) : Settled (placeOf e) := by
  cases e with
  | some e => exact settled_pure e.place
  | none => exact settled_throw (by simp)

theorem settled_typeOf (e : Option Entry) : Settled (typeOf e) := by
  cases e with
  | some e => exact settled_pure e.type
  | none => exact settled_throw (by simp)

theorem settled_classSize : Settled classSize := by
  refine keeps_classSize.settled fun c c' _ h => ?_
  rw [Scope.run_classSize] at h
  split at h <;> cases h

theorem settled_callTarget (name subroutine : String) : Settled (callTarget name subroutine) := by
  apply (settled_subroutineEntry _ _).bind
  intro found
  cases found with
  | none => exact settled_pure _
  | some e =>
      show Settled (if e.type = some "method" then _ else _)
      split
      · exact (settled_entry _).bind fun holder =>
          (settled_typeOf holder).bind fun type => settled_pure (type, 1)
      · exact settled_pure _

theorem settled_pushName (name : String) : Settled (pushName name) := by
  apply (settled_entry _).bind
  intro found
  cases found with
  | none => exact settled_pure ()
  | some e =>
      cases hsegment : e.standing.segment? with
      | some segment =>
          simp only [hsegment]
          exact settled_emit _
      | none =>
          simp only [hsegment]
          exact settled_pure ()

/-!
# Moving on in expressions
-/

end Compile

/-- Every term has a token that is no symbol, or a parenthesis that opens. -/
theorem Syntax.Term.exists_mem_tokens (t : Syntax.Term) :
    exists token, token ∈ t.tokens ∧ forall sign : Symbol, sign ≠ .leftParen ->
      token ≠ .symbol sign := by
  cases t with
  | integer digits => exact ⟨.integer digits, by simp [tokens], by simp⟩
  | string text => exact ⟨.string text, by simp [tokens], by simp⟩
  | constant value => exact ⟨.keyword value.keyword, by simp [tokens], by simp⟩
  | paren inner =>
      refine ⟨.symbol .leftParen, by simp [tokens], ?_⟩
      intro sign hsign htoken
      cases htoken
      exact hsign rfl
  | unary op operand =>
      rcases operand.exists_mem_tokens with ⟨token, hmem, htoken⟩
      exact ⟨token, by simp [tokens, hmem], htoken⟩
  | var name => exact ⟨.identifier name, by simp [tokens], by simp⟩
  | element name index => exact ⟨.identifier name, by simp [tokens], by simp⟩
  | call name arguments => exact ⟨.identifier name, by simp [tokens], by simp⟩
  | callOn owner name arguments => exact ⟨.identifier owner, by simp [tokens], by simp⟩

namespace Compile

open Compiler

section

variable {c c1 c2 : Compiler} {sign : Symbol} {n : Nat}

theorem advances_of_takeSymbol (h : (takeSymbol sign).run c = .ok () c1) :
    c.scanner.Advances c1.scanner :=
  (run_takeSymbol_eq_ok_iff.mp h).2.takes.advances

/-- A symbol and then the tokens of a term are taken only before the last token. -/
theorem passes_of_takes (hsign : sign ≠ .leftParen) (htake : (takeSymbol sign).run c = .ok () c1)
    (t : Syntax.Term) {tokens : List Token} (htakes : c1.scanner.Takes tokens c2.scanner)
    (hterm : t.tokens ⊆ tokens) : c.scanner.Passes c2.scanner := by
  rcases t.exists_mem_tokens with ⟨token, hmem, hne⟩
  have htakes := (run_takeSymbol_eq_ok_iff.mp htake).2.takes.append htakes
  apply htakes.passes_of_ne token (.symbol sign) _ _ (hne sign hsign)
  · exact List.mem_append_right _ (hterm hmem)
  · simp [Tree.leaves]

theorem passes_of_term (hsign : sign ≠ .leftParen) (htake : (takeSymbol sign).run c = .ok () c1)
    {name : Option String} (hterm : (termWithin n).run c1 = .ok name c2) :
    c.scanner.Passes c2.scanner := by
  rcases (readsExpressions n).term hterm with ⟨t, _, hyields⟩
  exact passes_of_takes hsign htake t hyields.takes (by simp [Syntax.Term.marks])

theorem passes_of_expression (hsign : sign ≠ .leftParen)
    (htake : (takeSymbol sign).run c = .ok () c1)
    (hexpression : (expressionWithin n).run c1 = .ok () c2) :
    c.scanner.Passes c2.scanner := by
  rcases (readsExpressions n).expression hexpression with ⟨⟨t, rest⟩, _, hyields⟩
  exact passes_of_takes hsign htake t hyields.takes
    (by simp [Syntax.Expr.marks, Syntax.Expr.tokens])

end

/-!
# Expressions
-/

/-- Routines for the parts of an expression settle with a limit that fits. -/
structure SettlesExpressions (n : Nat) : Prop where
  expression : forall {c : Compiler}, c.Supplied -> c.scanner.Fits 7 5 n ->
    c.Settles (expressionWithin n)
  operations : forall {c : Compiler}, c.Supplied -> c.scanner.Fits 4 4 n ->
    c.Settles (operationsWithin n)
  term : forall {c : Compiler}, c.Supplied -> c.scanner.Fits 6 3 n -> c.Settles (termWithin n)
  operand : forall {c : Compiler}, c.Supplied -> c.scanner.Fits 5 2 n -> ¬ c.Stuck ->
    c.Settles (operandWithin n)
  name : forall {c : Compiler}, c.Supplied -> c.scanner.Fits 4 1 n -> c.Settles (nameWithin n)
  arguments : forall {c : Compiler}, c.Supplied -> c.scanner.Fits 8 7 n ->
    c.Settles (expressionListWithin n)
  more : forall {c : Compiler}, c.Supplied -> c.scanner.Fits 6 6 n ->
    c.Settles (moreExpressionsWithin n)

section

variable {c : Compiler} {n : Nat}

theorem settles_expressionWithin (ih : SettlesExpressions n) (hsupplied : c.Supplied)
    (hfits : c.scanner.Fits 7 5 (n + 1)) : c.Settles (expressionWithin (n + 1)) := by
  unfold expressionWithin
  apply (settled_enter .expression c hsupplied).bind hsupplied
  intro _ c1 _ hsupplied1 hprecedes1
  have hfits1 := hfits.precedes (by decide) hprecedes1
  apply (ih.term hsupplied1 (hfits1.pred (by decide) (by decide))).bind hsupplied1
  intro _ c2 _ hsupplied2 hprecedes2
  have hfits2 := hfits1.precedes (by decide) hprecedes2
  apply (ih.operations hsupplied2 (hfits2.pred (by decide) (by decide))).bind hsupplied2
  intro _ c3 _ hsupplied3 _
  exact settled_leave .expression c3 hsupplied3

theorem settles_operationsWithin (ih : SettlesExpressions n) (hsupplied : c.Supplied)
    (hfits : c.scanner.Fits 4 4 (n + 1)) : c.Settles (operationsWithin (n + 1)) := by
  unfold operationsWithin
  rcases run_operator c with ⟨found, hoperator, hbinary⟩
  apply Settles.congr (run_bind_of_ok hoperator)
  cases found with
  | none => exact settled_pure () c hsupplied
  | some found =>
      rcases found with ⟨sign, instr⟩
      rcases hbinary sign instr rfl with ⟨op, rfl, _⟩
      have hsign : op.symbol ≠ .leftParen := by cases op <;> decide
      apply (settled_takeSymbol op.symbol c hsupplied).bind hsupplied
      intro _ c1 htake hsupplied1 _
      have hfits1 := hfits.advances (by decide) (advances_of_takeSymbol htake)
      apply (ih.term hsupplied1 (hfits1.pred (by decide) (by decide))).bind hsupplied1
      intro name c2 hterm hsupplied2 _
      have hfits2 := hfits.passes (passes_of_term hsign htake hterm) (Nat.le_refl 8)
      apply (settled_emit instr c2 hsupplied2).bind hsupplied2
      intro _ c3 _ hsupplied3 hprecedes3
      have hfits3 := hfits2.precedes (by decide) hprecedes3
      exact ih.operations hsupplied3 (hfits3.pred (by decide) (by decide))

theorem settles_termWithin (ih : SettlesExpressions n) (hsupplied : c.Supplied)
    (hfits : c.scanner.Fits 6 3 (n + 1)) : c.Settles (termWithin (n + 1)) := by
  by_cases hstuck : c.Stuck
  · exact hstuck.settles_term hsupplied (n + 1)
  · unfold termWithin
    apply (settled_enter .term c hsupplied).bind hsupplied
    intro _ c1 henter hsupplied1 _
    have hscanner : c1.scanner = c.scanner :=
      Scanner.takes_nil_iff.mp (run_enter_eq_ok_iff.mp henter).2.takes
    have hfree : ¬ c1.Stuck := by
      unfold Stuck at hstuck ⊢
      rwa [hscanner]
    rw [← hscanner] at hfits
    apply (ih.operand hsupplied1 (hfits.pred (by decide) (by decide)) hfree).bind hsupplied1
    intro name c2 _ hsupplied2 _
    exact ((settled_leave .term).bind fun _ => settled_pure name) c2 hsupplied2

/-- A symbol that opens a term is passed, unless the compiler is stuck. -/
theorem passes_of_opener {c1 : Compiler} {sign : Symbol} (hfree : ¬ c.Stuck)
    (hopener : sign ∈ termOpeners) (htake : (takeSymbol sign).run c = .ok () c1) :
    c.scanner.Passes c1.scanner := by
  have hyields := (run_takeSymbol_eq_ok_iff.mp htake).2
  rcases advances_of_takeSymbol htake with hpasses | ⟨hlast, _⟩
  · exact hpasses
  · exact absurd ⟨hlast, sign, hopener, current_of_yields_leaf hyields⟩ hfree

theorem settles_operandWithin (ih : SettlesExpressions n) (hsupplied : c.Supplied)
    (hfits : c.scanner.Fits 5 2 (n + 1)) (hfree : ¬ c.Stuck) :
    c.Settles (operandWithin (n + 1)) := by
  have hname : c.Settles (nameWithin n) :=
    ih.name hsupplied (hfits.pred (by decide) (by decide))
  unfold operandWithin
  apply Settles.congr (run_bind_of_ok (run_current c))
  split
  · exact (settled_takeInteger.bind fun value => (settled_emit _).bind fun _ =>
      settled_pure none) c hsupplied
  · exact (settled_takeString.bind fun _ => settled_pure none) c hsupplied
  · next word hcurrent =>
      split
      · exact ((settled_takeKeyword _).bind fun _ => (settled_emitAll _).bind fun _ =>
          settled_pure none) c hsupplied
      · exact hname
  · next sign hcurrent =>
      split
      · apply (settled_takeSymbol .leftParen c hsupplied).bind hsupplied
        intro _ c1 htake hsupplied1 _
        have hpasses := passes_of_opener hfree (by decide) htake
        have hfits1 := hfits.passes hpasses (Nat.le_refl 9)
        apply (ih.expression hsupplied1 (hfits1.pred (by decide) (by decide))).bind hsupplied1
        intro _ c2 _ hsupplied2 _
        exact ((settled_takeSymbol _).bind fun _ => settled_pure none) c2 hsupplied2
      · split
        · next instr hunary =>
            have hopener : sign ∈ termOpeners := by
              rcases Syntax.Unary.exists_of_unary? hunary with ⟨op, rfl, _⟩
              cases op <;> decide
            apply (settled_takeSymbol sign c hsupplied).bind hsupplied
            intro _ c1 htake hsupplied1 _
            have hfits1 := hfits.passes (passes_of_opener hfree hopener htake) (Nat.le_refl 9)
            apply (ih.term hsupplied1 (hfits1.pred (by decide) (by decide))).bind hsupplied1
            intro _ c2 _ hsupplied2 _
            exact ((settled_emit instr).bind fun _ => settled_pure none) c2 hsupplied2
        · exact hname
  · exact hname

/-- A name with a symbol behind it is passed. -/
theorem passes_of_name {c1 c2 : Compiler} {name : String} {sign : Symbol}
    (hname : takeIdentifier.run c = .ok name c1) (hpush : (pushName name).run c1 = .ok () c2)
    (hcurrent : c2.scanner.current = some (.symbol sign)) : c.scanner.Passes c2.scanner := by
  have hleaf := (run_takeIdentifier_eq_ok_iff.mp hname).2
  exact hleaf.takes.passes_of_current (yields_pushName hpush).2.takes.precedes hcurrent (by simp)

/-- Arguments between parentheses. -/
theorem settles_callArguments (ih : SettlesExpressions n) (hsupplied : c.Supplied)
    (hfits : c.scanner.Fits 8 8 (n + 1)) (call : Nat -> Instr) (result : Option String) :
    c.Settles (takeSymbol .leftParen >>= fun _ => expressionListWithin n >>= fun arguments =>
      emit (call arguments) >>= fun _ => takeSymbol .rightParen >>= fun _ => pure result) := by
  apply (settled_takeSymbol .leftParen c hsupplied).bind hsupplied
  intro _ c1 htake hsupplied1 _
  have hfits1 := hfits.advances (by decide) (advances_of_takeSymbol htake)
  apply (ih.arguments hsupplied1 (hfits1.pred (by decide) (by decide))).bind hsupplied1
  intro arguments c2 _ hsupplied2 _
  exact ((settled_emit _).bind fun _ => (settled_takeSymbol _).bind fun _ =>
    settled_pure result) c2 hsupplied2

theorem settles_nameWithin (ih : SettlesExpressions n) (hsupplied : c.Supplied)
    (hfits : c.scanner.Fits 4 1 (n + 1)) : c.Settles (nameWithin (n + 1)) := by
  unfold nameWithin
  apply (settled_takeIdentifier c hsupplied).bind hsupplied
  intro name c1 hname hsupplied1 _
  apply (settled_pushName name c1 hsupplied1).bind hsupplied1
  intro _ c2 hpush hsupplied2 _
  have hfits2 : forall sign, c2.scanner.current = some (.symbol sign) ->
      c2.scanner.Fits 8 8 (n + 1) := fun sign hcurrent =>
    hfits.passes (passes_of_name hname hpush hcurrent) (Nat.le_refl 8)
  apply Settles.congr (run_bind_of_ok (run_atSymbol .leftBracket c2))
  split
  · next hbracket =>
      apply (settled_takeSymbol .leftBracket c2 hsupplied2).bind hsupplied2
      intro _ c3 htake hsupplied3 _
      have hfits3 := (hfits2 .leftBracket (of_decide_eq_true hbracket)).advances (by decide)
        (advances_of_takeSymbol htake)
      apply (ih.expression hsupplied3 (hfits3.pred (by decide) (by decide))).bind hsupplied3
      intro _ c4 _ hsupplied4 _
      exact ((settled_emitAll _).bind fun _ => (settled_takeSymbol _).bind fun _ =>
        settled_pure _) c4 hsupplied4
  · apply Settles.congr (run_bind_of_ok (run_atSymbol .leftParen c2))
    split
    · next hparen =>
        exact settles_callArguments ih hsupplied2 (hfits2 .leftParen (of_decide_eq_true hparen))
          (fun arguments => .call name arguments) (some name)
    · apply Settles.congr (run_bind_of_ok (run_atSymbol .dot c2))
      split
      · next hdot =>
          have hfits2 := hfits2 .dot (of_decide_eq_true hdot)
          apply (settled_takeSymbol .dot c2 hsupplied2).bind hsupplied2
          intro _ c3 _ hsupplied3 hprecedes3
          apply (settled_takeIdentifier c3 hsupplied3).bind hsupplied3
          intro subroutine c4 _ hsupplied4 hprecedes4
          apply (settled_callTarget name subroutine c4 hsupplied4).bind hsupplied4
          intro found c5 _ hsupplied5 hprecedes5
          rcases found with ⟨target, extra⟩
          have hfits5 := hfits2.precedes (by decide)
            ((hprecedes3.trans hprecedes4).trans hprecedes5)
          exact settles_callArguments ih hsupplied5 hfits5
            (fun arguments => .call (qualified target (some subroutine)) (arguments + extra)) target
      · exact settled_pure _ c2 hsupplied2

theorem settles_moreExpressionsWithin (ih : SettlesExpressions n) (hsupplied : c.Supplied)
    (hfits : c.scanner.Fits 6 6 (n + 1)) : c.Settles (moreExpressionsWithin (n + 1)) := by
  unfold moreExpressionsWithin
  apply Settles.congr (run_bind_of_ok (run_atSymbol .comma c))
  split
  · apply (settled_takeSymbol .comma c hsupplied).bind hsupplied
    intro _ c1 htake hsupplied1 _
    have hfits1 := hfits.advances (by decide) (advances_of_takeSymbol htake)
    apply (ih.expression hsupplied1 (hfits1.pred (by decide) (by decide))).bind hsupplied1
    intro _ c2 hexpression hsupplied2 _
    have hpasses := passes_of_expression (by decide) htake hexpression
    have hfits2 := hfits.passes hpasses (Nat.le_refl 10)
    apply (ih.more hsupplied2 (hfits2.pred (by decide) (by decide))).bind hsupplied2
    intro others c3 _ hsupplied3 _
    exact settled_pure _ c3 hsupplied3
  · exact settled_pure 0 c hsupplied

theorem settles_expressionListWithin (ih : SettlesExpressions n) (hsupplied : c.Supplied)
    (hfits : c.scanner.Fits 8 7 (n + 1)) : c.Settles (expressionListWithin (n + 1)) := by
  have hmore : forall (first : Nat) (d : Compiler), d.Supplied -> d.scanner.Fits 8 7 (n + 1) ->
      d.Settles (moreExpressionsWithin n >>= fun others =>
        leave .expressionList >>= fun _ => pure (first + others)) := by
    intro first d hsupplied hfits
    apply (ih.more hsupplied (hfits.pred (by decide) (by decide))).bind hsupplied
    intro others d' _ hsupplied' _
    exact ((settled_leave _).bind fun _ => settled_pure _) d' hsupplied'
  unfold expressionListWithin
  apply (settled_enter .expressionList c hsupplied).bind hsupplied
  intro _ c1 _ hsupplied1 hprecedes1
  have hfits1 := hfits.precedes (by decide) hprecedes1
  apply Settles.congr (run_bind_of_ok (run_atSymbol .rightParen c1))
  split
  · exact hmore 0 c1 hsupplied1 hfits1
  · apply (ih.expression hsupplied1 (hfits1.pred (by decide) (by decide))).bind hsupplied1
    intro _ c2 _ hsupplied2 hprecedes2
    exact hmore 1 c2 hsupplied2 (hfits1.precedes (by decide) hprecedes2)

end

theorem settlesExpressions (n : Nat) : SettlesExpressions n := by
  induction n with
  | zero =>
      constructor
      all_goals
        intro c _ hfits
        exact absurd hfits (Scanner.not_fits_zero (by decide) (by decide))
  | succ n ih =>
      exact
        { expression := settles_expressionWithin ih
          operations := settles_operationsWithin ih
          term := settles_termWithin ih
          operand := settles_operandWithin ih
          name := settles_nameWithin ih
          arguments := settles_expressionListWithin ih
          more := settles_moreExpressionsWithin ih }

theorem settled_expression : Settled expression :=
  settled_of_bound (by decide) (by decide) (settlesExpressions _).expression

theorem settled_term : Settled term :=
  settled_of_bound (by decide) (by decide) (settlesExpressions _).term

theorem settled_expressionList : Settled expressionList :=
  settled_of_bound (by decide) (by decide) (settlesExpressions _).arguments

end Compile
end Jack
