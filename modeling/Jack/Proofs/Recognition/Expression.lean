import Jack.Proofs.Scope

/-!
# What the routines for expressions accept

Whenever a routine for a construct succeeds, it has taken the tokens of a tree of
that construct, and it has written the marks and the code of this tree.  The names
of the tree could all be looked up.

The proof is by induction on the limit of the routines.
-/

namespace Jack
namespace Compile

open Syntax

/-!
# Names
-/

theorem yields_pushName {name : String} {c c' : Compiler}
    (h : (pushName name).run c = .ok () c') :
    (c.scope.entry name).isSome = true ∧ c.Yields [] (c.scope.nameCode name) 0 c' := by
  unfold pushName at h
  rcases run_bind_eq_ok_iff.mp h with ⟨found, d, hentry, h⟩
  rcases (Scope.asks_entry _ _ _ _).mp hentry with ⟨rfl, hfound⟩
  have hentry : d.scope.entry name = some found := hfound
  unfold Scope.nameCode Scope.valuePlace
  rw [hentry]
  cases found with
  | none =>
      cases h
      exact ⟨rfl, Compiler.Yields.refl _⟩
  | some e =>
      cases hsegment : e.standing.segment? with
      | none =>
          simp only [hsegment] at h
          cases h
          exact ⟨rfl, by simpa [hsegment] using Compiler.Yields.refl _⟩
      | some segment =>
          simp only [hsegment] at h
          exact ⟨rfl, by simpa [hsegment] using yields_emit h⟩

/-!
# Expressions
-/

/-- What the routines for expressions accept within a limit. -/
structure ReadsExpressions (n : Nat) : Prop where
  expression : forall {c c'}, (expressionWithin n).run c = .ok () c' ->
    exists e : Expr, e.Resolved c.scope ∧ c.Yields e.marks (e.code c.scope) 0 c'
  operations : forall {c c'}, (operationsWithin n).run c = .ok () c' ->
    exists rest : Operations,
      rest.Resolved c.scope ∧ c.Yields rest.parts (rest.code c.scope) 0 c'
  term : forall {c name c'}, (termWithin n).run c = .ok name c' ->
    exists t : Term, t.Resolved c.scope ∧ c.Yields t.marks (t.code c.scope) 0 c'
  operand : forall {c name c'}, (operandWithin n).run c = .ok name c' ->
    exists t : Term, t.Resolved c.scope ∧ c.Yields t.parts (t.code c.scope) 0 c'
  name : forall {c name c'}, (nameWithin n).run c = .ok name c' ->
    exists t : Term, t.Resolved c.scope ∧ c.Yields t.parts (t.code c.scope) 0 c'
  expressionList : forall {c count c'}, (expressionListWithin n).run c = .ok count c' ->
    exists arguments : Arguments, arguments.count = count ∧
      arguments.Resolved c.scope ∧ c.Yields arguments.marks (arguments.code c.scope) 0 c'
  moreExpressions : forall {c count c'}, (moreExpressionsWithin n).run c = .ok count c' ->
    exists arguments : Arguments, arguments.count = count ∧
      arguments.Resolved c.scope ∧
      c.Yields arguments.partsAfterFirst (arguments.code c.scope) 0 c'

theorem expressionWithin_reads {n : Nat} (ih : ReadsExpressions n) {c c' : Compiler}
    (h : (expressionWithin (n + 1)).run c = .ok () c') :
    exists e : Expr, e.Resolved c.scope ∧ c.Yields e.marks (e.code c.scope) 0 c' := by
  unfold expressionWithin at h
  rcases run_bind_eq_ok_iff.mp h with ⟨_, c1, henter, h⟩
  rcases run_bind_eq_ok_iff.mp h with ⟨_, c2, hterm, h⟩
  rcases run_bind_eq_ok_iff.mp h with ⟨_, c3, hrest, hleave⟩
  have hopening := (run_enter_eq_ok_iff.mp henter).2
  rcases ih.term hterm with ⟨t, htres, ht⟩
  rcases ih.operations hrest with ⟨rest, hrres, hr⟩
  have hclosing := (run_leave_eq_ok_iff.mp hleave).2
  rw [hopening.scope] at htres ht
  rw [ht.scope, hopening.scope] at hrres hr
  refine ⟨.mk t rest, ⟨htres, hrres⟩, ?_⟩
  simpa [Expr.marks, Expr.parts, Expr.code, Term.marks, Tree.enclose] using
    hopening.trans (ht.trans (hr.trans hclosing))

theorem run_operator (c : Compiler) :
    exists found, operator?.run c = .ok found c ∧
      forall sign instr, found = some (sign, instr) ->
        exists op : Binary, op.symbol = sign ∧ op.code = instr := by
  unfold operator?
  rw [run_bind_of_ok (run_current c)]
  split
  · next s hcurrent =>
      refine ⟨_, rfl, ?_⟩
      intro sign instr hfound
      rcases Option.map_eq_some_iff.mp hfound with ⟨code, hbinary, hpair⟩
      cases hpair
      exact Binary.exists_of_binary? hbinary
  · refine ⟨none, rfl, ?_⟩
    intro sign instr hfound
    cases hfound

theorem operationsWithin_reads {n : Nat} (ih : ReadsExpressions n) {c c' : Compiler}
    (h : (operationsWithin (n + 1)).run c = .ok () c') :
    exists rest : Operations,
      rest.Resolved c.scope ∧ c.Yields rest.parts (rest.code c.scope) 0 c' := by
  unfold operationsWithin at h
  rcases run_operator c with ⟨found, hoperator, hbinary⟩
  rw [run_bind_of_ok hoperator] at h
  cases found with
  | none =>
      cases h
      refine ⟨.nil, trivial, ?_⟩
      simpa [Operations.parts, Operations.code] using Compiler.Yields.refl c
  | some found =>
      rcases found with ⟨sign, instr⟩
      rcases hbinary sign instr rfl with ⟨op, hsign, hinstr⟩
      subst hsign hinstr
      rcases run_bind_eq_ok_iff.mp h with ⟨_, c2, hsymbol, h⟩
      rcases run_bind_eq_ok_iff.mp h with ⟨_, c3, hterm, h⟩
      rcases run_bind_eq_ok_iff.mp h with ⟨_, c4, hemit, hrest⟩
      have hleaf := (run_takeSymbol_eq_ok_iff.mp hsymbol).2
      have hinstr := yields_emit hemit
      rcases ih.term hterm with ⟨t, htres, ht⟩
      rcases ih.operations hrest with ⟨rest, hrres, hr⟩
      rw [hleaf.scope] at htres ht
      rw [hinstr.scope, ht.scope, hleaf.scope] at hrres hr
      refine ⟨.cons op t rest, ⟨htres, hrres⟩, ?_⟩
      simpa [Operations.parts, Operations.code, Term.marks] using
        hleaf.trans (ht.trans (hinstr.trans hr))

theorem termWithin_reads {n : Nat} (ih : ReadsExpressions n) {c c' : Compiler}
    {name : Option String} (h : (termWithin (n + 1)).run c = .ok name c') :
    exists t : Term, t.Resolved c.scope ∧ c.Yields t.marks (t.code c.scope) 0 c' := by
  unfold termWithin at h
  rcases run_bind_eq_ok_iff.mp h with ⟨_, c1, henter, h⟩
  rcases run_bind_eq_ok_iff.mp h with ⟨_, c2, hoperand, h⟩
  rcases run_bind_eq_ok_iff.mp h with ⟨_, c3, hleave, hpure⟩
  cases hpure
  have hopening := (run_enter_eq_ok_iff.mp henter).2
  have hclosing := (run_leave_eq_ok_iff.mp hleave).2
  rcases ih.operand hoperand with ⟨t, htres, ht⟩
  rw [hopening.scope] at htres ht
  refine ⟨t, htres, ?_⟩
  simpa [Term.marks, Tree.enclose] using hopening.trans (ht.trans hclosing)

/-- The case of an operand that begins with a symbol. -/
theorem operandWithin_reads_symbol {n : Nat} (ih : ReadsExpressions n) {c c' : Compiler}
    {name : Option String} {sign : Symbol}
    (h : (if sign = .leftParen then do
        takeSymbol .leftParen
        expressionWithin n
        takeSymbol .rightParen
        pure none
      else
        match unary? sign with
        | some instr => do
            takeSymbol sign
            let _ ← termWithin n
            emit instr
            pure none
        | none => nameWithin n : CompileM (Option String)).run c = .ok name c') :
    exists t : Term, t.Resolved c.scope ∧ c.Yields t.parts (t.code c.scope) 0 c' := by
  split at h
  · rcases run_bind_eq_ok_iff.mp h with ⟨_, c1, hleft, h⟩
    rcases run_bind_eq_ok_iff.mp h with ⟨_, c2, hinner, h⟩
    rcases run_bind_eq_ok_iff.mp h with ⟨_, c3, hright, hpure⟩
    cases hpure
    have hopening := (run_takeSymbol_eq_ok_iff.mp hleft).2
    have hclosing := (run_takeSymbol_eq_ok_iff.mp hright).2
    rcases ih.expression hinner with ⟨e, heres, he⟩
    rw [hopening.scope] at heres he
    refine ⟨.paren e, heres, ?_⟩
    simpa [Term.parts, Term.code, Expr.marks] using hopening.trans (he.trans hclosing)
  · cases hunary : unary? sign with
    | none =>
        rw [hunary] at h
        exact ih.name h
    | some instr =>
        rw [hunary] at h
        rcases Unary.exists_of_unary? hunary with ⟨op, hsign, hinstr⟩
        subst hsign hinstr
        rcases run_bind_eq_ok_iff.mp h with ⟨_, c1, hsymbol, h⟩
        rcases run_bind_eq_ok_iff.mp h with ⟨_, c2, hterm, h⟩
        rcases run_bind_eq_ok_iff.mp h with ⟨_, c3, hemit, hpure⟩
        cases hpure
        have hleaf := (run_takeSymbol_eq_ok_iff.mp hsymbol).2
        rcases ih.term hterm with ⟨t, htres, ht⟩
        rw [hleaf.scope] at htres ht
        refine ⟨.unary op t, htres, ?_⟩
        simpa [Term.parts, Term.code, Term.marks] using
          hleaf.trans (ht.trans (yields_emit hemit))

theorem operandWithin_reads {n : Nat} (ih : ReadsExpressions n) {c c' : Compiler}
    {name : Option String} (h : (operandWithin (n + 1)).run c = .ok name c') :
    exists t : Term, t.Resolved c.scope ∧ c.Yields t.parts (t.code c.scope) 0 c' := by
  unfold operandWithin at h
  rw [run_bind_of_ok (run_current c)] at h
  split at h
  · rcases run_bind_eq_ok_iff.mp h with ⟨value, c1, hinteger, h⟩
    rcases run_bind_eq_ok_iff.mp h with ⟨_, c2, hemit, hpure⟩
    cases hpure
    rcases run_takeInteger_eq_ok_iff.mp hinteger with ⟨digits, hvalue, _, hleaf⟩
    subst hvalue
    refine ⟨.integer digits, trivial, ?_⟩
    simpa [Term.parts, Term.code] using hleaf.trans (yields_emit hemit)
  · rcases run_bind_eq_ok_iff.mp h with ⟨_, c1, hstring, hpure⟩
    cases hpure
    rcases run_takeString_of_eq_ok hstring with ⟨text, _, hyields⟩
    exact ⟨.string text, trivial, by simpa [Term.parts, Term.code] using hyields⟩
  · next k _ =>
      cases hconstant : constant? k with
      | none =>
          rw [hconstant] at h
          exact ih.name h
      | some code =>
          rw [hconstant] at h
          rcases run_bind_eq_ok_iff.mp h with ⟨word, c1, hkeyword, h⟩
          rcases run_bind_eq_ok_iff.mp h with ⟨_, c2, hemit, hpure⟩
          cases hpure
          rcases run_takeKeyword_eq_ok_iff.mp hkeyword with ⟨hword, _, hleaf⟩
          rcases Constant.exists_of_constant? hconstant with ⟨value, hk, hcode⟩
          have hwordEq : word = k := by simpa using hword
          subst hwordEq hk hcode
          refine ⟨.constant value, trivial, ?_⟩
          simpa [Term.parts, Term.code] using hleaf.trans (yields_emitAll hemit)
  · exact operandWithin_reads_symbol ih h
  · exact ih.name h

/-!
What may follow a name: an index, or arguments between parentheses.
-/

theorem index_reads {n : Nat} (ih : ReadsExpressions n) {c c' : Compiler}
    {result found : Option String}
    (h : (do
        takeSymbol .leftBracket
        expressionWithin n
        emitAll [.operate .add, .pop (.pointer 1), .push (.that 0) none]
        takeSymbol .rightBracket
        pure result : CompileM (Option String)).run c = .ok found c') :
    exists e : Expr, e.Resolved c.scope ∧
      c.Yields
        (.leaf (.symbol .leftBracket) :: (e.marks ++ [.leaf (.symbol .rightBracket)]))
        (e.code c.scope ++ elementCode) 0 c' := by
  rcases run_bind_eq_ok_iff.mp h with ⟨_, c1, hleft, h⟩
  rcases run_bind_eq_ok_iff.mp h with ⟨_, c2, hindex, h⟩
  rcases run_bind_eq_ok_iff.mp h with ⟨_, c3, hemit, h⟩
  rcases run_bind_eq_ok_iff.mp h with ⟨_, c4, hright, hpure⟩
  cases hpure
  have hopening := (run_takeSymbol_eq_ok_iff.mp hleft).2
  have hclosing := (run_takeSymbol_eq_ok_iff.mp hright).2
  rcases ih.expression hindex with ⟨e, heres, he⟩
  rw [hopening.scope] at heres he
  refine ⟨e, heres, ?_⟩
  simpa [elementCode] using hopening.trans (he.trans ((yields_emitAll hemit).trans hclosing))

theorem arguments_reads {n : Nat} (ih : ReadsExpressions n) {c c' : Compiler}
    {result found : Option String} {call : Nat -> Instr}
    (h : (do
        takeSymbol .leftParen
        let count ← expressionListWithin n
        emit (call count)
        takeSymbol .rightParen
        pure result : CompileM (Option String)).run c = .ok found c') :
    exists arguments : Arguments, arguments.Resolved c.scope ∧
      c.Yields
        (.leaf (.symbol .leftParen) ::
          (arguments.marks ++ [.leaf (.symbol .rightParen)]))
        (arguments.code c.scope ++ [call arguments.count]) 0 c' := by
  rcases run_bind_eq_ok_iff.mp h with ⟨_, c1, hleft, h⟩
  rcases run_bind_eq_ok_iff.mp h with ⟨count, c2, hlist, h⟩
  rcases run_bind_eq_ok_iff.mp h with ⟨_, c3, hemit, h⟩
  rcases run_bind_eq_ok_iff.mp h with ⟨_, c4, hright, hpure⟩
  cases hpure
  have hopening := (run_takeSymbol_eq_ok_iff.mp hleft).2
  have hclosing := (run_takeSymbol_eq_ok_iff.mp hright).2
  rcases ih.expressionList hlist with ⟨arguments, hcount, hares, ha⟩
  subst hcount
  rw [hopening.scope] at hares ha
  refine ⟨arguments, hares, ?_⟩
  simpa using hopening.trans (ha.trans ((yields_emit hemit).trans hclosing))

/-- A subroutine that is called on a name. -/
theorem member_reads {n : Nat} (ih : ReadsExpressions n) {c c' : Compiler} {name : String}
    {found : Option String}
    (h : (do
        takeSymbol .dot
        let subroutine ← takeIdentifier
        let (target, extra) ← callTarget name subroutine
        takeSymbol .leftParen
        let arguments ← expressionListWithin n
        emit (.call (qualified target (some subroutine)) (arguments + extra))
        takeSymbol .rightParen
        pure target : CompileM (Option String)).run c = .ok found c') :
    exists subroutine arguments target, c.scope.target name subroutine = some target ∧
      Arguments.Resolved c.scope arguments ∧
      c.Yields
        (.leaf (.symbol .dot) :: .leaf (.identifier subroutine) :: .leaf (.symbol .leftParen) ::
          (arguments.marks ++ [.leaf (.symbol .rightParen)]))
        (arguments.code c.scope ++
          [.call (qualified target.1 (some subroutine)) (arguments.count + target.2)]) 0 c' := by
  rcases run_bind_eq_ok_iff.mp h with ⟨_, c1, hsymbol, h⟩
  rcases run_bind_eq_ok_iff.mp h with ⟨subroutine, c2, hsubroutine, h⟩
  rcases run_bind_eq_ok_iff.mp h with ⟨target, c3, htarget, hcall⟩
  have hdot := (run_takeSymbol_eq_ok_iff.mp hsymbol).2
  have hmember := (run_takeIdentifier_eq_ok_iff.mp hsubroutine).2
  rcases (Scope.asks_callTarget _ _ _ _ _).mp htarget with ⟨hc, hanswer⟩
  subst hc
  rcases arguments_reads ih hcall with ⟨arguments, hares, ha⟩
  have hfront := hdot.trans hmember
  rw [hfront.scope] at hanswer hares ha
  exact ⟨subroutine, arguments, target, hanswer, hares, by simpa using hfront.trans ha⟩

theorem nameWithin_reads {n : Nat} (ih : ReadsExpressions n) {c c' : Compiler}
    {found : Option String} (h : (nameWithin (n + 1)).run c = .ok found c') :
    exists t : Term, t.Resolved c.scope ∧ c.Yields t.parts (t.code c.scope) 0 c' := by
  unfold nameWithin at h
  rcases run_bind_eq_ok_iff.mp h with ⟨name, c1, hidentifier, h⟩
  rcases run_bind_eq_ok_iff.mp h with ⟨_, c2, hpush, h⟩
  have hleaf := (run_takeIdentifier_eq_ok_iff.mp hidentifier).2
  rcases yields_pushName hpush with ⟨hentry, hvalue⟩
  rw [hleaf.scope] at hentry hvalue
  have hhead := hleaf.trans hvalue
  rw [run_bind_of_ok (run_atSymbol _ _)] at h
  split at h
  · rcases index_reads ih h with ⟨e, heres, he⟩
    rw [hhead.scope] at heres he
    refine ⟨.element name e, ⟨hentry, heres⟩, ?_⟩
    simpa [Term.parts, Term.code, Expr.marks] using hhead.trans he
  · rw [run_bind_of_ok (run_atSymbol _ _)] at h
    split at h
    · rcases arguments_reads ih h with ⟨arguments, hares, ha⟩
      rw [hhead.scope] at hares ha
      refine ⟨.call name arguments, ⟨hentry, hares⟩, ?_⟩
      simpa [Term.parts, Term.code, Arguments.marks] using hhead.trans ha
    · rw [run_bind_of_ok (run_atSymbol _ _)] at h
      split at h
      · rcases member_reads ih h with ⟨subroutine, arguments, target, hfound, hares, ha⟩
        rw [hhead.scope] at hfound hares ha
        refine ⟨.callOn name subroutine arguments, ⟨hentry, by simp [hfound], hares⟩, ?_⟩
        simpa [Term.parts, Term.code, Arguments.marks, hfound] using hhead.trans ha
      · cases h
        refine ⟨.var name, hentry, ?_⟩
        simpa [Term.parts, Term.code] using hhead

theorem moreExpressionsWithin_reads {n : Nat} (ih : ReadsExpressions n) {c c' : Compiler}
    {count : Nat} (h : (moreExpressionsWithin (n + 1)).run c = .ok count c') :
    exists arguments : Arguments, arguments.count = count ∧
      arguments.Resolved c.scope ∧
      c.Yields arguments.partsAfterFirst (arguments.code c.scope) 0 c' := by
  unfold moreExpressionsWithin at h
  rw [run_bind_of_ok (run_atSymbol _ _)] at h
  split at h
  · rcases run_bind_eq_ok_iff.mp h with ⟨_, c1, hcomma, h⟩
    rcases run_bind_eq_ok_iff.mp h with ⟨_, c2, hexpression, h⟩
    rcases run_bind_eq_ok_iff.mp h with ⟨others, c3, hothers, hpure⟩
    cases hpure
    have hleaf := (run_takeSymbol_eq_ok_iff.mp hcomma).2
    rcases ih.expression hexpression with ⟨e, heres, he⟩
    rcases ih.moreExpressions hothers with ⟨rest, hcount, hrres, hr⟩
    rw [hleaf.scope] at heres he
    rw [he.scope, hleaf.scope] at hrres hr
    refine ⟨.cons e rest, by rw [Arguments.count, hcount], ⟨heres, hrres⟩, ?_⟩
    simpa [Arguments.partsAfterFirst, Arguments.code, Expr.marks] using
      hleaf.trans (he.trans hr)
  · cases h
    refine ⟨.nil, rfl, trivial, ?_⟩
    simpa [Arguments.partsAfterFirst, Arguments.code] using Compiler.Yields.refl c

theorem expressionListWithin_reads {n : Nat} (ih : ReadsExpressions n) {c c' : Compiler}
    {count : Nat} (h : (expressionListWithin (n + 1)).run c = .ok count c') :
    exists arguments : Arguments, arguments.count = count ∧
      arguments.Resolved c.scope ∧
      c.Yields arguments.marks (arguments.code c.scope) 0 c' := by
  unfold expressionListWithin at h
  rcases run_bind_eq_ok_iff.mp h with ⟨_, c1, henter, h⟩
  have hopening := (run_enter_eq_ok_iff.mp henter).2
  rw [run_bind_of_ok (run_atSymbol _ _)] at h
  simp only [pure_bind] at h
  split at h
  · next hparen =>
      rcases run_bind_eq_ok_iff.mp h with ⟨others, c2, hothers, h⟩
      rcases run_bind_eq_ok_iff.mp h with ⟨_, c3, hleave, hpure⟩
      cases hpure
      have hclosing := (run_leave_eq_ok_iff.mp hleave).2
      rcases ih.moreExpressions hothers with ⟨rest, hcount, _, hr⟩
      cases rest with
      | nil =>
          subst hcount
          refine ⟨.nil, rfl, trivial, ?_⟩
          simpa [Arguments.marks, Arguments.parts, Arguments.partsAfterFirst,
            Arguments.code, Tree.enclose] using hopening.trans (hr.trans hclosing)
      | cons e rest =>
          -- At the closing parenthesis there is no comma.
          have hcomma := current_of_yields_leaf hr
          rw [of_decide_eq_true hparen] at hcomma
          cases hcomma
  · rcases run_bind_eq_ok_iff.mp h with ⟨_, c2, hexpression, h⟩
    rcases run_bind_eq_ok_iff.mp h with ⟨others, c3, hothers, h⟩
    rcases run_bind_eq_ok_iff.mp h with ⟨_, c4, hleave, hpure⟩
    cases hpure
    have hclosing := (run_leave_eq_ok_iff.mp hleave).2
    rcases ih.expression hexpression with ⟨e, heres, he⟩
    rcases ih.moreExpressions hothers with ⟨rest, hcount, hrres, hr⟩
    rw [hopening.scope] at heres he
    rw [he.scope, hopening.scope] at hrres hr
    refine ⟨.cons e rest, by rw [Arguments.count, hcount, Nat.add_comm],
      ⟨heres, hrres⟩, ?_⟩
    simpa [Arguments.marks, Arguments.parts, Arguments.code, Expr.marks, Tree.enclose] using
      hopening.trans (he.trans (hr.trans hclosing))

theorem readsExpressions (n : Nat) : ReadsExpressions n := by
  induction n with
  | zero =>
      constructor
      all_goals
        intros
        next h => cases h
  | succ n ih =>
      exact
        { expression := expressionWithin_reads ih
          operations := operationsWithin_reads ih
          term := termWithin_reads ih
          operand := operandWithin_reads ih
          name := nameWithin_reads ih
          expressionList := expressionListWithin_reads ih
          moreExpressions := moreExpressionsWithin_reads ih }

theorem run_bound (c : Compiler) :
    bound.run c = .ok (4 * (c.scanner.rest.length + 4)) c := rfl

theorem expression_reads {c c' : Compiler} (h : expression.run c = .ok () c') :
    exists e : Expr, e.Resolved c.scope ∧ c.Yields e.marks (e.code c.scope) 0 c' := by
  unfold expression at h
  rw [run_bind_of_ok (run_bound c)] at h
  exact (readsExpressions _).expression h

theorem expressionList_reads {c c' : Compiler} {count : Nat}
    (h : expressionList.run c = .ok count c') :
    exists arguments : Arguments, arguments.count = count ∧
      arguments.Resolved c.scope ∧
      c.Yields arguments.marks (arguments.code c.scope) 0 c' := by
  unfold expressionList at h
  rw [run_bind_of_ok (run_bound c)] at h
  exact (readsExpressions _).expressionList h

end Compile
end Jack
