import Jack.Proofs.Acceptance.Steps

/-!
# Expressions are accepted

The routines for expressions accept every tree whose names can be looked up, if the
token behind the tree does not go on with it, and if the limit is high enough.  Four
steps for each token are enough.
-/

namespace Jack
namespace Compile

open Syntax

/-!
# What stands behind
-/

/-- No index, no arguments and no subroutine follow on a name. -/
def EndsName (follow : List Token) : Prop :=
  follow.head? ≠ some (.symbol .leftBracket) ∧ follow.head? ≠ some (.symbol .leftParen) ∧
    follow.head? ≠ some (.symbol .dot)

/-- Moreover no operator follows. -/
def EndsExpression (follow : List Token) : Prop :=
  EndsName follow ∧ forall sign, follow.head? = some (.symbol sign) -> binary? sign = none

theorem endsName_binary (op : Binary) (rest : List Token) :
    EndsName (.symbol op.symbol :: rest) := by
  unfold EndsName
  cases op <;> simp [Binary.symbol]

theorem endsName_operations {follow : List Token} (rest : Operations)
    (h : EndsExpression follow) : EndsName (rest.tokens ++ follow) := by
  cases rest with
  | nil => exact h.1
  | cons op operand rest => exact endsName_binary op _

theorem endsExpression_symbol {sign : Symbol} (rest : List Token)
    (h : sign ∈ [.rightParen, .rightBracket, .semicolon, .comma]) :
    EndsExpression (.symbol sign :: rest) := by
  simp only [List.mem_cons, List.not_mem_nil, or_false] at h
  rcases h with rfl | rfl | rfl | rfl
  all_goals
    refine ⟨by simp [EndsName], ?_⟩
    intro found hfound
    cases hfound
    rfl

theorem endsExpression_arguments {follow : List Token} (rest : Arguments)
    (h : follow.head? = some (.symbol .rightParen)) :
    EndsExpression (rest.tokensAfterFirst ++ follow) := by
  cases rest with
  | nil =>
      cases follow with
      | nil => cases h
      | cons token follow =>
          cases h
          exact endsExpression_symbol _ (by decide)
  | cons first rest => exact endsExpression_symbol _ (by decide)

/-- A term has at least one token, and it is neither a closing parenthesis nor a
semicolon. -/
theorem head_term (t : Term) (follow : List Token) :
    (t.tokens ++ follow).head? ≠ some (.symbol .rightParen) ∧
      (t.tokens ++ follow).head? ≠ some (.symbol .semicolon) ∧ 0 < t.tokens.length := by
  cases t with
  | unary op operand => cases op <;> simp [Term.tokens, Unary.symbol]
  | _ => simp [Term.tokens]

theorem head_expr (e : Expr) (follow : List Token) :
    (e.tokens ++ follow).head? ≠ some (.symbol .rightParen) ∧
      (e.tokens ++ follow).head? ≠ some (.symbol .semicolon) ∧ 0 < e.tokens.length := by
  cases e with
  | mk first rest =>
      have hfirst := head_term first (rest.tokens ++ follow)
      rw [Expr.tokens, List.append_assoc, List.length_append]
      exact ⟨hfirst.1, hfirst.2.1, by omega⟩

section

variable {σ : Scope} {label : Nat} {follow : List Token} {n : Nat}

/-!
# Operations
-/

theorem accepts_operator_none (h : EndsExpression follow) :
    Accepts σ label operator? none [] [] 0 follow := by
  unfold operator?
  refine Accepts.look accepts_current ?_
  split
  · next sign hhead =>
      rw [h.2 sign hhead]
      exact accepts_pure none
  · exact accepts_pure none

theorem accepts_operator_some (op : Binary) (rest : List Token) :
    Accepts σ label operator? (some (op.symbol, op.code)) [] [] 0
      (.symbol op.symbol :: rest) := by
  unfold operator?
  refine Accepts.look accepts_current ?_
  simp only [Tree.leaves, List.nil_append, List.head?_cons, op.binary?_symbol]
  exact accepts_pure _

theorem accepts_operations_nil (h : EndsExpression follow) :
    Accepts σ label (operationsWithin (n + 1)) () Operations.nil.parts
      (Operations.nil.code σ) 0 follow := by
  unfold operationsWithin
  exact Accepts.look (accepts_operator_none h) (accepts_pure ())

theorem accepts_operations_cons {op : Binary} {operand : Term} {rest : Operations}
    {name : Option String}
    (hoperand : Accepts σ label (termWithin n) name operand.marks (operand.code σ) 0
      (rest.tokens ++ follow))
    (hrest : Accepts σ label (operationsWithin n) () rest.parts (rest.code σ) 0 follow) :
    Accepts σ label (operationsWithin (n + 1)) () (Operations.cons op operand rest).parts
      ((Operations.cons op operand rest).code σ) 0 follow := by
  unfold operationsWithin
  rw [Operations.parts, Operations.code]
  refine Accepts.look (accepts_operator_some op _) ?_
  refine Accepts.mark (accepts_takeSymbol op.symbol) ?_
  refine Accepts.part hoperand ?_ (by simp)
  exact Accepts.write (accepts_emit op.code) hrest

/-!
# Names
-/

theorem accepts_pushName {name : String} (h : (σ.entry name).isSome = true) :
    Accepts σ label (pushName name) () [] (σ.nameCode name) 0 follow := by
  rcases Option.isSome_iff_exists.mp h with ⟨found, hfound⟩
  unfold pushName Scope.nameCode Scope.valuePlace
  apply Accepts.look (accepts_answer (Scope.asks_entry _) hfound)
  rw [hfound]
  cases found with
  | none => exact accepts_pure ()
  | some e =>
      cases hsegment : e.standing.segment? with
      | none =>
          simp only [hsegment]
          simpa [hsegment] using accepts_pure ()
      | some segment =>
          simp only [hsegment]
          simpa [hsegment] using accepts_emit _

theorem accepts_var {name : String} (hname : (σ.entry name).isSome = true)
    (hfollow : EndsName follow) :
    Accepts σ label (nameWithin (n + 1)) (some name) (Term.var name).parts
      ((Term.var name).code σ) 0 follow := by
  unfold nameWithin
  rw [Term.parts, Term.code, ← List.append_nil (σ.nameCode name)]
  apply Accepts.mark (accepts_takeIdentifier name)
  apply Accepts.write (accepts_pushName hname)
  refine Accepts.look (accepts_atSymbol_false hfollow.1) ?_
  refine Accepts.look (accepts_atSymbol_false hfollow.2.1) ?_
  refine Accepts.look (accepts_atSymbol_false hfollow.2.2) ?_
  exact accepts_pure (some name)

theorem accepts_element {name : String} {index : Expr} (hname : (σ.entry name).isSome = true)
    (hindex : Accepts σ label (expressionWithin n) () index.marks (index.code σ) 0
      (.symbol .rightBracket :: follow)) :
    Accepts σ label (nameWithin (n + 1)) (some name) (Term.element name index).parts
      ((Term.element name index).code σ) 0 follow := by
  unfold nameWithin
  rw [Term.parts, Term.code, ← List.append_nil elementCode]
  apply Accepts.mark (accepts_takeIdentifier name)
  apply Accepts.write (accepts_pushName hname)
  apply Accepts.look (accepts_atSymbol_true rfl)
  apply Accepts.mark (accepts_takeSymbol .leftBracket)
  refine Accepts.part hindex ?_ rfl
  apply Accepts.write (accepts_emitAll elementCode)
  exact (accepts_takeSymbol .rightBracket).result _

theorem accepts_call {name : String} {arguments : Arguments}
    (hname : (σ.entry name).isSome = true)
    (harguments : Accepts σ label (expressionListWithin n) arguments.count arguments.marks
      (arguments.code σ) 0 (.symbol .rightParen :: follow)) :
    Accepts σ label (nameWithin (n + 1)) (some name) (Term.call name arguments).parts
      ((Term.call name arguments).code σ) 0 follow := by
  unfold nameWithin
  rw [Term.parts, Term.code]
  apply Accepts.mark (accepts_takeIdentifier name)
  apply Accepts.write (accepts_pushName hname)
  apply Accepts.look (accepts_atSymbol_false (by simp [Tree.leaves]))
  apply Accepts.look (accepts_atSymbol_true rfl)
  apply Accepts.mark (accepts_takeSymbol .leftParen)
  refine Accepts.part harguments ?_ rfl
  apply Accepts.write (accepts_emit _)
  exact (accepts_takeSymbol .rightParen).result _

theorem accepts_callOn {owner name : String} {arguments : Arguments}
    {target : Option String × Nat} (howner : (σ.entry owner).isSome = true)
    (htarget : σ.target owner name = some target)
    (harguments : Accepts σ label (expressionListWithin n) arguments.count arguments.marks
      (arguments.code σ) 0 (.symbol .rightParen :: follow)) :
    Accepts σ label (nameWithin (n + 1)) target.1 (Term.callOn owner name arguments).parts
      ((Term.callOn owner name arguments).code σ) 0 follow := by
  unfold nameWithin
  rw [Term.parts, Term.code, htarget]
  apply Accepts.mark (accepts_takeIdentifier owner)
  apply Accepts.write (accepts_pushName howner)
  apply Accepts.look (accepts_atSymbol_false (by simp [Tree.leaves]))
  apply Accepts.look (accepts_atSymbol_false (by simp [Tree.leaves]))
  apply Accepts.look (accepts_atSymbol_true rfl)
  apply Accepts.mark (accepts_takeSymbol .dot)
  apply Accepts.mark (accepts_takeIdentifier name)
  apply Accepts.look (accepts_answer (Scope.asks_callTarget owner name) htarget)
  apply Accepts.mark (accepts_takeSymbol .leftParen)
  refine Accepts.part harguments ?_ rfl
  apply Accepts.write (accepts_emit _)
  exact (accepts_takeSymbol .rightParen).result _

/-!
# Terms
-/

theorem accepts_term {t : Term} {name : Option String}
    (hoperand : Accepts σ label (operandWithin n) name t.parts (t.code σ) 0 follow) :
    Accepts σ label (termWithin (n + 1)) name t.marks (t.code σ) 0 follow := by
  unfold termWithin
  rw [Term.marks, Tree.enclose, ← List.append_nil (t.code σ)]
  apply Accepts.mark (accepts_enter .term)
  refine Accepts.part hoperand ?_ rfl
  exact (accepts_leave .term).result _

theorem accepts_integer (digits : String) :
    Accepts σ label (operandWithin (n + 1)) none (Term.integer digits).parts
      ((Term.integer digits).code σ) 0 follow := by
  unfold operandWithin
  rw [Term.parts, Term.code]
  apply Accepts.look accepts_current
  apply Accepts.mark (accepts_takeInteger digits)
  exact (accepts_emit _).result _

theorem accepts_takeString (text : String) :
    Accepts σ label takeString (Text.escape text) [.leaf (.string text)]
      (stringCode (Text.escape text)) 0 follow := by
  unfold takeString
  rw [← List.append_nil (stringCode _)]
  apply Accepts.look accepts_current
  apply Accepts.write (accepts_emitAll _)
  exact (accepts_take (.string text)).result _

theorem accepts_string (text : String) :
    Accepts σ label (operandWithin (n + 1)) none (Term.string text).parts
      ((Term.string text).code σ) 0 follow := by
  unfold operandWithin
  rw [Term.parts, Term.code]
  apply Accepts.look accepts_current
  exact (accepts_takeString text).result _

theorem accepts_constant (value : Constant) :
    Accepts σ label (operandWithin (n + 1)) none (Term.constant value).parts
      ((Term.constant value).code σ) 0 follow := by
  unfold operandWithin
  rw [Term.parts, Term.code]
  apply Accepts.look accepts_current
  simp only [Tree.leaves, List.cons_append, List.head?_cons, value.constant?_keyword]
  apply Accepts.mark (accepts_takeKeyword List.mem_cons_self)
  exact (accepts_emitAll _).result _

theorem accepts_paren {inner : Expr}
    (hinner : Accepts σ label (expressionWithin n) () inner.marks (inner.code σ) 0
      (.symbol .rightParen :: follow)) :
    Accepts σ label (operandWithin (n + 1)) none (Term.paren inner).parts
      ((Term.paren inner).code σ) 0 follow := by
  unfold operandWithin
  rw [Term.parts, Term.code, ← List.append_nil (inner.code σ)]
  apply Accepts.look accepts_current
  apply Accepts.mark (accepts_takeSymbol .leftParen)
  refine Accepts.part hinner ?_ rfl
  exact (accepts_takeSymbol .rightParen).result _

theorem accepts_unary {op : Unary} {operand : Term} {name : Option String}
    (hoperand : Accepts σ label (termWithin n) name operand.marks (operand.code σ) 0 follow) :
    Accepts σ label (operandWithin (n + 1)) none (Term.unary op operand).parts
      ((Term.unary op operand).code σ) 0 follow := by
  have hparen : op.symbol ≠ .leftParen := by cases op <;> decide
  unfold operandWithin
  rw [Term.parts, Term.code, ← List.append_nil (Tree.enclose _ _)]
  apply Accepts.look accepts_current
  simp only [Tree.leaves, List.cons_append, List.head?_cons, if_neg hparen, op.unary?_symbol]
  apply Accepts.mark (accepts_takeSymbol op.symbol)
  refine Accepts.part hoperand ?_ rfl
  exact (accepts_emit op.code).result _

/-- A term that begins with a name is read as one. -/
theorem accepts_named {name : String} {result : Option String} {marks : List Tree.Mark}
    {code : List Instr}
    (h : Accepts σ label (nameWithin n) result (.leaf (.identifier name) :: marks) code 0 follow) :
    Accepts σ label (operandWithin (n + 1)) result (.leaf (.identifier name) :: marks) code 0
      follow := by
  unfold operandWithin
  apply Accepts.look accepts_current
  exact h

/-!
# Lists of expressions
-/

theorem accepts_moreExpressions_nil (h : follow.head? = some (.symbol .rightParen)) :
    Accepts σ label (moreExpressionsWithin (n + 1)) Arguments.nil.count
      Arguments.nil.partsAfterFirst (Arguments.nil.code σ) 0 follow := by
  have hcomma : follow.head? ≠ some (.symbol .comma) := by simp [h]
  unfold moreExpressionsWithin
  refine Accepts.look (accepts_atSymbol_false hcomma) ?_
  exact accepts_pure 0

theorem accepts_moreExpressions_cons {first : Expr} {rest : Arguments}
    (hfirst : Accepts σ label (expressionWithin n) () first.marks (first.code σ) 0
      (rest.tokensAfterFirst ++ follow))
    (hrest : Accepts σ label (moreExpressionsWithin n) rest.count rest.partsAfterFirst
      (rest.code σ) 0 follow) :
    Accepts σ label (moreExpressionsWithin (n + 1)) (Arguments.cons first rest).count
      (Arguments.cons first rest).partsAfterFirst ((Arguments.cons first rest).code σ) 0
      follow := by
  unfold moreExpressionsWithin
  rw [Arguments.partsAfterFirst, Arguments.code]
  apply Accepts.look (accepts_atSymbol_true rfl)
  apply Accepts.mark (accepts_takeSymbol .comma)
  refine Accepts.part hfirst ?_ (by simp)
  exact hrest.result _

theorem accepts_expressionList_nil
    (hmore : Accepts σ label (moreExpressionsWithin n) Arguments.nil.count
      Arguments.nil.partsAfterFirst (Arguments.nil.code σ) 0 follow)
    (h : follow.head? = some (.symbol .rightParen)) :
    Accepts σ label (expressionListWithin (n + 1)) Arguments.nil.count Arguments.nil.marks
      (Arguments.nil.code σ) 0 follow := by
  unfold expressionListWithin
  simp only [pure_bind]
  rw [Arguments.marks, Tree.enclose]
  apply Accepts.mark (accepts_enter .expressionList)
  refine Accepts.look (accepts_atSymbol_true h) ?_
  refine Accepts.part hmore ?_ rfl
  exact (accepts_leave .expressionList).result _

theorem accepts_expressionList_cons {first : Expr} {rest : Arguments}
    (hfirst : Accepts σ label (expressionWithin n) () first.marks (first.code σ) 0
      (rest.tokensAfterFirst ++ follow))
    (hrest : Accepts σ label (moreExpressionsWithin n) rest.count rest.partsAfterFirst
      (rest.code σ) 0 follow) :
    Accepts σ label (expressionListWithin (n + 1)) (Arguments.cons first rest).count
      (Arguments.cons first rest).marks ((Arguments.cons first rest).code σ) 0 follow := by
  unfold expressionListWithin
  simp only [pure_bind]
  have hcount : (Arguments.cons first rest).count = 1 + rest.count := Nat.add_comm _ _
  rw [Arguments.marks, Tree.enclose, Arguments.parts, Arguments.code, hcount,
    List.append_assoc, ← List.append_nil (rest.code σ)]
  apply Accepts.mark (accepts_enter .expressionList)
  refine Accepts.look (accepts_atSymbol_false ?_) ?_
  · simpa [Tree.leaves] using (head_expr first (rest.tokensAfterFirst ++ follow)).1
  refine Accepts.part hfirst ?_ (by simp [Tree.leaves])
  refine Accepts.part hrest ?_ rfl
  exact (accepts_leave .expressionList).result _

/-!
# Expressions
-/

theorem accepts_expr {first : Term} {rest : Operations} {name : Option String}
    (hfirst : Accepts σ label (termWithin n) name first.marks (first.code σ) 0
      (rest.tokens ++ follow))
    (hrest : Accepts σ label (operationsWithin n) () rest.parts (rest.code σ) 0 follow) :
    Accepts σ label (expressionWithin (n + 1)) () (Expr.mk first rest).marks
      ((Expr.mk first rest).code σ) 0 follow := by
  unfold expressionWithin
  rw [Expr.marks, Tree.enclose, Expr.parts, Expr.code, List.append_assoc,
    ← List.append_nil (rest.code σ)]
  apply Accepts.mark (accepts_enter .expression)
  refine Accepts.part hfirst ?_ (by simp [Tree.leaves])
  refine Accepts.part hrest ?_ rfl
  exact accepts_leave .expression

end

/-!
The limits are measured in tokens.  The induction is on the tree.
-/

mutual

theorem Expr.accepted {σ : Scope} {label n : Nat} {follow : List Token} :
    forall e : Expr, 4 * e.tokens.length ≤ n -> e.Resolved σ -> EndsExpression follow ->
      Accepts σ label (expressionWithin n) () e.marks (e.code σ) 0 follow
  | .mk first rest, hn, hresolved, hfollow => by
      have hpositive := (head_term first []).2.2
      rw [Expr.tokens, List.length_append] at hn
      rcases Nat.exists_eq_add_of_le' (show 1 ≤ n by omega) with ⟨m, rfl⟩
      have hfirst : 4 * first.tokens.length ≤ m + 1 := by omega
      have hrest : 4 * rest.tokens.length + 1 ≤ m := by omega
      rcases Term.accepted first hfirst hresolved.1 (endsName_operations rest hfollow)
        with ⟨name, hterm⟩
      exact accepts_expr hterm (Operations.accepted rest hrest hresolved.2 hfollow)

theorem Operations.accepted {σ : Scope} {label n : Nat} {follow : List Token} :
    forall rest : Operations, 4 * rest.tokens.length + 1 ≤ n -> rest.Resolved σ ->
      EndsExpression follow ->
      Accepts σ label (operationsWithin n) () rest.parts (rest.code σ) 0 follow
  | .nil, hn, _, hfollow => by
      rcases Nat.exists_eq_add_of_le' (show 1 ≤ n by omega) with ⟨m, rfl⟩
      exact accepts_operations_nil hfollow
  | .cons op operand rest, hn, hresolved, hfollow => by
      rw [Operations.tokens, List.length_cons, List.length_append] at hn
      rcases Nat.exists_eq_add_of_le' (show 1 ≤ n by omega) with ⟨m, rfl⟩
      have hoperand : 4 * operand.tokens.length ≤ m + 1 := by omega
      have hrest : 4 * rest.tokens.length + 1 ≤ m := by omega
      rcases Term.accepted operand hoperand hresolved.1 (endsName_operations rest hfollow)
        with ⟨name, hterm⟩
      exact accepts_operations_cons hterm (Operations.accepted rest hrest hresolved.2 hfollow)

theorem Term.accepted {σ : Scope} {label n : Nat} {follow : List Token} :
    forall t : Term, 4 * t.tokens.length ≤ n + 1 -> t.Resolved σ -> EndsName follow ->
      exists name, Accepts σ label (termWithin n) name t.marks (t.code σ) 0 follow
  | t, hn, hresolved, hfollow => by
      have hpositive := (head_term t []).2.2
      rcases Nat.exists_eq_add_of_le' (show 3 ≤ n by omega) with ⟨m, rfl⟩
      cases t with
      | integer digits => exact ⟨none, accepts_term (accepts_integer digits)⟩
      | string text => exact ⟨none, accepts_term (accepts_string text)⟩
      | constant value => exact ⟨none, accepts_term (accepts_constant value)⟩
      | paren inner =>
          have hinner : 4 * inner.tokens.length ≤ m + 1 := by
            simp only [Term.tokens, List.length_cons, List.length_append] at hn
            omega
          exact ⟨none, accepts_term (accepts_paren (Expr.accepted inner hinner hresolved
            (endsExpression_symbol _ (by decide))))⟩
      | unary op operand =>
          have hoperand : 4 * operand.tokens.length ≤ m + 1 + 1 := by
            simp only [Term.tokens, List.length_cons] at hn
            omega
          rcases Term.accepted operand hoperand hresolved hfollow with ⟨name, hterm⟩
          exact ⟨none, accepts_term (accepts_unary hterm)⟩
      | var name => exact ⟨some name, accepts_term (accepts_named (accepts_var hresolved hfollow))⟩
      | element name index =>
          have hindex : 4 * index.tokens.length ≤ m := by
            simp only [Term.tokens, List.length_cons, List.length_append] at hn
            omega
          exact ⟨some name, accepts_term (accepts_named (accepts_element hresolved.1
            (Expr.accepted index hindex hresolved.2 (endsExpression_symbol _ (by decide)))))⟩
      | call name arguments =>
          have harguments : 4 * arguments.tokens.length + 2 ≤ m := by
            simp only [Term.tokens, List.length_cons, List.length_append] at hn
            omega
          exact ⟨some name, accepts_term (accepts_named (accepts_call hresolved.1
            (Arguments.accepted arguments harguments hresolved.2 rfl)))⟩
      | callOn owner name arguments =>
          have harguments : 4 * arguments.tokens.length + 2 ≤ m := by
            simp only [Term.tokens, List.length_cons, List.length_append] at hn
            omega
          rcases Option.isSome_iff_exists.mp hresolved.2.1 with ⟨target, htarget⟩
          exact ⟨target.1, accepts_term (accepts_named (accepts_callOn hresolved.1 htarget
            (Arguments.accepted arguments harguments hresolved.2.2 rfl)))⟩

theorem Arguments.accepted {σ : Scope} {label n : Nat} {follow : List Token} :
    forall arguments : Arguments, 4 * arguments.tokens.length + 2 ≤ n ->
      arguments.Resolved σ -> follow.head? = some (.symbol .rightParen) ->
      Accepts σ label (expressionListWithin n) arguments.count arguments.marks
        (arguments.code σ) 0 follow
  | .nil, hn, _, hfollow => by
      rcases Nat.exists_eq_add_of_le' (show 2 ≤ n by omega) with ⟨m, rfl⟩
      exact accepts_expressionList_nil (accepts_moreExpressions_nil hfollow) hfollow
  | .cons first rest, hn, hresolved, hfollow => by
      rw [Arguments.tokens, List.length_append] at hn
      rcases Nat.exists_eq_add_of_le' (show 1 ≤ n by omega) with ⟨m, rfl⟩
      have hfirst : 4 * first.tokens.length ≤ m := by omega
      have hrest : 4 * rest.tokensAfterFirst.length + 1 ≤ m := by omega
      exact accepts_expressionList_cons
        (Expr.accepted first hfirst hresolved.1 (endsExpression_arguments rest hfollow))
        (Arguments.accepted_afterFirst rest hrest hresolved.2 hfollow)

theorem Arguments.accepted_afterFirst {σ : Scope} {label n : Nat} {follow : List Token} :
    forall arguments : Arguments, 4 * arguments.tokensAfterFirst.length + 1 ≤ n ->
      arguments.Resolved σ -> follow.head? = some (.symbol .rightParen) ->
      Accepts σ label (moreExpressionsWithin n) arguments.count arguments.partsAfterFirst
        (arguments.code σ) 0 follow
  | .nil, hn, _, hfollow => by
      rcases Nat.exists_eq_add_of_le' (show 1 ≤ n by omega) with ⟨m, rfl⟩
      exact accepts_moreExpressions_nil hfollow
  | .cons first rest, hn, hresolved, hfollow => by
      rw [Arguments.tokensAfterFirst, List.length_cons, List.length_append] at hn
      rcases Nat.exists_eq_add_of_le' (show 1 ≤ n by omega) with ⟨m, rfl⟩
      have hfirst : 4 * first.tokens.length ≤ m := by omega
      have hrest : 4 * rest.tokensAfterFirst.length + 1 ≤ m := by omega
      exact accepts_moreExpressions_cons
        (Expr.accepted first hfirst hresolved.1 (endsExpression_arguments rest hfollow))
        (Arguments.accepted_afterFirst rest hrest hresolved.2 hfollow)

end

/-!
The limit of the public routines covers all tokens that stand ahead.
-/

theorem accepts_within_bound {σ : Scope} {label : Nat} {follow : List Token}
    {step : Nat -> CompileM α} {a : α} {marks : List Tree.Mark} {code : List Instr}
    {labels : Nat}
    (h : forall n, 4 * (Tree.leaves marks).length + 2 ≤ n ->
      Accepts σ label (step n) a marks code labels follow) :
    Accepts σ label (do step (← bound)) a marks code labels follow := by
  intro hfollow c hready
  have hlength := hready.shows.length_le
  rw [List.length_append] at hlength
  rcases h (4 * (c.scanner.rest.length + 4)) (by omega) hfollow c hready
    with ⟨c', hrun, hyields⟩
  refine ⟨c', ?_, hyields⟩
  rw [run_bind_of_ok (run_bound c)]
  exact hrun

theorem accepts_expression {σ : Scope} {label : Nat} {follow : List Token} {e : Expr}
    (hresolved : e.Resolved σ) (hfollow : EndsExpression follow) :
    Accepts σ label expression () e.marks (e.code σ) 0 follow := by
  apply accepts_within_bound
  intro n hn
  rw [Expr.marks, Tree.leaves_enclose, Expr.leaves_parts] at hn
  exact Expr.accepted e (by omega) hresolved hfollow

theorem accepts_expressionList {σ : Scope} {label : Nat} {follow : List Token}
    {arguments : Arguments} (hresolved : arguments.Resolved σ)
    (hfollow : follow.head? = some (.symbol .rightParen)) :
    Accepts σ label expressionList arguments.count arguments.marks (arguments.code σ) 0
      follow := by
  apply accepts_within_bound
  intro n hn
  rw [Arguments.marks, Tree.leaves_enclose, Arguments.leaves_parts] at hn
  exact Arguments.accepted arguments hn hresolved hfollow

end Compile
end Jack
