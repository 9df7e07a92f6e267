import Jack.Proofs.Acceptance.Expression

/-!
# Statements are accepted

The routines for statements accept every tree whose names can be looked up.  A block
ends at the first token that begins no statement.
-/

namespace Jack
namespace Compile

open Syntax

/-!
# What stands behind
-/

/-- No statement follows, and no other branch of the last one. -/
def EndsBlock (follow : List Token) : Prop :=
  forall word, follow.head? = some (.keyword word) ->
    word ∉ [.«let», .«if», .«while», .«do», .«return», .«else»]

theorem endsBlock_symbol (sign : Symbol) (rest : List Token) :
    EndsBlock (.symbol sign :: rest) := by
  intro word h
  cases h

theorem head_statement (s : Statement) (follow : List Token) :
    (s.tokens ++ follow).head? ≠ some (.keyword .«else») ∧ 0 < s.tokens.length := by
  cases s <;> simp [Statement.tokens]

theorem endsIf_block {follow : List Token} (block : Block) (h : EndsBlock follow) :
    (block.tokens ++ follow).head? ≠ some (.keyword .«else») := by
  cases block with
  | nil =>
      intro helse
      exact h _ helse (by decide)
  | cons first rest =>
      rw [Block.tokens, List.append_assoc]
      exact (head_statement first _).1

section

variable {σ : Scope} {label : Nat} {follow : List Token} {n : Nat}

/-!
# Steps with labels
-/

theorem Accepts.draw {second : Nat -> CompileM β} {b : β} {marks : List Tree.Mark}
    {code : List Instr} {labels : Nat}
    (hsecond : Accepts σ (label + 1) (second label) b marks code labels follow) :
    Accepts σ label (drawLabel >>= second) b marks code (labels + 1) follow := by
  have h := accepts_drawLabel.bind hsecond
  rwa [Nat.add_comm 1] at h

/-- The first step reads a construct that may draw labels. -/
theorem Accepts.block {first : CompileM α} {second : α -> CompileM β} {a : α} {b : β}
    {marks marks' : List Tree.Mark} {code code' : List Instr} {labels labels' : Nat}
    {behind : List Token} (hfirst : Accepts σ label first a marks code labels behind)
    (hsecond : Accepts σ (label + labels) (second a) b marks' code' labels' follow)
    (hbehind : behind = Tree.leaves marks' ++ follow) :
    Accepts σ label (first >>= second) b (marks ++ marks') (code ++ code')
      (labels + labels') follow := by
  subst hbehind
  exact hfirst.bind hsecond

/-!
# Simple statements
-/

theorem accepts_placeOf {target : Option Entry} {place : Place}
    (h : target.map Entry.place = some place) :
    Accepts σ label (placeOf target) place [] [] 0 follow := by
  intro _ c _
  exact ⟨c, run_placeOf_eq_ok_iff.mpr ⟨rfl, h⟩, Compiler.Yields.refl c⟩

/-- A name that can be assigned to has an entry with a place. -/
theorem exists_entry_of_targetPlace {name : String}
    (h : (σ.targetPlace name).isSome = true) :
    exists e place, σ.answer ( entry? (some name)) = some e ∧
      e.map Entry.place = some place ∧ σ.targetPlace name = some place := by
  rcases Option.isSome_iff_exists.mp h with ⟨place, hplace⟩
  unfold Scope.targetPlace Scope.entry at hplace ⊢
  cases hanswer : σ.answer ( entry? (some name)) with
  | none =>
      rw [hanswer] at hplace
      cases hplace
  | some e =>
      rw [hanswer] at hplace
      exact ⟨e, place, rfl, hplace, hplace⟩

theorem accepts_assign {name : String} {value : Expr}
    (hresolved : (Statement.assign name value).Resolved σ) :
    Accepts σ label letStatement () (Statement.assign name value).marks
      ((Statement.assign name value).code σ label) 0 follow := by
  rcases exists_entry_of_targetPlace hresolved.1 with ⟨e, place, hentry, hplace, htarget⟩
  unfold letStatement
  rw [Statement.marks, Tree.enclose, Statement.code, htarget]
  simp only [List.cons_append, List.append_assoc, List.nil_append]
  apply Accepts.mark (accepts_enter .letStatement)
  apply Accepts.mark (accepts_takeKeyword List.mem_cons_self)
  apply Accepts.mark (accepts_takeIdentifier name)
  apply Accepts.look (accepts_answer (Scope.asks_entry _) hentry)
  apply Accepts.look (accepts_atSymbol_false (by simp [Tree.leaves]))
  simp only [Bool.false_eq_true, if_false]
  apply Accepts.mark (accepts_takeSymbol .equal)
  refine Accepts.part (accepts_expression hresolved.2 (endsExpression_symbol _ ?_)) ?_ rfl
  · decide
  apply Accepts.mark (accepts_takeSymbol .semicolon)
  apply Accepts.look (accepts_placeOf hplace)
  exact Accepts.write (accepts_emit (.pop place)) (accepts_leave .letStatement)

theorem accepts_store {name : String} {index value : Expr}
    (hresolved : (Statement.store name index value).Resolved σ) :
    Accepts σ label letStatement () (Statement.store name index value).marks
      ((Statement.store name index value).code σ label) 0 follow := by
  rcases exists_entry_of_targetPlace hresolved.1 with ⟨e, place, hentry, hplace, htarget⟩
  unfold letStatement
  rw [Statement.marks, Tree.enclose, Statement.code, htarget, ← List.append_nil storeCode]
  simp only [List.cons_append, List.append_assoc, List.nil_append]
  apply Accepts.mark (accepts_enter .letStatement)
  apply Accepts.mark (accepts_takeKeyword List.mem_cons_self)
  apply Accepts.mark (accepts_takeIdentifier name)
  apply Accepts.look (accepts_answer (Scope.asks_entry _) hentry)
  apply Accepts.look (accepts_atSymbol_true rfl)
  simp only [if_true]
  apply Accepts.mark (accepts_takeSymbol .leftBracket)
  refine Accepts.part (accepts_expression hresolved.2.1 (endsExpression_symbol _ ?_)) ?_ rfl
  · decide
  apply Accepts.look (accepts_placeOf hplace)
  apply Accepts.write (accepts_emit (.push place none))
  apply Accepts.write (accepts_emit (.operate .add))
  apply Accepts.mark (accepts_takeSymbol .rightBracket)
  apply Accepts.mark (accepts_takeSymbol .equal)
  refine Accepts.part (accepts_expression hresolved.2.2 (endsExpression_symbol _ ?_)) ?_ rfl
  · decide
  apply Accepts.mark (accepts_takeSymbol .semicolon)
  exact Accepts.write (accepts_emitAll storeCode) (accepts_leave .letStatement)

theorem accepts_returnNothing :
    Accepts σ label returnStatement () Statement.leave.marks
      (Statement.leave.code σ label) 0 follow := by
  unfold returnStatement
  rw [Statement.marks, Tree.enclose, Statement.code]
  simp only [List.cons_append, List.nil_append]
  apply Accepts.mark (accepts_enter .returnStatement)
  apply Accepts.mark (accepts_takeKeyword List.mem_cons_self)
  apply Accepts.look (accepts_atSymbol_true rfl)
  simp only [if_true]
  apply Accepts.write (accepts_emit (.pushConstant 0))
  apply Accepts.mark (accepts_takeSymbol .semicolon)
  exact Accepts.write (accepts_emit .ret) (accepts_leave .returnStatement)

theorem accepts_give {value : Expr} (hresolved : value.Resolved σ) :
    Accepts σ label returnStatement () (Statement.give value).marks
      ((Statement.give value).code σ label) 0 follow := by
  unfold returnStatement
  rw [Statement.marks, Tree.enclose, Statement.code]
  simp only [List.cons_append, List.append_assoc, List.nil_append]
  apply Accepts.mark (accepts_enter .returnStatement)
  apply Accepts.mark (accepts_takeKeyword List.mem_cons_self)
  refine Accepts.look (accepts_atSymbol_false ?_) ?_
  · simpa [Expr.marks, Tree.leaves] using (head_expr value (.symbol .semicolon :: follow)).2.1
  simp only [Bool.false_eq_true, if_false]
  refine Accepts.part (accepts_expression hresolved (endsExpression_symbol _ ?_)) ?_ rfl
  · decide
  apply Accepts.mark (accepts_takeSymbol .semicolon)
  exact Accepts.write (accepts_emit .ret) (accepts_leave .returnStatement)

/-!
# Calls
-/

theorem accepts_callee_self {name : String} (h : follow.head? = some (.symbol .leftParen)) :
    Accepts σ label (callee name) (qualified σ.className (some name), some (.pointer 0))
      [] [] 0 follow := by
  have hdot : follow.head? ≠ some (.symbol .dot) := by simp [h]
  unfold callee
  refine Accepts.look (accepts_atSymbol_false hdot) ?_
  intro _ c hready
  have hclass : c.className = σ.className := congrArg Scope.className hready.scope
  refine ⟨c, ?_, Compiler.Yields.refl c⟩
  rw [← hclass]
  rfl

theorem accepts_callee_on {owner name : String} {found : Option Entry}
    (hfound : σ.answer ( entry? (some owner)) = some found) :
    Accepts σ label (callee owner)
      (qualified (receiver owner found).1 (some name), (receiver owner found).2)
      [.leaf (.symbol .dot), .leaf (.identifier name)] [] 0 follow := by
  unfold callee
  apply Accepts.look (accepts_atSymbol_true rfl)
  apply Accepts.mark (accepts_takeSymbol .dot)
  apply Accepts.look (accepts_answer (Scope.asks_entry _) hfound)
  exact (accepts_takeIdentifier name).result _

/-- The object is pushed before the arguments, and the value of the call is dropped. -/
theorem accepts_callTail (subroutine : String) (object : Option Place)
    {arguments : Arguments} (hresolved : arguments.Resolved σ) :
    Accepts σ label
      (do
        match object with
        | some place => emit (.push place (some "Pushing callee"))
        | none => pure ()
        takeSymbol .leftParen
        let arguments ← expressionList
        takeSymbol .rightParen
        takeSymbol .semicolon
        emit (.call subroutine (arguments + (if object.isSome then 1 else 0)))
        emit (.pop (.temp 0))
        leave .doStatement)
      () (.leaf (.symbol .leftParen) :: (arguments.marks ++
        [.leaf (.symbol .rightParen), .leaf (.symbol .semicolon), .closing .doStatement]))
      (callCode σ subroutine object arguments) 0 follow := by
  have htail : Accepts σ label
      (do
        takeSymbol .leftParen
        let arguments ← expressionList
        takeSymbol .rightParen
        takeSymbol .semicolon
        emit (.call subroutine (arguments + (if object.isSome then 1 else 0)))
        emit (.pop (.temp 0))
        leave .doStatement)
      () (.leaf (.symbol .leftParen) :: (arguments.marks ++
        [.leaf (.symbol .rightParen), .leaf (.symbol .semicolon), .closing .doStatement]))
      (arguments.code σ ++ [.call subroutine
        (arguments.count + (if object.isSome then 1 else 0)), .pop (.temp 0)]) 0 follow := by
    apply Accepts.mark (accepts_takeSymbol .leftParen)
    refine Accepts.part (accepts_expressionList hresolved rfl) ?_ rfl
    apply Accepts.mark (accepts_takeSymbol .rightParen)
    apply Accepts.mark (accepts_takeSymbol .semicolon)
    apply Accepts.write (accepts_emit _)
    exact Accepts.write (accepts_emit _) (accepts_leave .doStatement)
  unfold callCode receiverCode
  cases object with
  | none => exact htail
  | some place => exact Accepts.write (accepts_emit _) htail

theorem accepts_call_statement {name : String} {arguments : Arguments}
    (hresolved : arguments.Resolved σ) :
    Accepts σ label doStatement () (Statement.call name arguments).marks
      ((Statement.call name arguments).code σ label) 0 follow := by
  unfold doStatement
  rw [Statement.marks, Tree.enclose, Statement.code]
  simp only [List.cons_append, List.append_assoc, List.nil_append]
  apply Accepts.mark (accepts_enter .doStatement)
  apply Accepts.mark (accepts_takeKeyword List.mem_cons_self)
  apply Accepts.mark (accepts_takeIdentifier name)
  apply Accepts.look (accepts_callee_self rfl)
  exact accepts_callTail _ (some (.pointer 0)) hresolved

theorem accepts_callOn_statement {owner name : String} {arguments : Arguments}
    (hresolved : (Statement.callOn owner name arguments).Resolved σ) :
    Accepts σ label doStatement () (Statement.callOn owner name arguments).marks
      ((Statement.callOn owner name arguments).code σ label) 0 follow := by
  rcases Option.isSome_iff_exists.mp hresolved.1 with ⟨found, hfound⟩
  unfold doStatement
  rw [Statement.marks, Tree.enclose, Statement.code, hfound]
  simp only [List.cons_append, List.append_assoc, List.nil_append]
  apply Accepts.mark (accepts_enter .doStatement)
  apply Accepts.mark (accepts_takeKeyword List.mem_cons_self)
  apply Accepts.mark (accepts_takeIdentifier owner)
  exact Accepts.part (accepts_callee_on hfound) (accepts_callTail _ _ hresolved.2) rfl

/-!
# Blocks
-/

theorem accepts_statements {block : Block}
    (hrun : Accepts σ label (statementRunWithin n) () block.parts (block.code σ label)
      block.labels follow) :
    Accepts σ label (statementsWithin (n + 1)) () block.marks (block.code σ label)
      block.labels follow := by
  unfold statementsWithin
  rw [Block.marks, Tree.enclose, ← List.append_nil (block.code σ label),
    ← Nat.add_zero block.labels]
  apply Accepts.mark (accepts_enter .statements)
  exact Accepts.block hrun (accepts_leave .statements) rfl

theorem accepts_loop {condition : Expr} {body : Block} (hcondition : condition.Resolved σ)
    (hbody : Accepts σ (label + 2) (statementsWithin n) () body.marks
      (body.code σ (label + 2)) body.labels (.symbol .rightBrace :: follow)) :
    Accepts σ label (whileWithin (n + 1)) () (Statement.loop condition body).marks
      ((Statement.loop condition body).code σ label) (Statement.loop condition body).labels
      follow := by
  unfold whileWithin
  rw [Statement.marks, Tree.enclose, Statement.code, Statement.labels,
    Nat.add_comm 2 body.labels]
  simp only [List.cons_append, List.append_assoc, List.nil_append]
  apply Accepts.mark (accepts_enter .whileStatement)
  apply Accepts.mark (accepts_takeKeyword List.mem_cons_self)
  apply Accepts.draw
  apply Accepts.draw
  apply Accepts.write (accepts_emit (.label label))
  apply Accepts.mark (accepts_takeSymbol .leftParen)
  refine Accepts.part (accepts_expression hcondition (endsExpression_symbol _ ?_)) ?_ rfl
  · decide
  apply Accepts.mark (accepts_takeSymbol .rightParen)
  apply Accepts.write (accepts_emitAll [.operate .not, .ifGoto (label + 1)])
  apply Accepts.mark (accepts_takeSymbol .leftBrace)
  rw [← Nat.add_zero body.labels]
  refine Accepts.block hbody ?_ rfl
  apply Accepts.mark (accepts_takeSymbol .rightBrace)
  exact Accepts.write (accepts_emitAll [.goto label, .label (label + 1)])
    (accepts_leave .whileStatement)

theorem accepts_ifThen {condition : Expr} {body : Block} (hcondition : condition.Resolved σ)
    (hbody : Accepts σ (label + 3) (statementsWithin n) () body.marks
      (body.code σ (label + 3)) body.labels (.symbol .rightBrace :: follow))
    (hfollow : follow.head? ≠ some (.keyword .«else»)) :
    Accepts σ label (ifWithin (n + 1)) () (Statement.ifThen condition body).marks
      ((Statement.ifThen condition body).code σ label)
      (Statement.ifThen condition body).labels follow := by
  unfold ifWithin
  rw [Statement.marks, Tree.enclose, Statement.code, Statement.labels,
    Nat.add_comm 3 body.labels]
  simp only [List.cons_append, List.append_assoc, List.nil_append]
  apply Accepts.mark (accepts_enter .ifStatement)
  apply Accepts.mark (accepts_takeKeyword List.mem_cons_self)
  apply Accepts.draw
  apply Accepts.draw
  apply Accepts.draw
  apply Accepts.mark (accepts_takeSymbol .leftParen)
  refine Accepts.part (accepts_expression hcondition (endsExpression_symbol _ ?_)) ?_ rfl
  · decide
  apply Accepts.mark (accepts_takeSymbol .rightParen)
  apply Accepts.write (accepts_emitAll [.ifGoto label, .goto (label + 1), .label label])
  apply Accepts.mark (accepts_takeSymbol .leftBrace)
  rw [← Nat.add_zero body.labels]
  refine Accepts.block hbody ?_ rfl
  apply Accepts.mark (accepts_takeSymbol .rightBrace)
  apply Accepts.write (accepts_emitAll [.goto (label + 2), .label (label + 1)])
  refine Accepts.look (accepts_atKeyword_false ?_) ?_
  · intro word hword
    cases List.mem_singleton.mp hword
    exact hfollow
  exact Accepts.write (accepts_emit (.label (label + 2))) (accepts_leave .ifStatement)

theorem accepts_ifElse {condition : Expr} {body other : Block}
    (hcondition : condition.Resolved σ)
    (hbody : Accepts σ (label + 3) (statementsWithin n) () body.marks
      (body.code σ (label + 3)) body.labels
      (.symbol .rightBrace :: .keyword .«else» :: .symbol .leftBrace ::
        (other.tokens ++ .symbol .rightBrace :: follow)))
    (hother : Accepts σ (label + 3 + body.labels) (statementsWithin n) () other.marks
      (other.code σ (label + 3 + body.labels)) other.labels
      (.symbol .rightBrace :: follow)) :
    Accepts σ label (ifWithin (n + 1)) () (Statement.ifElse condition body other).marks
      ((Statement.ifElse condition body other).code σ label)
      (Statement.ifElse condition body other).labels follow := by
  unfold ifWithin
  rw [Statement.marks, Tree.enclose, Statement.code, Statement.labels,
    Nat.add_comm 3 (body.labels + other.labels)]
  simp only [List.cons_append, List.append_assoc, List.nil_append]
  apply Accepts.mark (accepts_enter .ifStatement)
  apply Accepts.mark (accepts_takeKeyword List.mem_cons_self)
  apply Accepts.draw
  apply Accepts.draw
  apply Accepts.draw
  apply Accepts.mark (accepts_takeSymbol .leftParen)
  refine Accepts.part (accepts_expression hcondition (endsExpression_symbol _ ?_)) ?_ rfl
  · decide
  apply Accepts.mark (accepts_takeSymbol .rightParen)
  apply Accepts.write (accepts_emitAll [.ifGoto label, .goto (label + 1), .label label])
  apply Accepts.mark (accepts_takeSymbol .leftBrace)
  refine Accepts.block hbody ?_ (by simp [Tree.leaves])
  apply Accepts.mark (accepts_takeSymbol .rightBrace)
  apply Accepts.write (accepts_emitAll [.goto (label + 2), .label (label + 1)])
  apply Accepts.look (accepts_atKeyword_true List.mem_cons_self rfl)
  simp only [if_true]
  apply Accepts.mark (accepts_takeKeyword List.mem_cons_self)
  apply Accepts.mark (accepts_takeSymbol .leftBrace)
  rw [← Nat.add_zero other.labels]
  refine Accepts.block hother ?_ rfl
  apply Accepts.mark (accepts_takeSymbol .rightBrace)
  exact Accepts.write (accepts_emit (.label (label + 2))) (accepts_leave .ifStatement)

/-- The routine that reads a statement within a limit. -/
def statementWithin (n : Nat) : Statement -> CompileM Unit
  | .assign _ _ => letStatement
  | .store _ _ _ => letStatement
  | .call _ _ => doStatement
  | .callOn _ _ _ => doStatement
  | .leave => returnStatement
  | .give _ => returnStatement
  | .ifThen _ _ => ifWithin n
  | .ifElse _ _ _ => ifWithin n
  | .loop _ _ => whileWithin n

theorem accepts_run_nil (h : EndsBlock follow) :
    Accepts σ label (statementRunWithin (n + 1)) () Block.nil.parts
      (Block.nil.code σ label) Block.nil.labels follow := by
  unfold statementRunWithin
  apply Accepts.look accepts_current
  split
  · next hhead => exact absurd (by decide) (h _ hhead)
  · next hhead => exact absurd (by decide) (h _ hhead)
  · next hhead => exact absurd (by decide) (h _ hhead)
  · next hhead => exact absurd (by decide) (h _ hhead)
  · next hhead => exact absurd (by decide) (h _ hhead)
  · exact accepts_pure ()

theorem accepts_run_cons {first : Statement} {rest : Block}
    (hfirst : Accepts σ label (statementWithin n first) () first.marks
      (first.code σ label) first.labels (rest.tokens ++ follow))
    (hrest : Accepts σ (label + first.labels) (statementRunWithin n) () rest.parts
      (rest.code σ (label + first.labels)) rest.labels follow) :
    Accepts σ label (statementRunWithin (n + 1)) () (Block.cons first rest).parts
      ((Block.cons first rest).code σ label) (Block.cons first rest).labels follow := by
  have hboth : Accepts σ label (do statementWithin n first; statementRunWithin n) ()
      (first.marks ++ rest.parts)
      (first.code σ label ++ rest.code σ (label + first.labels))
      (first.labels + rest.labels) follow :=
    Accepts.block hfirst hrest (by simp)
  unfold statementRunWithin
  rw [Block.parts, Block.code, Block.labels]
  apply Accepts.look accepts_current
  rw [Tree.leaves_append, Statement.leaves_marks]
  -- the keyword at the head of the statement selects its routine
  cases first with
  | assign name value => exact hboth
  | store name index value => exact hboth
  | call name arguments => exact hboth
  | callOn owner name arguments => exact hboth
  | leave => exact hboth
  | give value => exact hboth
  | ifThen condition body => exact hboth
  | ifElse condition body other => exact hboth
  | loop condition body => exact hboth

end

/-!
The induction is on the tree, with four steps of the limit for each token.
-/

mutual

theorem Statement.accepted {σ : Scope} {label n : Nat} {follow : List Token} :
    forall s : Statement, 4 * s.tokens.length ≤ n -> s.Resolved σ ->
      follow.head? ≠ some (.keyword .«else») ->
      Accepts σ label (statementWithin n s) () s.marks (s.code σ label) s.labels follow
  | .assign name value, _, hresolved, _ => accepts_assign hresolved
  | .store name index value, _, hresolved, _ => accepts_store hresolved
  | .call name arguments, _, hresolved, _ => accepts_call_statement hresolved
  | .callOn owner name arguments, _, hresolved, _ => accepts_callOn_statement hresolved
  | .leave, _, _, _ => accepts_returnNothing
  | .give value, _, hresolved, _ => accepts_give hresolved
  | .ifThen condition body, hn, hresolved, hfollow => by
      simp only [Statement.tokens, List.length_cons, List.length_append] at hn
      rcases Nat.exists_eq_add_of_le' (show 1 ≤ n by omega) with ⟨m, rfl⟩
      have hbody : 4 * body.tokens.length + 2 ≤ m := by omega
      exact accepts_ifThen hresolved.1
        (Block.accepted body hbody hresolved.2 (endsBlock_symbol _ _)) hfollow
  | .ifElse condition body other, hn, hresolved, _ => by
      simp only [Statement.tokens, List.length_cons, List.length_append] at hn
      rcases Nat.exists_eq_add_of_le' (show 1 ≤ n by omega) with ⟨m, rfl⟩
      have hbody : 4 * body.tokens.length + 2 ≤ m := by omega
      have hother : 4 * other.tokens.length + 2 ≤ m := by omega
      exact accepts_ifElse hresolved.1
        (Block.accepted body hbody hresolved.2.1 (endsBlock_symbol _ _))
        (Block.accepted other hother hresolved.2.2 (endsBlock_symbol _ _))
  | .loop condition body, hn, hresolved, _ => by
      simp only [Statement.tokens, List.length_cons, List.length_append] at hn
      rcases Nat.exists_eq_add_of_le' (show 1 ≤ n by omega) with ⟨m, rfl⟩
      have hbody : 4 * body.tokens.length + 2 ≤ m := by omega
      exact accepts_loop hresolved.1
        (Block.accepted body hbody hresolved.2 (endsBlock_symbol _ _))

theorem Block.accepted {σ : Scope} {label n : Nat} {follow : List Token} :
    forall block : Block, 4 * block.tokens.length + 2 ≤ n -> block.Resolved σ ->
      EndsBlock follow ->
      Accepts σ label (statementsWithin n) () block.marks (block.code σ label) block.labels
        follow
  | block, hn, hresolved, hfollow => by
      rcases Nat.exists_eq_add_of_le' (show 1 ≤ n by omega) with ⟨m, rfl⟩
      exact accepts_statements (Block.run_accepted block (by omega) hresolved hfollow)

theorem Block.run_accepted {σ : Scope} {label n : Nat} {follow : List Token} :
    forall block : Block, 4 * block.tokens.length + 1 ≤ n -> block.Resolved σ ->
      EndsBlock follow ->
      Accepts σ label (statementRunWithin n) () block.parts (block.code σ label)
        block.labels follow
  | .nil, hn, _, hfollow => by
      rcases Nat.exists_eq_add_of_le' (show 1 ≤ n by omega) with ⟨m, rfl⟩
      exact accepts_run_nil hfollow
  | .cons first rest, hn, hresolved, hfollow => by
      have hpositive := (head_statement first []).2
      rw [Block.tokens, List.length_append] at hn
      rcases Nat.exists_eq_add_of_le' (show 1 ≤ n by omega) with ⟨m, rfl⟩
      have hfirst : 4 * first.tokens.length ≤ m := by omega
      have hrest : 4 * rest.tokens.length + 1 ≤ m := by omega
      exact accepts_run_cons
        (Statement.accepted first hfirst hresolved.1 (endsIf_block rest hfollow))
        (Block.run_accepted rest hrest hresolved.2 hfollow)

end

theorem accepts_block {σ : Scope} {label : Nat} {follow : List Token} {block : Block}
    (hresolved : block.Resolved σ) (hfollow : EndsBlock follow) :
    Accepts σ label statements () block.marks (block.code σ label) block.labels follow := by
  apply accepts_within_bound
  intro n hn
  rw [Block.marks, Tree.leaves_enclose, Block.leaves_parts] at hn
  exact Block.accepted block hn hresolved hfollow

end Compile
end Jack
