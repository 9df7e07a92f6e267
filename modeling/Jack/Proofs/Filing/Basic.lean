import Jack.Proofs.Calls.Basic
import Jack.Proofs.Prologues

/-!
# Steps that file nothing

Most routines of the compiler look names up and never declare one.  Whether such a routine
succeeds or not, the tables are afterwards what they were before.  The routines are followed
step by step; those that call each other are followed together, by induction on their limit.

The identifiers that a scanner delivers go along with the steps: none of them has the name of
a keyword.
-/

namespace Jack

/-!
# Identifiers of scanners
-/

namespace Scanner

/-- Neither the current token nor the one ahead is an identifier with the name of a
keyword. -/
structure Named (s : Scanner) : Prop where
  current : forall name, s.current = some (.identifier name) -> Keyword.ofWord? name = none
  ahead : s.AheadNamed

/-- When the token ahead cannot be read, the former one stays. -/
theorem tokens_of_lookAhead_error {s s' : Scanner} {fault : Fault}
    (h : lookAhead.run s = .error fault s') : s'.current = s.current ∧ s'.next = s.next := by
  have hlook : lookAhead s = .error fault s' := h
  unfold lookAhead reading at hlook
  split at hlook
  · cases hlook
  · next hread =>
      cases hlook
      split at hread
      · split at hread
        · cases hread
        · cases hread
          exact ⟨rfl, rfl⟩
      · cases hread
        exact ⟨rfl, rfl⟩

section

variable {s s' : Scanner}

theorem Named.of_advance (h : s.Named) (hrun : advance.run s = .ok () s') : s'.Named := by
  cases hnext : s.next with
  | none =>
      rw [run_advance_of_next_none hnext] at hrun
      cases hrun
  | some token =>
      constructor
      · intro name hcurrent
        rw [current_of_advance hnext hrun, ← hnext] at hcurrent
        exact h.ahead name hcurrent
      · rw [run_advance_of_next hnext] at hrun
        exact aheadNamed_of_lookAhead hrun

theorem Named.of_advance_error (h : s.Named) {fault : Fault}
    (hrun : advance.run s = .error fault s') : s'.Named := by
  cases hnext : s.next with
  | none =>
      rw [run_advance_of_next_none hnext] at hrun
      cases hrun
      exact h
  | some token =>
      rw [run_advance_of_next hnext] at hrun
      rcases tokens_of_lookAhead_error hrun with ⟨hcurrent, hahead⟩
      constructor
      · intro name hname
        rw [hcurrent, ← hnext] at hname
        exact h.ahead name hname
      · intro name hname
        rw [hahead] at hname
        exact h.ahead name hname

theorem named_of_ofText {text : String} (h : ofText text = .ok s) : s.Named := by
  unfold ofText at h
  split at h
  · next hlook =>
      cases h
      constructor
      · intro name hcurrent
        rw [current_of_lookAhead hlook] at hcurrent
        cases hcurrent
      · exact aheadNamed_of_lookAhead hlook
  · cases h

end

end Scanner

/-!
# The compiler behind a sequence of steps
-/

namespace Compiler

theorem after_of_ok {step : CompileM α} {c c' : Compiler} {a : α} (h : step.run c = .ok a c') :
    c.after step = c' := by
  unfold after
  rw [h]

theorem after_of_error {step : CompileM α} {c c' : Compiler} {fault : Fault}
    (h : step.run c = .error fault c') : c.after step = c' := by
  unfold after
  rw [h]

theorem after_bind_of_ok {first : CompileM α} {c c' : Compiler} {a : α}
    (h : first.run c = .ok a c') (second : α -> CompileM β) :
    c.after (first >>= second) = c'.after (second a) := by
  unfold after
  rw [Compile.run_bind_of_ok h]

theorem after_bind_of_error {first : CompileM α} {c c' : Compiler} {fault : Fault}
    (h : first.run c = .error fault c') (second : α -> CompileM β) :
    c.after (first >>= second) = c' :=
  after_of_error (Compile.run_bind_eq_error_iff.mpr (Or.inl h))

end Compiler

namespace Compile

/-!
# Quiet steps
-/

/-- Whether it succeeds or not, the step leaves the tables as they are, and the scanner
delivers no keyword as an identifier. -/
structure Quiet (step : CompileM α) : Prop where
  tables : forall c : Compiler, (c.after step).tables = c.tables
  named : forall c : Compiler, c.scanner.Named -> (c.after step).scanner.Named

section

variable {step : CompileM α}

theorem Quiet.bind {second : α -> CompileM β} (hfirst : Quiet step)
    (hsecond : forall a, Quiet (second a)) : Quiet (step >>= second) := by
  constructor
  · intro c
    have htables := hfirst.tables c
    cases hrun : step.run c with
    | ok a c' =>
        rw [Compiler.after_of_ok hrun] at htables
        rw [Compiler.after_bind_of_ok hrun, (hsecond a).tables, htables]
    | error fault c' =>
        rw [Compiler.after_of_error hrun] at htables
        rw [Compiler.after_bind_of_error hrun, htables]
  · intro c hnamed
    have hscanner := hfirst.named c hnamed
    cases hrun : step.run c with
    | ok a c' =>
        rw [Compiler.after_of_ok hrun] at hscanner
        rw [Compiler.after_bind_of_ok hrun]
        exact (hsecond a).named c' hscanner
    | error fault c' =>
        rw [Compiler.after_of_error hrun] at hscanner
        rwa [Compiler.after_bind_of_error hrun]

/-- The step changes neither the tables nor the scanner. -/
theorem quiet_of_same (htables : forall c : Compiler, (c.after step).tables = c.tables)
    (hscanner : forall c : Compiler, (c.after step).scanner = c.scanner) : Quiet step := by
  refine ⟨htables, ?_⟩
  intro c hnamed
  rwa [hscanner]

/-- The step looks at the compiler, and it fails or not. -/
theorem quiet_of_looks (h : forall c : Compiler, c.after step = c) : Quiet step :=
  quiet_of_same (fun c => by rw [h]) fun c => by rw [h]

end

theorem quiet_pure (a : α) : Quiet (pure a : CompileM α) :=
  quiet_of_looks fun _ => rfl

theorem Quiet.map {step : CompileM α} (g : α -> β) (h : Quiet step) : Quiet (g <$> step) := by
  rw [map_eq_pure_bind]
  exact h.bind fun a => quiet_pure (g a)

theorem quiet_throw (fault : Fault) : Quiet (throw fault : CompileM α) :=
  quiet_of_looks fun _ => rfl

theorem quiet_get : Quiet (get : CompileM Compiler) :=
  quiet_of_looks fun _ => rfl

theorem quiet_bound : Quiet bound :=
  quiet_of_looks fun _ => rfl

theorem quiet_current : Quiet current :=
  quiet_of_looks fun _ => rfl

theorem quiet_unexpectedKind (expected : Token.Kind) :
    Quiet (unexpectedKind expected : CompileM α) :=
  quiet_of_looks fun _ => rfl

theorem quiet_atSymbol (sign : Symbol) : Quiet (atSymbol sign) :=
  quiet_of_looks fun c => Compiler.after_of_ok (run_atSymbol sign c)

theorem quiet_atKeyword (words : List Keyword) : Quiet (atKeyword words) :=
  quiet_of_looks fun c => Compiler.after_of_ok (run_atKeyword words c)

theorem quiet_currentKeyword : Quiet currentKeyword := by
  apply quiet_of_looks
  intro c
  unfold Compiler.after
  rw [run_currentKeyword]
  cases c.scanner.keyword <;> rfl

/-!
# Writing
-/

theorem quiet_emit (instr : Instr) : Quiet (emit instr) :=
  quiet_of_same (fun _ => rfl) fun _ => rfl

theorem quiet_emitAll (code : List Instr) : Quiet (emitAll code) := by
  induction code with
  | nil => exact quiet_pure ()
  | cons instr rest ih => exact (quiet_emit instr).bind fun _ => ih

theorem quiet_drawLabel : Quiet drawLabel :=
  quiet_of_same (fun _ => rfl) fun _ => rfl

theorem quiet_deepen (levels : Int) : Quiet (deepen levels) :=
  quiet_of_same (fun _ => rfl) fun _ => rfl

theorem quiet_closeTree : Quiet closeTree :=
  quiet_of_same (fun _ => rfl) fun _ => rfl

theorem quiet_writeMark (mark : Tree.Mark) : Quiet (writeMark mark) := by
  apply quiet_of_same
  all_goals
    intro c
    unfold Compiler.after
    rw [run_writeMark]
    split
    · next hrun =>
        split at hrun <;> cases hrun
        rfl
    · next hrun =>
        split at hrun <;> cases hrun
        rfl

theorem quiet_enter (nonterminal : Nonterminal) : Quiet (enter nonterminal) :=
  (quiet_writeMark _).bind fun _ => quiet_deepen 1

theorem quiet_leave (nonterminal : Nonterminal) : Quiet (leave nonterminal) :=
  (quiet_deepen (-1)).bind fun _ => quiet_writeMark _

/-!
# Taking tokens
-/

theorem quiet_moveOn : Quiet moveOn := by
  constructor
  · intro c
    cases hrun : moveOn.run c with
    | ok _ c' =>
        rcases run_moveOn_eq_ok_iff.mp hrun with ⟨_, _, rfl⟩
        rw [Compiler.after_of_ok hrun]
        rfl
    | error fault c' =>
        rcases exists_scanner_of_moveOn_error hrun with ⟨_, _, _, rfl⟩
        rw [Compiler.after_of_error hrun]
        rfl
  · intro c hnamed
    unfold Compiler.after
    rw [run_moveOn]
    cases c.scanner.hasNext with
    | false => exact hnamed
    | true =>
        simp only [if_true, run_scanning]
        cases hadvance : Scanner.advance.run c.scanner with
        | ok _ s => exact hnamed.of_advance hadvance
        | error fault s => exact hnamed.of_advance_error hadvance

theorem quiet_take (token : Token) : Quiet (take token) :=
  (quiet_writeMark _).bind fun _ => quiet_moveOn

theorem quiet_takeKeyword (words : List Keyword) : Quiet (takeKeyword words) := by
  apply quiet_current.bind
  intro token
  split
  · split
    · exact (quiet_take _).bind fun _ => quiet_pure _
    · exact quiet_throw _
  · exact quiet_unexpectedKind _

theorem quiet_takeSymbol (sign : Symbol) : Quiet (takeSymbol sign) := by
  apply quiet_current.bind
  intro token
  split
  · split
    · exact quiet_take _
    · exact quiet_throw _
  · exact quiet_unexpectedKind _

theorem quiet_takeIdentifier : Quiet takeIdentifier := by
  apply quiet_current.bind
  intro token
  split
  · exact (quiet_take _).bind fun _ => quiet_pure _
  · exact quiet_unexpectedKind _

theorem quiet_takeInteger : Quiet takeInteger := by
  apply quiet_current.bind
  intro token
  split
  · exact (quiet_take _).bind fun _ => quiet_pure _
  · exact quiet_unexpectedKind _

theorem quiet_takeString : Quiet takeString := by
  apply quiet_current.bind
  intro token
  split
  · exact (quiet_emitAll _).bind fun _ => (quiet_take _).bind fun _ => quiet_pure _
  · exact quiet_unexpectedKind _

theorem quiet_takeType : Quiet takeType := by
  apply quiet_current.bind
  intro token
  split
  · exact quiet_takeIdentifier
  · exact (quiet_takeKeyword _).map Keyword.word

/-!
# Looking names up
-/

theorem quiet_classEntry (name className : Option String) :
    Quiet ( classEntry? name className) := by
  apply quiet_of_looks
  intro c
  unfold Compiler.after
  rw [Scope.run_classEntry]
  cases className.bind c.classes.get? <;> rfl

theorem quiet_entry (name : Option String) : Quiet ( entry? name) := by
  apply quiet_of_looks
  intro c
  unfold Compiler.after
  rw [Scope.run_entry, Scope.run_classEntry]
  cases c.locals with
  | none => rfl
  | some table =>
      cases hget : table.get? name with
      | some e => simp only [hget]
      | none =>
          simp only [hget]
          cases c.className.bind c.classes.get? <;> rfl

theorem quiet_subroutineEntry (receiver subroutine : Option String) :
    Quiet ( subroutineEntry? receiver subroutine) := by
  apply (quiet_entry subroutine).bind
  intro found
  cases found with
  | some e => exact quiet_pure (some e)
  | none =>
      apply (quiet_entry receiver).bind
      intro holder
      cases holder with
      | some e => exact quiet_classEntry subroutine e.type
      | none => exact quiet_pure none

theorem quiet_placeOf (e : Option Entry) : Quiet (placeOf e) := by
  cases e with
  | some e => exact quiet_pure e.place
  | none => exact quiet_throw _

theorem quiet_typeOf (e : Option Entry) : Quiet (typeOf e) := by
  cases e with
  | some e => exact quiet_pure e.type
  | none => exact quiet_throw _

theorem quiet_classSize : Quiet classSize := by
  apply quiet_of_looks
  intro c
  unfold Compiler.after
  rw [Scope.run_classSize]
  cases c.className.bind c.sizes.get? <;> rfl

theorem quiet_callTarget (name subroutine : String) : Quiet (callTarget name subroutine) := by
  apply (quiet_subroutineEntry _ _).bind
  intro found
  cases found with
  | none => exact quiet_pure _
  | some e =>
      show Quiet (if e.type = some "method" then _ else _)
      split
      · exact (quiet_entry _).bind fun holder =>
          (quiet_typeOf holder).bind fun type => quiet_pure (type, 1)
      · exact quiet_pure _

theorem quiet_pushName (name : String) : Quiet (pushName name) := by
  apply (quiet_entry _).bind
  intro found
  split
  · split
    · exact quiet_emit _
    · exact quiet_pure ()
  · exact quiet_pure ()

/-!
# Expressions
-/

theorem quiet_operator : Quiet ( operator?) := by
  apply quiet_current.bind
  intro token
  split
  · exact quiet_pure _
  · exact quiet_pure _

/-- Routines for the parts of an expression, with a limit. -/
structure QuietExpressions (n : Nat) : Prop where
  expression : Quiet (expressionWithin n)
  operations : Quiet (operationsWithin n)
  term : Quiet (termWithin n)
  operand : Quiet (operandWithin n)
  name : Quiet (nameWithin n)
  arguments : Quiet (expressionListWithin n)
  more : Quiet (moreExpressionsWithin n)

section

variable {n : Nat} (ih : QuietExpressions n)

include ih

theorem quiet_expressionWithin : Quiet (expressionWithin (n + 1)) := by
  unfold expressionWithin
  exact (quiet_enter _).bind fun _ => ih.term.bind fun _ => ih.operations.bind fun _ =>
    quiet_leave _

theorem quiet_operationsWithin : Quiet (operationsWithin (n + 1)) := by
  unfold operationsWithin
  apply quiet_operator.bind
  intro found
  split
  · exact quiet_pure ()
  · exact (quiet_takeSymbol _).bind fun _ => ih.term.bind fun _ =>
      (quiet_emit _).bind fun _ => ih.operations

theorem quiet_termWithin : Quiet (termWithin (n + 1)) := by
  unfold termWithin
  exact (quiet_enter _).bind fun _ => ih.operand.bind fun name =>
    (quiet_leave _).bind fun _ => quiet_pure name

theorem quiet_operandWithin : Quiet (operandWithin (n + 1)) := by
  unfold operandWithin
  apply quiet_current.bind
  intro token
  split
  · exact quiet_takeInteger.bind fun value => (quiet_emit _).bind fun _ => quiet_pure none
  · exact quiet_takeString.bind fun _ => quiet_pure none
  · split
    · exact (quiet_takeKeyword _).bind fun _ => (quiet_emitAll _).bind fun _ => quiet_pure none
    · exact ih.name
  · split
    · exact (quiet_takeSymbol _).bind fun _ => ih.expression.bind fun _ =>
        (quiet_takeSymbol _).bind fun _ => quiet_pure none
    · split
      · exact (quiet_takeSymbol _).bind fun _ => ih.term.bind fun _ =>
          (quiet_emit _).bind fun _ => quiet_pure none
      · exact ih.name
  · exact ih.name

theorem quiet_nameWithin : Quiet (nameWithin (n + 1)) := by
  unfold nameWithin
  apply quiet_takeIdentifier.bind
  intro name
  apply (quiet_pushName name).bind
  intro _
  apply (quiet_atSymbol .leftBracket).bind
  intro isElement
  cases isElement with
  | true =>
      exact (quiet_takeSymbol _).bind fun _ => ih.expression.bind fun _ =>
        (quiet_emitAll _).bind fun _ => (quiet_takeSymbol _).bind fun _ => quiet_pure _
  | false =>
      apply (quiet_atSymbol .leftParen).bind
      intro isCall
      cases isCall with
      | true =>
          exact (quiet_takeSymbol _).bind fun _ => ih.arguments.bind fun _ =>
            (quiet_emit _).bind fun _ => (quiet_takeSymbol _).bind fun _ => quiet_pure _
      | false =>
          apply (quiet_atSymbol .dot).bind
          intro isDotted
          cases isDotted with
          | true =>
              exact (quiet_takeSymbol _).bind fun _ => quiet_takeIdentifier.bind fun subroutine =>
                (quiet_callTarget name subroutine).bind fun _ => (quiet_takeSymbol _).bind fun _ =>
                  ih.arguments.bind fun _ => (quiet_emit _).bind fun _ =>
                    (quiet_takeSymbol _).bind fun _ => quiet_pure _
          | false => exact quiet_pure _

theorem quiet_expressionListWithin : Quiet (expressionListWithin (n + 1)) := by
  unfold expressionListWithin
  have hmore : forall first : Nat, Quiet (moreExpressionsWithin n >>= fun others =>
      leave .expressionList >>= fun _ => pure (first + others)) :=
    fun first => ih.more.bind fun others => (quiet_leave _).bind fun _ => quiet_pure _
  apply (quiet_enter _).bind
  intro _
  apply (quiet_atSymbol .rightParen).bind
  intro isEmpty
  cases isEmpty with
  | true => exact hmore 0
  | false => exact ih.expression.bind fun _ => hmore 1

theorem quiet_moreExpressionsWithin : Quiet (moreExpressionsWithin (n + 1)) := by
  unfold moreExpressionsWithin
  apply (quiet_atSymbol .comma).bind
  intro again
  cases again with
  | true =>
      exact (quiet_takeSymbol _).bind fun _ => ih.expression.bind fun _ =>
        ih.more.bind fun others => quiet_pure (others + 1)
  | false => exact quiet_pure 0

end

theorem quietExpressions (n : Nat) : QuietExpressions n := by
  induction n with
  | zero =>
      constructor <;> exact quiet_throw _
  | succ n ih =>
      exact
        { expression := quiet_expressionWithin ih
          operations := quiet_operationsWithin ih
          term := quiet_termWithin ih
          operand := quiet_operandWithin ih
          name := quiet_nameWithin ih
          arguments := quiet_expressionListWithin ih
          more := quiet_moreExpressionsWithin ih }

theorem quiet_expression : Quiet expression :=
  quiet_bound.bind fun n => (quietExpressions n).expression

theorem quiet_expressionList : Quiet expressionList :=
  quiet_bound.bind fun n => (quietExpressions n).arguments

/-!
# Statements
-/

theorem quiet_callee (name : String) : Quiet (callee name) := by
  apply (quiet_atSymbol .dot).bind
  intro isDotted
  cases isDotted with
  | true =>
      exact (quiet_takeSymbol _).bind fun _ => (quiet_entry _).bind fun _ =>
        quiet_takeIdentifier.bind fun _ => quiet_pure _
  | false => exact quiet_get.bind fun _ => quiet_pure _

theorem quiet_doStatement : Quiet doStatement := by
  apply (quiet_enter _).bind
  intro _
  apply (quiet_takeKeyword _).bind
  intro _
  apply quiet_takeIdentifier.bind
  intro name
  apply (quiet_callee name).bind
  intro target
  rcases target with ⟨subroutine, object⟩
  have hcall : Quiet (takeSymbol .leftParen >>= fun _ => expressionList >>= fun arguments =>
      takeSymbol .rightParen >>= fun _ => takeSymbol .semicolon >>= fun _ =>
        emit (.call subroutine (arguments + (if object.isSome then 1 else 0))) >>= fun _ =>
          emit (.pop (.temp 0)) >>= fun _ => leave .doStatement) :=
    (quiet_takeSymbol _).bind fun _ => quiet_expressionList.bind fun _ =>
      (quiet_takeSymbol _).bind fun _ => (quiet_takeSymbol _).bind fun _ =>
        (quiet_emit _).bind fun _ => (quiet_emit _).bind fun _ => quiet_leave _
  cases object with
  | none => exact hcall
  | some place => exact (quiet_emit _).bind fun _ => hcall

theorem quiet_letStatement : Quiet letStatement := by
  apply (quiet_enter _).bind
  intro _
  apply (quiet_takeKeyword _).bind
  intro _
  apply quiet_takeIdentifier.bind
  intro name
  apply (quiet_entry _).bind
  intro target
  apply (quiet_atSymbol .leftBracket).bind
  intro isElement
  cases isElement with
  | true =>
      exact (quiet_takeSymbol _).bind fun _ => quiet_expression.bind fun _ =>
        (quiet_placeOf target).bind fun _ => (quiet_emit _).bind fun _ =>
          (quiet_emit _).bind fun _ => (quiet_takeSymbol _).bind fun _ =>
            (quiet_takeSymbol _).bind fun _ => quiet_expression.bind fun _ =>
              (quiet_takeSymbol _).bind fun _ => (quiet_emitAll _).bind fun _ => quiet_leave _
  | false =>
      exact (quiet_takeSymbol _).bind fun _ => quiet_expression.bind fun _ =>
        (quiet_takeSymbol _).bind fun _ => (quiet_placeOf target).bind fun _ =>
          (quiet_emit _).bind fun _ => quiet_leave _

theorem quiet_returnStatement : Quiet returnStatement := by
  apply (quiet_enter _).bind
  intro _
  apply (quiet_takeKeyword _).bind
  intro _
  have hend : Quiet (takeSymbol .semicolon >>= fun _ => emit .ret >>= fun _ =>
      leave .returnStatement) :=
    (quiet_takeSymbol _).bind fun _ => (quiet_emit _).bind fun _ => quiet_leave _
  apply (quiet_atSymbol .semicolon).bind
  intro isEmpty
  cases isEmpty with
  | true => exact (quiet_emit _).bind fun _ => hend
  | false => exact quiet_expression.bind fun _ => hend

/-- Routines for statements, with a limit. -/
structure QuietStatements (n : Nat) : Prop where
  block : Quiet (statementsWithin n)
  run : Quiet (statementRunWithin n)
  loop : Quiet (whileWithin n)
  choice : Quiet (ifWithin n)

section

variable {n : Nat} (ih : QuietStatements n)

include ih

theorem quiet_statementsWithin : Quiet (statementsWithin (n + 1)) := by
  unfold statementsWithin
  exact (quiet_enter _).bind fun _ => ih.run.bind fun _ => quiet_leave _

theorem quiet_statementRunWithin : Quiet (statementRunWithin (n + 1)) := by
  unfold statementRunWithin
  apply quiet_current.bind
  intro token
  split
  · exact quiet_letStatement.bind fun _ => ih.run
  · exact ih.choice.bind fun _ => ih.run
  · exact ih.loop.bind fun _ => ih.run
  · exact quiet_doStatement.bind fun _ => ih.run
  · exact quiet_returnStatement.bind fun _ => ih.run
  · exact quiet_pure ()

/-- Statements between braces. -/
theorem QuietStatements.braces {rest : CompileM α} (hrest : Quiet rest) :
    Quiet (takeSymbol .leftBrace >>= fun _ => statementsWithin n >>= fun _ =>
      takeSymbol .rightBrace >>= fun _ => rest) :=
  (quiet_takeSymbol _).bind fun _ => ih.block.bind fun _ =>
    (quiet_takeSymbol _).bind fun _ => hrest

theorem quiet_whileWithin : Quiet (whileWithin (n + 1)) := by
  unfold whileWithin
  exact (quiet_enter _).bind fun _ => (quiet_takeKeyword _).bind fun _ =>
    quiet_drawLabel.bind fun _ => quiet_drawLabel.bind fun _ => (quiet_emit _).bind fun _ =>
      (quiet_takeSymbol _).bind fun _ => quiet_expression.bind fun _ =>
        (quiet_takeSymbol _).bind fun _ => (quiet_emitAll _).bind fun _ =>
          ih.braces ((quiet_emitAll _).bind fun _ => quiet_leave _)

theorem quiet_ifWithin : Quiet (ifWithin (n + 1)) := by
  unfold ifWithin
  have hend : forall done : Nat,
      Quiet (emit (.label done) >>= fun _ => leave .ifStatement) :=
    fun _ => (quiet_emit _).bind fun _ => quiet_leave _
  have helse : forall done : Nat, Quiet (atKeyword [.«else»] >>= fun hasElse =>
      if hasElse = true then
        takeKeyword [.«else»] >>= fun _ => takeSymbol .leftBrace >>= fun _ =>
          statementsWithin n >>= fun _ => takeSymbol .rightBrace >>= fun _ =>
            emit (.label done) >>= fun _ => leave .ifStatement
      else emit (.label done) >>= fun _ => leave .ifStatement) := by
    intro done
    apply (quiet_atKeyword _).bind
    intro hasElse
    cases hasElse with
    | true => exact (quiet_takeKeyword _).bind fun _ => ih.braces (hend done)
    | false => exact hend done
  exact (quiet_enter _).bind fun _ => (quiet_takeKeyword _).bind fun _ =>
    quiet_drawLabel.bind fun _ => quiet_drawLabel.bind fun _ => quiet_drawLabel.bind fun done =>
      (quiet_takeSymbol _).bind fun _ => quiet_expression.bind fun _ =>
        (quiet_takeSymbol _).bind fun _ => (quiet_emitAll _).bind fun _ =>
          ih.braces ((quiet_emitAll _).bind fun _ => helse done)

end

theorem quietStatements (n : Nat) : QuietStatements n := by
  induction n with
  | zero =>
      constructor <;> exact quiet_throw _
  | succ n ih =>
      exact
        { block := quiet_statementsWithin ih
          run := quiet_statementRunWithin ih
          loop := quiet_whileWithin ih
          choice := quiet_ifWithin ih }

theorem quiet_statements : Quiet statements :=
  quiet_bound.bind fun n => (quietStatements n).block

end Compile
end Jack
