import Jack.Proofs.Pairs.Basic

/-!
# Routines of a pair

Every routine agrees in two compilers that are alike, provided that the tables it reads
agree.  These are the table of the class at hand, which both compilers fill from the source;
the table of the subroutine at hand, which is opened anew for every subroutine; and the
tables of other classes, which stay as they were and are only asked for entries.
-/

namespace Jack
namespace Pair

/-!
# Tables of a pair
-/

/-- Where both compilers know a class other than the one they compile, its table has the
same entries. -/
def Compatible (π : Pair) : Prop :=
  forall name table other, π.own ≠ some name -> π.first.classes.get? name = some table ->
    π.second.classes.get? name = some other -> other.get? = table.get?

/-- Inside a class: its table is the same in both compilers, and the tables of all other
classes are those that the compilers had before. -/
structure InClass (π : Pair) (name : String) (t u : Tables) : Prop where
  compatible : π.Compatible
  own : π.own = some name
  firstName : t.scope.className = some name
  secondName : u.scope.className = some name
  subroutineName : u.subroutineName = t.subroutineName
  table : exists table, t.scope.classes.get? name = some table ∧
    u.scope.classes.get? name = some table
  others : forall other, other ≠ name ->
    t.scope.classes.get? other = π.first.classes.get? other ∧
      u.scope.classes.get? other = π.second.classes.get? other

/-- The names of the class are counted. -/
structure Sized (π : Pair) (name : String) (t u : Tables) : Prop extends
    π.InClass name t u where
  size : u.sizes.get? name = t.sizes.get? name

/-- Inside a subroutine, which has a table of its own. -/
structure InBody (π : Pair) (name : String) (t u : Tables) : Prop extends
    π.Sized name t u where
  locals : u.scope.locals = t.scope.locals

section

open Compile

variable {π : Pair} {className : String}

/-!
# Looking names up
-/

/-- The table of a class is the same in both compilers or in neither, or one of them misses
the class. -/
theorem same_classEntry (called owner : Option String) :
    π.Same (π.InBody className) ( classEntry? called owner) := by
  intro c d h
  rw [Scope.run_classEntry, Scope.run_classEntry]
  cases owner with
  | none => exact .error h.toWroteSame
  | some other =>
      rw [Option.bind_some, Option.bind_some]
      by_cases hown : other = className
      · rcases h.tables.table with ⟨table, hfirst, hsecond⟩
        rw [hown, show c.classes.get? className = some table from hfirst,
          show d.classes.get? className = some table from hsecond]
        exact .ok rfl h
      · have hother : π.own ≠ some other := by
          rw [h.tables.own]
          exact fun heq => hown (Option.some.inj heq).symm
        rcases h.tables.others other hown with ⟨hfirst, hsecond⟩
        rw [show c.classes.get? other = _ from hfirst,
          show d.classes.get? other = _ from hsecond]
        cases hknown : π.first.classes.get? other with
        | none =>
            cases hknown' : π.second.classes.get? other with
            | none => exact .error h.toWroteSame
            | some table => exact .first ⟨other, hother, rfl, hknown, by rw [hknown']; rfl⟩
        | some table =>
            cases hknown' : π.second.classes.get? other with
            | none => exact .second ⟨other, hother, rfl, hknown', by rw [hknown]; rfl⟩
            | some table' =>
                have hget := h.tables.compatible other table table' hother hknown hknown'
                exact .ok (congrFun hget called).symm h

theorem same_entry (called : Option String) : π.Same (π.InBody className) ( entry? called) := by
  intro c d h
  rw [Scope.run_entry, Scope.run_entry, show d.locals = c.locals from h.tables.locals]
  split
  · exact .error h.toWroteSame
  · split
    · exact .ok rfl h
    · rw [show c.className = some className from h.tables.firstName,
        show d.className = some className from h.tables.secondName]
      exact same_classEntry called (some className) c d h

theorem same_subroutineEntry (receiver called : Option String) :
    π.Same (π.InBody className) ( subroutineEntry? receiver called) := by
  apply (same_entry called).bind
  intro found
  cases found with
  | some e => exact same_pure (some e)
  | none =>
      apply (same_entry receiver).bind
      intro holder
      cases holder with
      | some e => exact same_classEntry called e.type
      | none => exact same_pure none

theorem same_placeOf {T : Tables -> Tables -> Prop} (e : Option Entry) :
    π.Same T (placeOf e) := by
  cases e with
  | some e => exact same_pure e.place
  | none => exact same_throw _

theorem same_typeOf {T : Tables -> Tables -> Prop} (e : Option Entry) : π.Same T (typeOf e) := by
  cases e with
  | some e => exact same_pure e.type
  | none => exact same_throw _

theorem same_classSize : π.Same (π.InBody className) classSize := by
  intro c d h
  rw [Scope.run_classSize, Scope.run_classSize,
    show c.className = some className from h.tables.firstName,
    show d.className = some className from h.tables.secondName, Option.bind_some, Option.bind_some,
    show d.sizes.get? className = c.sizes.get? className from h.tables.size]
  split
  · exact .ok rfl h
  · exact .error h.toWroteSame

theorem same_callTarget (owner called : String) :
    π.Same (π.InBody className) (callTarget owner called) := by
  apply (same_subroutineEntry _ _).bind
  intro found
  cases found with
  | none => exact same_pure _
  | some e =>
      show π.Same _ (if e.type = some "method" then _ else _)
      split
      · exact (same_entry _).bind fun holder =>
          (same_typeOf holder).bind fun type => same_pure (type, 1)
      · exact same_pure _

theorem same_pushName (used : String) : π.Same (π.InBody className) (pushName used) := by
  apply (same_entry _).bind
  intro found
  cases found with
  | none => exact same_pure ()
  | some e =>
      cases hsegment : e.standing.segment? with
      | some segment =>
          simp only [hsegment]
          exact same_emit rfl
      | none =>
          simp only [hsegment]
          exact same_pure ()

/-!
# Expressions
-/

/-- Routines for the parts of an expression, with a limit. -/
structure SameExpressions (π : Pair) (className : String) (n : Nat) : Prop where
  expression : π.Same (π.InBody className) (expressionWithin n)
  operations : π.Same (π.InBody className) (operationsWithin n)
  term : π.Same (π.InBody className) (termWithin n)
  operand : π.Same (π.InBody className) (operandWithin n)
  name : π.Same (π.InBody className) (nameWithin n)
  arguments : π.Same (π.InBody className) (expressionListWithin n)
  more : π.Same (π.InBody className) (moreExpressionsWithin n)

theorem same_operationsWithin {n : Nat} (ih : π.SameExpressions className n) :
    π.Same (π.InBody className) (operationsWithin (n + 1)) := by
  unfold operationsWithin operator?
  rw [bind_assoc]
  apply same_current.bind
  intro token
  split
  · next sign =>
      cases hbinary : binary? sign with
      | none => exact same_pure ()
      | some instr =>
          have hplain : instr.isPlain = true := by cases sign <;> cases hbinary <;> rfl
          exact (same_takeSymbol _).bind fun _ => ih.term.bind fun _ =>
            (same_emit hplain).bind fun _ => ih.operations
  · exact same_pure ()

theorem same_operandWithin {n : Nat} (ih : π.SameExpressions className n) :
    π.Same (π.InBody className) (operandWithin (n + 1)) := by
  unfold operandWithin
  apply same_current.bind
  intro token
  split
  · exact same_takeInteger.bind fun value => (same_emit rfl).bind fun _ => same_pure none
  · exact same_takeString.bind fun _ => same_pure none
  · next word =>
      split
      · next code hconstant =>
          have hplain : code.all Instr.isPlain = true := by
            cases word <;> cases hconstant <;> rfl
          exact (same_takeKeyword _).bind fun _ => (same_emitAll hplain).bind fun _ =>
            same_pure none
      · exact ih.name
  · next sign =>
      split
      · exact (same_takeSymbol _).bind fun _ => ih.expression.bind fun _ =>
          (same_takeSymbol _).bind fun _ => same_pure none
      · split
        · next instr hunary =>
            have hplain : instr.isPlain = true := by cases sign <;> cases hunary <;> rfl
            exact (same_takeSymbol _).bind fun _ => ih.term.bind fun _ =>
              (same_emit hplain).bind fun _ => same_pure none
        · exact ih.name
  · exact ih.name

theorem same_nameWithin {n : Nat} (ih : π.SameExpressions className n) :
    π.Same (π.InBody className) (nameWithin (n + 1)) := by
  unfold nameWithin
  apply same_takeIdentifier.bind
  intro used
  apply (same_pushName used).bind
  intro _
  apply (same_atSymbol .leftBracket).bind
  intro isElement
  cases isElement with
  | true =>
      exact (same_takeSymbol _).bind fun _ => ih.expression.bind fun _ =>
        (same_emitAll rfl).bind fun _ => (same_takeSymbol _).bind fun _ => same_pure _
  | false =>
      apply (same_atSymbol .leftParen).bind
      intro isCall
      cases isCall with
      | true =>
          exact (same_takeSymbol _).bind fun _ => ih.arguments.bind fun _ =>
            (same_emit rfl).bind fun _ => (same_takeSymbol _).bind fun _ => same_pure _
      | false =>
          apply (same_atSymbol .dot).bind
          intro isDotted
          cases isDotted with
          | true =>
              exact (same_takeSymbol _).bind fun _ => same_takeIdentifier.bind fun called =>
                (same_callTarget used called).bind fun _ => (same_takeSymbol _).bind fun _ =>
                  ih.arguments.bind fun _ => (same_emit rfl).bind fun _ =>
                    (same_takeSymbol _).bind fun _ => same_pure _
          | false => exact same_pure _

theorem same_expressionListWithin {n : Nat} (ih : π.SameExpressions className n) :
    π.Same (π.InBody className) (expressionListWithin (n + 1)) := by
  unfold expressionListWithin
  have hmore : forall first : Nat, π.Same (π.InBody className)
      (moreExpressionsWithin n >>= fun others =>
        leave .expressionList >>= fun _ => pure (first + others)) := by
    intro first
    exact ih.more.bind fun others => (same_leave _).bind fun _ => same_pure (first + others)
  apply (same_enter _).bind
  intro _
  apply (same_atSymbol .rightParen).bind
  intro isEmpty
  cases isEmpty with
  | true => exact hmore 0
  | false => exact ih.expression.bind fun _ => hmore 1

theorem same_moreExpressionsWithin {n : Nat} (ih : π.SameExpressions className n) :
    π.Same (π.InBody className) (moreExpressionsWithin (n + 1)) := by
  unfold moreExpressionsWithin
  apply (same_atSymbol .comma).bind
  intro again
  cases again with
  | true =>
      exact (same_takeSymbol _).bind fun _ => ih.expression.bind fun _ =>
        ih.more.bind fun others => same_pure (others + 1)
  | false => exact same_pure 0

theorem sameExpressions (n : Nat) : π.SameExpressions className n := by
  induction n with
  | zero =>
      constructor <;> exact same_throw _
  | succ n ih =>
      exact
        { expression := (same_enter _).bind fun _ => ih.term.bind fun _ =>
            ih.operations.bind fun _ => same_leave _
          operations := same_operationsWithin ih
          term := (same_enter _).bind fun _ => ih.operand.bind fun used =>
            (same_leave _).bind fun _ => same_pure used
          operand := same_operandWithin ih
          name := same_nameWithin ih
          arguments := same_expressionListWithin ih
          more := same_moreExpressionsWithin ih }

theorem same_expression : π.Same (π.InBody className) expression :=
  same_bound.bind fun n => (sameExpressions n).expression

theorem same_expressionList : π.Same (π.InBody className) expressionList :=
  same_bound.bind fun n => (sameExpressions n).arguments

/-!
# Simple statements
-/

theorem paired_get {T : Tables -> Tables -> Prop} :
    π.Paired T T (π.Alike T) (get : CompileM Compiler) get :=
  fun _ _ h => .ok h h

theorem same_callee (used : String) : π.Same (π.InBody className) (callee used) := by
  apply (same_atSymbol .dot).bind
  intro isDotted
  cases isDotted with
  | true =>
      exact (same_takeSymbol _).bind fun _ => (same_entry _).bind fun _ =>
        same_takeIdentifier.bind fun _ => same_pure _
  | false =>
      apply paired_get.bind
      intro c d h
      rw [show c.className = some className from h.tables.firstName,
        show d.className = some className from h.tables.secondName]
      exact same_pure _

theorem same_doStatement : π.Same (π.InBody className) doStatement := by
  apply (same_enter _).bind
  intro _
  apply (same_takeKeyword _).bind
  intro _
  apply same_takeIdentifier.bind
  intro used
  apply (same_callee used).bind
  intro target
  rcases target with ⟨subroutine, object⟩
  have hcall : π.Same (π.InBody className)
      (takeSymbol .leftParen >>= fun _ => expressionList >>= fun arguments =>
        takeSymbol .rightParen >>= fun _ => takeSymbol .semicolon >>= fun _ =>
          emit (.call subroutine (arguments + (if object.isSome then 1 else 0))) >>= fun _ =>
            emit (.pop (.temp 0)) >>= fun _ => leave .doStatement) :=
    (same_takeSymbol _).bind fun _ => same_expressionList.bind fun _ =>
      (same_takeSymbol _).bind fun _ => (same_takeSymbol _).bind fun _ =>
        (same_emit rfl).bind fun _ => (same_emit rfl).bind fun _ => same_leave _
  cases object with
  | none => exact hcall
  | some place => exact (same_emit rfl).bind fun _ => hcall

theorem same_letStatement : π.Same (π.InBody className) letStatement := by
  apply (same_enter _).bind
  intro _
  apply (same_takeKeyword _).bind
  intro _
  apply same_takeIdentifier.bind
  intro used
  apply (same_entry _).bind
  intro target
  apply (same_atSymbol .leftBracket).bind
  intro isElement
  cases isElement with
  | true =>
      exact (same_takeSymbol _).bind fun _ => same_expression.bind fun _ =>
        (same_placeOf target).bind fun _ => (same_emit rfl).bind fun _ =>
          (same_emit rfl).bind fun _ => (same_takeSymbol _).bind fun _ =>
            (same_takeSymbol _).bind fun _ => same_expression.bind fun _ =>
              (same_takeSymbol _).bind fun _ => (same_emitAll rfl).bind fun _ => same_leave _
  | false =>
      exact (same_takeSymbol _).bind fun _ => same_expression.bind fun _ =>
        (same_takeSymbol _).bind fun _ => (same_placeOf target).bind fun _ =>
          (same_emit rfl).bind fun _ => same_leave _

theorem same_returnStatement : π.Same (π.InBody className) returnStatement := by
  apply (same_enter _).bind
  intro _
  apply (same_takeKeyword _).bind
  intro _
  have hend : π.Same (π.InBody className)
      (takeSymbol .semicolon >>= fun _ => emit .ret >>= fun _ => leave .returnStatement) :=
    (same_takeSymbol _).bind fun _ => (same_emit rfl).bind fun _ => same_leave _
  apply (same_atSymbol .semicolon).bind
  intro isEmpty
  cases isEmpty with
  | true => exact (same_emit rfl).bind fun _ => hend
  | false => exact same_expression.bind fun _ => hend

/-!
# Blocks
-/

/-- Routines for statements, with a limit. -/
structure SameStatements (π : Pair) (className : String) (n : Nat) : Prop where
  block : π.Same (π.InBody className) (statementsWithin n)
  run : π.Same (π.InBody className) (statementRunWithin n)
  loop : π.Same (π.InBody className) (whileWithin n)
  choice : π.Same (π.InBody className) (ifWithin n)

theorem same_statementRunWithin {n : Nat} (ih : π.SameStatements className n) :
    π.Same (π.InBody className) (statementRunWithin (n + 1)) := by
  unfold statementRunWithin
  apply same_current.bind
  intro token
  split
  · exact same_letStatement.bind fun _ => ih.run
  · exact ih.choice.bind fun _ => ih.run
  · exact ih.loop.bind fun _ => ih.run
  · exact same_doStatement.bind fun _ => ih.run
  · exact same_returnStatement.bind fun _ => ih.run
  · exact same_pure ()

/-- Statements between braces. -/
theorem SameStatements.braces {n : Nat} (ih : π.SameStatements className n)
    {T : Tables -> Tables -> Prop} {R : α -> α -> Prop} {rest rest' : CompileM α}
    (hrest : π.Paired (π.InBody className) T R rest rest') :
    π.Paired (π.InBody className) T R
      (takeSymbol .leftBrace >>= fun _ => statementsWithin n >>= fun _ =>
        takeSymbol .rightBrace >>= fun _ => rest)
      (takeSymbol .leftBrace >>= fun _ => statementsWithin n >>= fun _ =>
        takeSymbol .rightBrace >>= fun _ => rest') :=
  (same_takeSymbol _).next fun _ => ih.block.next fun _ => (same_takeSymbol _).next fun _ => hrest

/-- A condition between parentheses. -/
theorem paired_condition {T : Tables -> Tables -> Prop} {R : α -> α -> Prop}
    {rest rest' : CompileM α} (hrest : π.Paired (π.InBody className) T R rest rest') :
    π.Paired (π.InBody className) T R
      (takeSymbol .leftParen >>= fun _ => expression >>= fun _ =>
        takeSymbol .rightParen >>= fun _ => rest)
      (takeSymbol .leftParen >>= fun _ => expression >>= fun _ =>
        takeSymbol .rightParen >>= fun _ => rest') :=
  (same_takeSymbol _).next fun _ => same_expression.next fun _ =>
    (same_takeSymbol _).next fun _ => hrest

theorem same_whileWithin {n : Nat} (ih : π.SameStatements className n) :
    π.Same (π.InBody className) (whileWithin (n + 1)) := by
  unfold whileWithin
  apply (same_enter _).next
  intro _
  apply (same_takeKeyword _).next
  intro _
  apply paired_drawLabel.bind
  intro top top' htop
  apply paired_drawLabel.bind
  intro exit exit' hexit
  apply htop.paired_label.next
  intro _
  apply paired_condition
  have hleave : π.Paired (π.InBody className) (π.InBody className) Eq
      (emitAll [.operate .not, .ifGoto exit]) (emitAll [.operate .not, .ifGoto exit']) :=
    (same_emit rfl).next fun _ => hexit.paired_ifGoto.next fun _ => same_pure ()
  have hagain : π.Paired (π.InBody className) (π.InBody className) Eq
      (emitAll [.goto top, .label exit]) (emitAll [.goto top', .label exit']) :=
    htop.paired_goto.next fun _ => hexit.paired_label.next fun _ => same_pure ()
  exact hleave.next fun _ => ih.braces (hagain.next fun _ => same_leave _)

theorem same_ifWithin {n : Nat} (ih : π.SameStatements className n) :
    π.Same (π.InBody className) (ifWithin (n + 1)) := by
  unfold ifWithin
  apply (same_enter _).next
  intro _
  apply (same_takeKeyword _).next
  intro _
  apply paired_drawLabel.bind
  intro whenTrue whenTrue' htrue
  apply paired_drawLabel.bind
  intro whenFalse whenFalse' hfalse
  apply paired_drawLabel.bind
  intro done done' hdone
  apply paired_condition
  have hjumps : π.Paired (π.InBody className) (π.InBody className) Eq
      (emitAll [.ifGoto whenTrue, .goto whenFalse, .label whenTrue])
      (emitAll [.ifGoto whenTrue', .goto whenFalse', .label whenTrue']) :=
    htrue.paired_ifGoto.next fun _ => hfalse.paired_goto.next fun _ =>
      htrue.paired_label.next fun _ => same_pure ()
  have hskip : π.Paired (π.InBody className) (π.InBody className) Eq
      (emitAll [.goto done, .label whenFalse]) (emitAll [.goto done', .label whenFalse']) :=
    hdone.paired_goto.next fun _ => hfalse.paired_label.next fun _ => same_pure ()
  have hend : π.Paired (π.InBody className) (π.InBody className) Eq
      (emit (.label done) >>= fun _ => leave .ifStatement)
      (emit (.label done') >>= fun _ => leave .ifStatement) :=
    hdone.paired_label.next fun _ => same_leave _
  apply hjumps.next
  intro _
  apply ih.braces
  apply hskip.next
  intro _
  apply (same_atKeyword _).next
  intro hasElse
  cases hasElse with
  | true => exact (same_takeKeyword _).next fun _ => ih.braces hend
  | false => exact hend

theorem sameStatements (n : Nat) : π.SameStatements className n := by
  induction n with
  | zero =>
      constructor <;> exact same_throw _
  | succ n ih =>
      exact
        { block := (same_enter _).bind fun _ => ih.run.bind fun _ => same_leave _
          run := same_statementRunWithin ih
          loop := same_whileWithin ih
          choice := same_ifWithin ih }

theorem same_statements : π.Same (π.InBody className) statements :=
  same_bound.bind fun n => (sameStatements n).block

end

end Pair
end Jack
