import Jack.Proofs.Calls.Basic
import Jack.Proofs.Recognition.Expression

/-!
# Routines as sequences of calls

Every routine of the compiler is a sequence of calls that gives the frame back as it found
it.  The routines are followed step by step; those that call each other are followed
together, by induction on their limit.
-/

namespace Jack
namespace Compile

/-!
# Taking tokens
-/

section

variable {rest : Option Token -> CompileM α}

/-- What is done next may depend on the current token. -/
theorem keeps_of_current (h : forall (c : Compiler) (f : Frame), c.treeOpen = true ->
    c.Follows f (rest c.scanner.current) fun _ => f) : Keeps (current >>= rest) := by
  intro f c hopen
  exact (h c f hopen).congr (run_bind_of_ok (run_current c))

end

theorem keeps_takeKeyword (words : List Keyword) : Keeps (takeKeyword words) := by
  apply keeps_of_current
  intro c f hopen
  split
  · next word hcurrent =>
      split
      · exact (follows_take hcurrent f).bind hopen fun _ c' _ hopen' => keeps_pure word f c' hopen'
      · exact keeps_throw _ f c hopen
  · exact keeps_unexpectedKind _ f c hopen

theorem keeps_takeSymbol (sign : Symbol) : Keeps (takeSymbol sign) := by
  apply keeps_of_current
  intro c f hopen
  split
  · next found hcurrent =>
      split
      · exact follows_take hcurrent f
      · exact keeps_throw _ f c hopen
  · exact keeps_unexpectedKind _ f c hopen

theorem keeps_takeIdentifier : Keeps takeIdentifier := by
  apply keeps_of_current
  intro c f hopen
  split
  · next name hcurrent =>
      exact (follows_take hcurrent f).bind hopen fun _ c' _ hopen' => keeps_pure name f c' hopen'
  · exact keeps_unexpectedKind _ f c hopen

theorem keeps_takeInteger : Keeps takeInteger := by
  apply keeps_of_current
  intro c f hopen
  split
  · next digits hcurrent =>
      exact (follows_take hcurrent f).bind hopen fun _ c' _ hopen' => keeps_pure _ f c' hopen'
  · exact keeps_unexpectedKind _ f c hopen

theorem keeps_emitAll {code : List Instr} (h : definedLabels code = []) : Keeps (emitAll code) := by
  induction code with
  | nil => exact keeps_pure ()
  | cons instr rest ih =>
      rcases definedLabels_cons_eq_nil h with ⟨hfirst, hrest⟩
      exact (keeps_emit hfirst).bind fun _ => ih hrest

theorem keeps_takeString : Keeps takeString := by
  apply keeps_of_current
  intro c f hopen
  split
  · next text hcurrent =>
      have hplain := Syntax.plain_stringCode (Text.escape text)
      apply (keeps_emitAll (definedLabels_of_plain hplain) f c hopen).bind hopen
      intro _ c1 hrun hopen1
      have hscanner : c1.scanner = c.scanner :=
        Scanner.takes_nil_iff.mp (yields_emitAll hrun).takes
      rw [← hscanner] at hcurrent
      exact (follows_take hcurrent f).bind hopen1 fun _ c' _ hopen' => keeps_pure _ f c' hopen'
  · exact keeps_unexpectedKind _ f c hopen

theorem Keeps.map {step : CompileM α} (g : α -> β) (h : Keeps step) : Keeps (g <$> step) := by
  rw [map_eq_pure_bind]
  exact h.bind fun a => keeps_pure (g a)

theorem keeps_takeType : Keeps takeType := by
  apply keeps_current.bind
  intro token
  split
  · exact keeps_takeIdentifier
  · exact (keeps_takeKeyword _).map Keyword.word

/-!
# Repetition
-/

theorem keeps_repeatWithin {applies : CompileM Bool} {step : CompileM α} (happlies : Keeps applies)
    (hstep : Keeps step) (n : Nat) : Keeps (repeatWithin applies step n) := by
  induction n with
  | zero => exact keeps_throw _
  | succ n ih =>
      apply happlies.bind
      intro again
      cases again with
      | false => exact keeps_pure []
      | true => exact hstep.bind fun first => ih.bind fun others => keeps_pure (first :: others)

theorem keeps_repeatWhile {applies : CompileM Bool} {step : CompileM α} (happlies : Keeps applies)
    (hstep : Keeps step) : Keeps (repeatWhile applies step) :=
  keeps_bound.bind fun n => keeps_repeatWithin happlies hstep n

/-!
# Looking names up
-/

theorem keeps_classEntry (name className : Option String) :
    Keeps ( classEntry? name className) := by
  apply keeps_of_same
  intro c
  rw [Scope.run_classEntry]
  split
  · exact Or.inl ⟨_, rfl⟩
  · exact Or.inr ⟨_, rfl⟩

theorem keeps_entry (name : Option String) : Keeps ( entry? name) := by
  apply keeps_of_same
  intro c
  rw [Scope.run_entry]
  split
  · exact Or.inr ⟨_, rfl⟩
  · split
    · exact Or.inl ⟨_, rfl⟩
    · rw [Scope.run_classEntry]
      split
      · exact Or.inl ⟨_, rfl⟩
      · exact Or.inr ⟨_, rfl⟩

theorem keeps_subroutineEntry (receiver subroutine : Option String) :
    Keeps ( subroutineEntry? receiver subroutine) := by
  apply (keeps_entry subroutine).bind
  intro found
  cases found with
  | some e => exact keeps_pure (some e)
  | none =>
      apply (keeps_entry receiver).bind
      intro holder
      cases holder with
      | some e => exact keeps_classEntry subroutine e.type
      | none => exact keeps_pure none

theorem keeps_placeOf (e : Option Entry) : Keeps (placeOf e) := by
  cases e with
  | some e => exact keeps_pure e.place
  | none => exact keeps_throw _

theorem keeps_typeOf (e : Option Entry) : Keeps (typeOf e) := by
  cases e with
  | some e => exact keeps_pure e.type
  | none => exact keeps_throw _

theorem keeps_classSize : Keeps classSize := by
  apply keeps_of_same
  intro c
  rw [Scope.run_classSize]
  split
  · exact Or.inl ⟨_, rfl⟩
  · exact Or.inr ⟨_, rfl⟩

theorem keeps_callTarget (name subroutine : String) : Keeps (callTarget name subroutine) := by
  apply (keeps_subroutineEntry _ _).bind
  intro found
  cases found with
  | none => exact keeps_pure _
  | some e =>
      show Keeps (if e.type = some "method" then _ else _)
      split
      · exact (keeps_entry _).bind fun holder =>
          (keeps_typeOf holder).bind fun type => keeps_pure (type, 1)
      · exact keeps_pure _

theorem keeps_pushName (name : String) : Keeps (pushName name) := by
  apply (keeps_entry _).bind
  intro found
  cases found with
  | none => exact keeps_pure ()
  | some e =>
      cases hsegment : e.standing.segment? with
      | some segment =>
          simp only [hsegment]
          exact keeps_emit rfl
      | none =>
          simp only [hsegment]
          exact keeps_pure ()

/-!
# Expressions
-/

/-- Routines for the parts of an expression, with a limit. -/
structure KeepsExpressions (n : Nat) : Prop where
  expression : Keeps (expressionWithin n)
  operations : Keeps (operationsWithin n)
  term : Keeps (termWithin n)
  operand : Keeps (operandWithin n)
  name : Keeps (nameWithin n)
  arguments : Keeps (expressionListWithin n)
  more : Keeps (moreExpressionsWithin n)

/-- A construct is opened, its parts are compiled, and it is closed. -/
theorem Keeps.enclosed {parts : CompileM α} {rest : α -> CompileM β} (nonterminal : Nonterminal)
    (hparts : Keeps parts) (hrest : forall a f, Traced (f.push nonterminal) (rest a) fun _ => f) :
    Keeps (enter nonterminal >>= fun _ => parts >>= rest) := by
  intro f
  exact (traced_enter f nonterminal).bind fun _ => (hparts _).bind fun a => hrest a f

theorem keeps_expressionWithin {n : Nat} (ih : KeepsExpressions n) :
    Keeps (expressionWithin (n + 1)) := by
  unfold expressionWithin
  apply Keeps.enclosed .expression ih.term
  intro _ f
  exact (ih.operations _).bind fun _ => traced_leave f .expression

theorem keeps_operationsWithin {n : Nat} (ih : KeepsExpressions n) :
    Keeps (operationsWithin (n + 1)) := by
  intro f c hopen
  unfold operationsWithin
  rcases run_operator c with ⟨found, hoperator, hbinary⟩
  apply Compiler.Follows.congr (run_bind_of_ok hoperator)
  cases found with
  | none => exact keeps_pure () f c hopen
  | some found =>
      rcases found with ⟨sign, instr⟩
      rcases hbinary sign instr rfl with ⟨op, _, rfl⟩
      have hop : definedLabels [op.code] = [] := by cases op <;> rfl
      have hrest : Keeps (takeSymbol sign >>= fun _ => termWithin n >>= fun _ =>
          emit op.code >>= fun _ => operationsWithin n) :=
        (keeps_takeSymbol sign).bind fun _ => ih.term.bind fun _ =>
          (keeps_emit hop).bind fun _ => ih.operations
      exact hrest f c hopen

theorem keeps_termWithin {n : Nat} (ih : KeepsExpressions n) : Keeps (termWithin (n + 1)) := by
  unfold termWithin
  apply Keeps.enclosed .term ih.operand
  intro name f
  exact (traced_leave f .term).bind fun _ => keeps_pure name f

theorem keeps_operandWithin {n : Nat} (ih : KeepsExpressions n) :
    Keeps (operandWithin (n + 1)) := by
  unfold operandWithin
  apply keeps_current.bind
  intro token
  split
  · exact keeps_takeInteger.bind fun value => (keeps_emit rfl).bind fun _ => keeps_pure none
  · exact keeps_takeString.bind fun _ => keeps_pure none
  · next word =>
      split
      · next code hconstant =>
          have hcode : definedLabels code = [] := by
            cases word <;> cases hconstant <;> rfl
          exact (keeps_takeKeyword _).bind fun _ => (keeps_emitAll hcode).bind fun _ =>
            keeps_pure none
      · exact ih.name
  · next sign =>
      split
      · exact (keeps_takeSymbol _).bind fun _ => ih.expression.bind fun _ =>
          (keeps_takeSymbol _).bind fun _ => keeps_pure none
      · split
        · next instr hunary =>
            have hcode : definedLabels [instr] = [] := by
              cases sign <;> cases hunary <;> rfl
            exact (keeps_takeSymbol _).bind fun _ => ih.term.bind fun _ =>
              (keeps_emit hcode).bind fun _ => keeps_pure none
        · exact ih.name
  · exact ih.name

theorem keeps_nameWithin {n : Nat} (ih : KeepsExpressions n) : Keeps (nameWithin (n + 1)) := by
  unfold nameWithin
  apply keeps_takeIdentifier.bind
  intro name
  apply (keeps_pushName name).bind
  intro _
  apply (keeps_atSymbol .leftBracket).bind
  intro isElement
  cases isElement with
  | true =>
      exact (keeps_takeSymbol _).bind fun _ => ih.expression.bind fun _ =>
        (keeps_emitAll rfl).bind fun _ => (keeps_takeSymbol _).bind fun _ => keeps_pure _
  | false =>
      apply (keeps_atSymbol .leftParen).bind
      intro isCall
      cases isCall with
      | true =>
          exact (keeps_takeSymbol _).bind fun _ => ih.arguments.bind fun _ =>
            (keeps_emit rfl).bind fun _ => (keeps_takeSymbol _).bind fun _ => keeps_pure _
      | false =>
          apply (keeps_atSymbol .dot).bind
          intro isDotted
          cases isDotted with
          | true =>
              exact (keeps_takeSymbol _).bind fun _ => keeps_takeIdentifier.bind fun subroutine =>
                (keeps_callTarget name subroutine).bind fun _ => (keeps_takeSymbol _).bind fun _ =>
                  ih.arguments.bind fun _ => (keeps_emit rfl).bind fun _ =>
                    (keeps_takeSymbol _).bind fun _ => keeps_pure _
          | false => exact keeps_pure _

theorem keeps_expressionListWithin {n : Nat} (ih : KeepsExpressions n) :
    Keeps (expressionListWithin (n + 1)) := by
  unfold expressionListWithin
  have hmore : forall (first : Nat) (f : Frame), Traced (f.push .expressionList)
      (moreExpressionsWithin n >>= fun others =>
        leave .expressionList >>= fun _ => pure (first + others)) fun _ => f := by
    intro first f
    exact (ih.more _).bind fun others =>
      (traced_leave f .expressionList).bind fun _ => keeps_pure (first + others) f
  intro f
  apply (traced_enter f .expressionList).bind
  intro _
  apply (keeps_atSymbol .rightParen _).bind
  intro isEmpty
  cases isEmpty with
  | true => exact hmore 0 f
  | false => exact (ih.expression _).bind fun _ => hmore 1 f

theorem keeps_moreExpressionsWithin {n : Nat} (ih : KeepsExpressions n) :
    Keeps (moreExpressionsWithin (n + 1)) := by
  unfold moreExpressionsWithin
  apply (keeps_atSymbol .comma).bind
  intro again
  cases again with
  | true =>
      exact (keeps_takeSymbol _).bind fun _ => ih.expression.bind fun _ =>
        ih.more.bind fun others => keeps_pure (others + 1)
  | false => exact keeps_pure 0

theorem keepsExpressions (n : Nat) : KeepsExpressions n := by
  induction n with
  | zero =>
      constructor <;> exact keeps_throw _
  | succ n ih =>
      exact
        { expression := keeps_expressionWithin ih
          operations := keeps_operationsWithin ih
          term := keeps_termWithin ih
          operand := keeps_operandWithin ih
          name := keeps_nameWithin ih
          arguments := keeps_expressionListWithin ih
          more := keeps_moreExpressionsWithin ih }

theorem keeps_expression : Keeps expression :=
  keeps_bound.bind fun n => (keepsExpressions n).expression

theorem keeps_expressionList : Keeps expressionList :=
  keeps_bound.bind fun n => (keepsExpressions n).arguments

/-!
# Simple statements
-/

theorem keeps_callee (name : String) : Keeps (callee name) := by
  apply (keeps_atSymbol .dot).bind
  intro isDotted
  cases isDotted with
  | true =>
      exact (keeps_takeSymbol _).bind fun _ => (keeps_entry _).bind fun _ =>
        keeps_takeIdentifier.bind fun _ => keeps_pure _
  | false => exact keeps_get.bind fun _ => keeps_pure _

theorem keeps_doStatement : Keeps doStatement := by
  apply Keeps.enclosed .doStatement (keeps_takeKeyword _)
  intro _ f
  apply (keeps_takeIdentifier _).bind
  intro name
  apply (keeps_callee name _).bind
  intro target
  rcases target with ⟨subroutine, object⟩
  have hcall : Traced (f.push .doStatement)
      (takeSymbol .leftParen >>= fun _ => expressionList >>= fun arguments =>
        takeSymbol .rightParen >>= fun _ => takeSymbol .semicolon >>= fun _ =>
          emit (.call subroutine (arguments + (if object.isSome then 1 else 0))) >>= fun _ =>
            emit (.pop (.temp 0)) >>= fun _ => leave .doStatement) fun _ => f :=
    (keeps_takeSymbol _ _).bind fun _ => (keeps_expressionList _).bind fun _ =>
      (keeps_takeSymbol _ _).bind fun _ => (keeps_takeSymbol _ _).bind fun _ =>
        (keeps_emit rfl _).bind fun _ => (keeps_emit rfl _).bind fun _ =>
          traced_leave f .doStatement
  cases object with
  | none => exact hcall
  | some place => exact (keeps_emit rfl _).bind fun _ => hcall

theorem keeps_letStatement : Keeps letStatement := by
  apply Keeps.enclosed .letStatement (keeps_takeKeyword _)
  intro _ f
  apply (keeps_takeIdentifier _).bind
  intro name
  apply (keeps_entry _ _).bind
  intro target
  apply (keeps_atSymbol .leftBracket _).bind
  intro isElement
  cases isElement with
  | true =>
      exact (keeps_takeSymbol _ _).bind fun _ => (keeps_expression _).bind fun _ =>
        (keeps_placeOf target _).bind fun _ => (keeps_emit rfl _).bind fun _ =>
          (keeps_emit rfl _).bind fun _ => (keeps_takeSymbol _ _).bind fun _ =>
            (keeps_takeSymbol _ _).bind fun _ => (keeps_expression _).bind fun _ =>
              (keeps_takeSymbol _ _).bind fun _ => (keeps_emitAll rfl _).bind fun _ =>
                traced_leave f .letStatement
  | false =>
      exact (keeps_takeSymbol _ _).bind fun _ => (keeps_expression _).bind fun _ =>
        (keeps_takeSymbol _ _).bind fun _ => (keeps_placeOf target _).bind fun _ =>
          (keeps_emit rfl _).bind fun _ => traced_leave f .letStatement

theorem keeps_returnStatement : Keeps returnStatement := by
  apply Keeps.enclosed .returnStatement (keeps_takeKeyword _)
  intro _ f
  have hend : Traced (f.push .returnStatement)
      (takeSymbol .semicolon >>= fun _ => emit .ret >>= fun _ => leave .returnStatement)
      fun _ => f :=
    (keeps_takeSymbol _ _).bind fun _ => (keeps_emit rfl _).bind fun _ =>
      traced_leave f .returnStatement
  apply (keeps_atSymbol .semicolon _).bind
  intro isEmpty
  cases isEmpty with
  | true => exact (keeps_emit rfl _).bind fun _ => hend
  | false => exact (keeps_expression _).bind fun _ => hend

/-!
# Blocks
-/

/-- Code ends with the definition of a pending label. -/
theorem traced_emitAll_label {f : Frame} {number : Nat} {before after : List Nat}
    (h : f.pending = before ++ number :: after) {code : List Instr}
    (hcode : definedLabels code = []) :
    Traced f (emitAll (code ++ [.label number])) fun _ =>
      { f with pending := before ++ after } := by
  induction code with
  | nil => exact (traced_define h).bind fun _ => keeps_pure () _
  | cons instr rest ih =>
      rcases definedLabels_cons_eq_nil hcode with ⟨hfirst, hrest⟩
      exact (keeps_emit hfirst f).bind fun _ => ih hrest

/-- Routines for statements, with a limit. -/
structure KeepsStatements (n : Nat) : Prop where
  block : Keeps (statementsWithin n)
  run : Keeps (statementRunWithin n)
  loop : Keeps (whileWithin n)
  choice : Keeps (ifWithin n)

theorem keeps_statementRunWithin {n : Nat} (ih : KeepsStatements n) :
    Keeps (statementRunWithin (n + 1)) := by
  unfold statementRunWithin
  apply keeps_current.bind
  intro token
  split
  · exact keeps_letStatement.bind fun _ => ih.run
  · exact ih.choice.bind fun _ => ih.run
  · exact ih.loop.bind fun _ => ih.run
  · exact keeps_doStatement.bind fun _ => ih.run
  · exact keeps_returnStatement.bind fun _ => ih.run
  · exact keeps_pure ()

/-- Statements between braces. -/
theorem KeepsStatements.braces {n : Nat} (ih : KeepsStatements n) {f : Frame}
    {rest : CompileM α} {next : α -> Frame} (hrest : Traced f rest next) :
    Traced f (takeSymbol .leftBrace >>= fun _ => statementsWithin n >>= fun _ =>
      takeSymbol .rightBrace >>= fun _ => rest) next :=
  (keeps_takeSymbol _ f).bind fun _ => (ih.block f).bind fun _ =>
    (keeps_takeSymbol _ f).bind fun _ => hrest

theorem keeps_whileWithin {n : Nat} (ih : KeepsStatements n) : Keeps (whileWithin (n + 1)) := by
  unfold whileWithin
  apply Keeps.enclosed .whileStatement (keeps_takeKeyword _)
  intro _ f
  apply (traced_drawLabel _).bind
  intro top
  apply (traced_drawLabel _).bind
  intro exit
  have htop : (((f.push .whileStatement).draw top).draw exit).pending =
      [exit] ++ top :: f.pending := rfl
  apply (traced_define htop).bind
  intro _
  apply (keeps_takeSymbol _ _).bind
  intro _
  apply (keeps_expression _).bind
  intro _
  apply (keeps_takeSymbol _ _).bind
  intro _
  apply (keeps_emitAll rfl _).bind
  intro _
  apply ih.braces
  have hexit : (((f.push .whileStatement).draw exit)).pending = [] ++ exit :: f.pending := rfl
  have hgoto : definedLabels [.goto top] = [] := rfl
  exact (traced_emitAll_label hexit hgoto).bind fun _ => traced_leave f .whileStatement

theorem keeps_ifWithin {n : Nat} (ih : KeepsStatements n) : Keeps (ifWithin (n + 1)) := by
  unfold ifWithin
  apply Keeps.enclosed .ifStatement (keeps_takeKeyword _)
  intro _ f
  apply (traced_drawLabel _).bind
  intro whenTrue
  apply (traced_drawLabel _).bind
  intro whenFalse
  apply (traced_drawLabel _).bind
  intro done
  apply (keeps_takeSymbol _ _).bind
  intro _
  apply (keeps_expression _).bind
  intro _
  apply (keeps_takeSymbol _ _).bind
  intro _
  have htrue : ((((f.push .ifStatement).draw whenTrue).draw whenFalse).draw done).pending =
      [done, whenFalse] ++ whenTrue :: f.pending := rfl
  have hjumps : definedLabels [.ifGoto whenTrue, .goto whenFalse] = [] := rfl
  apply (traced_emitAll_label htrue hjumps).bind
  intro _
  apply ih.braces
  have hfalse : (((f.push .ifStatement).draw whenFalse).draw done).pending =
      [done] ++ whenFalse :: f.pending := rfl
  have hgoto : definedLabels [.goto done] = [] := rfl
  apply (traced_emitAll_label hfalse hgoto).bind
  intro _
  have hdone : ((f.push .ifStatement).draw done).pending = [] ++ done :: f.pending := rfl
  have hend : Traced ((f.push .ifStatement).draw done)
      (emit (.label done) >>= fun _ => leave .ifStatement) fun _ => f :=
    (traced_define hdone).bind fun _ => traced_leave f .ifStatement
  apply (keeps_atKeyword _ _).bind
  intro hasElse
  cases hasElse with
  | true => exact (keeps_takeKeyword _ _).bind fun _ => ih.braces hend
  | false => exact hend

theorem keepsStatements (n : Nat) : KeepsStatements n := by
  induction n with
  | zero =>
      constructor <;> exact keeps_throw _
  | succ n ih =>
      exact
        { block := ih.run.enclosed .statements fun _ f => traced_leave f .statements
          run := keeps_statementRunWithin ih
          loop := keeps_whileWithin ih
          choice := keeps_ifWithin ih }

theorem keeps_statements : Keeps statements :=
  keeps_bound.bind fun n => (keepsStatements n).block

/-!
# Declarations
-/

theorem keeps_useClass (name : Option String) : Keeps (useClass name) :=
  keeps_of_tables fun c =>
    Or.inl ⟨(), { c.tables with scope := { c.scope with className := name } }, rfl⟩

theorem keeps_useSubroutine (name : Option String) : Keeps (useSubroutine name) :=
  keeps_of_tables fun c => Or.inl ⟨(), { c.tables with subroutineName := name }, rfl⟩

theorem keeps_openClass (name : String) : Keeps (openClass name) :=
  keeps_of_tables fun c =>
    Or.inl ⟨(), { c.tables with scope := { c.scope with classes := c.classes.set name {} } }, rfl⟩

theorem keeps_openLocals : Keeps openLocals :=
  keeps_of_tables fun c =>
    Or.inl ⟨(), { c.tables with scope := { c.scope with locals := some {} } }, rfl⟩

theorem keeps_reserveObject : Keeps reserveObject :=
  keeps_of_tables fun c =>
    Or.inl ⟨(), { c.tables with
      scope := { c.scope with locals := c.locals.map Table.reserveArgument } }, rfl⟩

theorem keeps_setSize (name : String) (size : Nat) : Keeps (setSize name size) :=
  keeps_of_tables fun c =>
    Or.inl ⟨(), { c.tables with sizes := c.sizes.set name size }, rfl⟩

theorem keeps_fileLocally (e : Entry) : Keeps (fileLocally e) := by
  apply keeps_of_tables
  intro c
  rw [run_fileLocally]
  split
  · next table _ =>
      exact Or.inl ⟨(), { c.tables with
        scope := { c.scope with locals := some (table.insert e) } }, rfl⟩
  · exact Or.inr ⟨_, rfl⟩

theorem keeps_fileInClass (e : Entry) : Keeps (fileInClass e) := by
  apply keeps_of_tables
  intro c
  rw [run_fileInClass]
  split
  · exact Or.inr ⟨_, rfl⟩
  · next name _ =>
      split
      · next table _ =>
          exact Or.inl ⟨(), { c.tables with
            scope := { c.scope with classes := c.classes.set name (table.insert e) } }, rfl⟩
      · exact Or.inr ⟨_, rfl⟩

theorem keeps_declare (category : Category) (type : Option String) :
    Keeps (declare category type) := by
  apply keeps_takeIdentifier.bind
  intro name
  cases category with
  | className => exact (keeps_useClass _).bind fun _ => keeps_pure name
  | subroutine =>
      exact (keeps_useSubroutine _).bind fun _ => (keeps_fileInClass _).bind fun _ =>
        keeps_pure name
  | stored storage =>
      cases storage with
      | var => exact (keeps_fileLocally _).bind fun _ => keeps_pure name
      | argument => exact (keeps_fileLocally _).bind fun _ => keeps_pure name
      | static => exact (keeps_fileInClass _).bind fun _ => keeps_pure name
      | field => exact (keeps_fileInClass _).bind fun _ => keeps_pure name

theorem keeps_declareNames (category : Category) : Keeps (declareNames category) := by
  apply keeps_takeType.bind
  intro type
  apply (keeps_declare category _).bind
  intro _
  have hmore : Keeps (takeSymbol .comma >>= fun _ => declare category (some type)) :=
    (keeps_takeSymbol _).bind fun _ => keeps_declare category _
  exact (keeps_repeatWhile (keeps_atSymbol _) hmore).bind fun _ =>
    (keeps_takeSymbol _).bind fun _ => keeps_pure _

theorem keeps_classVarDec : Keeps classVarDec := by
  apply Keeps.enclosed .classVarDec keeps_currentKeyword
  intro _ f
  exact (keeps_takeKeyword _ _).bind fun _ => (keeps_declareNames _ _).bind fun names =>
    (traced_leave f .classVarDec).bind fun _ => keeps_pure names f

theorem keeps_varDec : Keeps varDec := by
  apply Keeps.enclosed .varDec (keeps_takeKeyword _)
  intro _ f
  exact (keeps_declareNames _ _).bind fun names =>
    (traced_leave f .varDec).bind fun _ => keeps_pure names f

/-!
# Subroutines and classes
-/

theorem keeps_parameter : Keeps parameter :=
  keeps_takeType.bind fun _ => (keeps_declare _ _).bind fun _ => keeps_pure ()

theorem keeps_parameterList : Keeps parameterList := by
  have hmore : Keeps (takeSymbol .comma >>= fun _ => parameter) :=
    (keeps_takeSymbol _).bind fun _ => keeps_parameter
  have hend : forall (first : Nat) (f : Frame), Traced (f.push .parameterList)
      (repeatWhile (atSymbol .comma) (takeSymbol .comma >>= fun _ => parameter) >>= fun others =>
        leave .parameterList >>= fun _ => pure (first + others.length)) fun _ => f := by
    intro first f
    exact (keeps_repeatWhile (keeps_atSymbol _) hmore _).bind fun _ =>
      (traced_leave f .parameterList).bind fun _ => keeps_pure _ f
  apply Keeps.enclosed .parameterList (keeps_atSymbol .rightParen)
  intro isEmpty f
  cases isEmpty with
  | true => exact hend 0 f
  | false => exact (keeps_parameter _).bind fun _ => hend 1 f

theorem keeps_prologue (type : Option String) : Keeps (prologue type) := by
  unfold prologue
  split
  · exact keeps_classSize.bind fun _ => keeps_emitAll rfl
  · split
    · exact keeps_emitAll rfl
    · exact keeps_pure ()

theorem keeps_subroutineBody : Keeps subroutineBody := by
  apply Keeps.enclosed .subroutineBody (keeps_takeSymbol _)
  intro _ f
  exact (keeps_repeatWhile (keeps_atKeyword _) keeps_varDec _).bind fun _ =>
    (keeps_get _).bind fun c => (keeps_emit rfl _).bind fun _ =>
      (keeps_entry c.subroutineName _).bind fun e => (keeps_typeOf e _).bind fun type =>
        (keeps_prologue type _).bind fun _ => (keeps_statements _).bind fun _ =>
          (keeps_takeSymbol _ _).bind fun _ => traced_leave f .subroutineBody

theorem keeps_takeReturnType : Keeps takeReturnType := by
  apply (keeps_atKeyword _).bind
  intro isVoid
  cases isVoid with
  | true => exact (keeps_takeKeyword _).bind fun _ => keeps_pure ()
  | false => exact keeps_takeType.bind fun _ => keeps_pure ()

theorem keeps_subroutine : Keeps subroutine := by
  apply Keeps.enclosed .subroutineDec keeps_openLocals
  intro _ f
  apply (keeps_currentKeyword _).bind
  intro _
  apply (keeps_takeKeyword _ _).bind
  intro word
  apply (keeps_takeReturnType _).bind
  intro _
  apply (keeps_declare _ _ _).bind
  intro _
  have hrest : Traced (f.push .subroutineDec)
      (takeSymbol .leftParen >>= fun _ => parameterList >>= fun _ =>
        takeSymbol .rightParen >>= fun _ => subroutineBody >>= fun _ => leave .subroutineDec)
      fun _ => f :=
    (keeps_takeSymbol _ _).bind fun _ => (keeps_parameterList _).bind fun _ =>
      (keeps_takeSymbol _ _).bind fun _ => (keeps_subroutineBody _).bind fun _ =>
        traced_leave f .subroutineDec
  show Traced _ (if word = .method then _ else _) _
  split
  · exact (keeps_reserveObject _).bind fun _ => hrest
  · exact hrest

theorem traced_classFront (f : Frame) : Traced f classFront fun _ => f.push .«class» := by
  apply (traced_enter f .«class»).bind
  intro _
  exact (keeps_takeKeyword _ _).bind fun _ => (keeps_declare _ _ _).bind fun name =>
    (keeps_openClass name _).bind fun _ => (keeps_takeSymbol _ _).bind fun _ =>
      (keeps_repeatWhile (keeps_atKeyword _) keeps_classVarDec _).bind fun _ =>
        (keeps_setSize name _ _).bind fun _ =>
          (keeps_repeatWhile (keeps_atKeyword _) keeps_subroutine _).bind fun _ =>
            keeps_pure () _

/-- A class with its last brace. -/
theorem keeps_classTree : Keeps classTree := by
  intro f
  exact (traced_classFront f).bind fun _ => (keeps_takeSymbol _ _).bind fun _ =>
    traced_leave f .«class»

/-- Compiling a class is a sequence of calls, and one more call that ends it.  All
constructs are closed if it succeeds. -/
theorem exists_calls_classUnit {c : Compiler} (hopen : c.treeOpen = true) :
    exists (calls : List Call) (d : Compiler) (g : Frame) (last : Call) (leaf : Option Token),
      c.Calls ⟨[], []⟩ calls d g ∧
      (Call.performAll (calls ++ [last])).run c = classUnit.run c ∧
      d.Ends leaf (c.after classUnit) ∧
      forall c', classUnit.run c = .ok () c' -> g.opened = [] := by
  have hfollows := keeps_classTree ⟨[], []⟩ c hopen
  cases hrun : classTree.run c with
  | ok _ d =>
      rcases hfollows.ok () d hrun with ⟨calls, hcalls⟩
      have hclass : classUnit.run c = .ok () { d with treeOpen := false } := by
        rw [classUnit_eq, run_bind_of_ok hrun]
        rfl
      refine ⟨calls, d, ⟨[], []⟩, .close, none, hcalls, (hcalls.run_last .close).trans hclass.symm,
        ?_, fun _ _ => rfl⟩
      unfold Compiler.after
      rw [hclass]
      exact Compiler.ends_of_same rfl rfl rfl rfl
  | error fault c' =>
      rcases hfollows.error fault c' hrun with ⟨calls, d, g, last, hcalls, hlast, herror⟩
      have hclass : classUnit.run c = .error fault c' := by
        rw [classUnit_eq]
        exact run_bind_eq_error_iff.mpr (Or.inl hrun)
      have hends : exists leaf, d.Ends leaf c' := by
        rcases hlast with rfl | rfl
        · rcases Compiler.exists_ends_of_take_error (hcalls.treeOpen.trans hopen) herror with
            ⟨token, hends⟩
          exact ⟨some token, hends⟩
        · cases herror
          exact ⟨none, Compiler.ends_of_same rfl rfl rfl rfl⟩
      rcases hends with ⟨leaf, hends⟩
      have hrun : (Call.performAll (calls ++ [last])).run c = classUnit.run c := by
        rw [hcalls.run_last, herror, hclass]
      refine ⟨calls, d, g, last, leaf, hcalls, hrun, ?_, ?_⟩
      · unfold Compiler.after
        rw [hclass]
        exact hends
      · intro c2 hok
        rw [hclass] at hok
        cases hok

end Compile
end Jack
