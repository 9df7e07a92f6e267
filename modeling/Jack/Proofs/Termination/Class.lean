import Jack.Proofs.Completeness
import Jack.Proofs.Recognition.Class
import Jack.Proofs.Termination.Expression

/-!
# Every routine ends or strays

Statements and declarations are repeated only after tokens were taken, so all routines of
the compiler settle.  A term at a last token that asks for another term reaches every limit.
Hence a source is compiled or fails, unless its last token is one of these.
-/

namespace Jack
namespace Compile

open Compiler

/-!
# Statements
-/

theorem settled_callee (name : String) : Settled (callee name) := by
  apply (settled_atSymbol .dot).bind
  intro isDotted
  cases isDotted with
  | true =>
      exact (settled_takeSymbol _).bind fun _ => (settled_entry _).bind fun _ =>
        settled_takeIdentifier.bind fun _ => settled_pure _
  | false => exact settled_get.bind fun _ => settled_pure _

theorem settled_doStatement : Settled doStatement := by
  apply (settled_enter _).bind
  intro _
  apply (settled_takeKeyword _).bind
  intro _
  apply settled_takeIdentifier.bind
  intro name
  apply (settled_callee name).bind
  intro target
  rcases target with ⟨subroutine, object⟩
  have hcall : Settled
      (takeSymbol .leftParen >>= fun _ => expressionList >>= fun arguments =>
        takeSymbol .rightParen >>= fun _ => takeSymbol .semicolon >>= fun _ =>
          emit (.call subroutine (arguments + (if object.isSome then 1 else 0))) >>= fun _ =>
            emit (.pop (.temp 0)) >>= fun _ => leave .doStatement) :=
    (settled_takeSymbol _).bind fun _ => settled_expressionList.bind fun _ =>
      (settled_takeSymbol _).bind fun _ => (settled_takeSymbol _).bind fun _ =>
        (settled_emit _).bind fun _ => (settled_emit _).bind fun _ => settled_leave _
  cases object with
  | none => exact hcall
  | some place => exact (settled_emit _).bind fun _ => hcall

theorem settled_letStatement : Settled letStatement := by
  apply (settled_enter _).bind
  intro _
  apply (settled_takeKeyword _).bind
  intro _
  apply settled_takeIdentifier.bind
  intro name
  apply (settled_entry _).bind
  intro target
  apply (settled_atSymbol .leftBracket).bind
  intro isElement
  cases isElement with
  | true =>
      exact (settled_takeSymbol _).bind fun _ => settled_expression.bind fun _ =>
        (settled_placeOf target).bind fun _ => (settled_emit _).bind fun _ =>
          (settled_emit _).bind fun _ => (settled_takeSymbol _).bind fun _ =>
            (settled_takeSymbol _).bind fun _ => settled_expression.bind fun _ =>
              (settled_takeSymbol _).bind fun _ => (settled_emitAll _).bind fun _ =>
                settled_leave _
  | false =>
      exact (settled_takeSymbol _).bind fun _ => settled_expression.bind fun _ =>
        (settled_takeSymbol _).bind fun _ => (settled_placeOf target).bind fun _ =>
          (settled_emit _).bind fun _ => settled_leave _

theorem settled_returnStatement : Settled returnStatement := by
  have hend : Settled
      (takeSymbol .semicolon >>= fun _ => emit .ret >>= fun _ => leave .returnStatement) :=
    (settled_takeSymbol _).bind fun _ => (settled_emit _).bind fun _ => settled_leave _
  apply (settled_enter _).bind
  intro _
  apply (settled_takeKeyword _).bind
  intro _
  apply (settled_atSymbol .semicolon).bind
  intro isEmpty
  cases isEmpty with
  | true => exact (settled_emit _).bind fun _ => hend
  | false => exact settled_expression.bind fun _ => hend

/-!
# Blocks
-/

end Compile

theorem Syntax.Statement.exists_mem_tokens (s : Syntax.Statement) :
    exists word sign, .keyword word ∈ s.tokens ∧ .symbol sign ∈ s.tokens := by
  cases s with
  | assign => exact ⟨.«let», .semicolon, by simp [tokens], by simp [tokens]⟩
  | store => exact ⟨.«let», .semicolon, by simp [tokens], by simp [tokens]⟩
  | call => exact ⟨.«do», .semicolon, by simp [tokens], by simp [tokens]⟩
  | callOn => exact ⟨.«do», .semicolon, by simp [tokens], by simp [tokens]⟩
  | leave => exact ⟨.«return», .semicolon, by simp [tokens], by simp [tokens]⟩
  | give => exact ⟨.«return», .semicolon, by simp [tokens], by simp [tokens]⟩
  | ifThen => exact ⟨.«if», .leftParen, by simp [tokens], by simp [tokens]⟩
  | ifElse => exact ⟨.«if», .leftParen, by simp [tokens], by simp [tokens]⟩
  | loop => exact ⟨.«while», .leftParen, by simp [tokens], by simp [tokens]⟩

namespace Compile

open Compiler

/-- A statement is passed. -/
theorem passes_of_statement {c c' : Compiler}
    (h : exists s : Syntax.Statement, s.Resolved c.scope ∧
      c.Yields s.marks (s.code c.scope c.labels) s.labels c') : c.scanner.Passes c'.scanner := by
  rcases h with ⟨s, _, hyields⟩
  rcases s.exists_mem_tokens with ⟨word, sign, hword, hsign⟩
  have htakes := hyields.takes
  rw [s.leaves_marks] at htakes
  exact htakes.passes_of_ne _ _ hword hsign (by simp)

/-- Routines for statements settle with a limit that fits. -/
structure SettlesStatements (n : Nat) : Prop where
  block : forall {c : Compiler}, c.Supplied -> c.scanner.Fits 3 3 n ->
    c.Settles (statementsWithin n)
  run : forall {c : Compiler}, c.Supplied -> c.scanner.Fits 2 2 n ->
    c.Settles (statementRunWithin n)
  loop : forall {c : Compiler}, c.Supplied -> c.scanner.Fits 1 1 n -> c.Settles (whileWithin n)
  choice : forall {c : Compiler}, c.Supplied -> c.scanner.Fits 1 1 n -> c.Settles (ifWithin n)

section

variable {c : Compiler} {n : Nat}

theorem settles_statementsWithin (ih : SettlesStatements n) (hsupplied : c.Supplied)
    (hfits : c.scanner.Fits 3 3 (n + 1)) : c.Settles (statementsWithin (n + 1)) := by
  unfold statementsWithin
  apply (settled_enter .statements c hsupplied).bind hsupplied
  intro _ c1 _ hsupplied1 hprecedes1
  have hfits1 := hfits.precedes (by decide) hprecedes1
  apply (ih.run hsupplied1 (hfits1.pred (by decide) (by decide))).bind hsupplied1
  intro _ c2 _ hsupplied2 _
  exact settled_leave .statements c2 hsupplied2

/-- More statements behind one that was passed. -/
theorem settles_cons (ih : SettlesStatements n) (hsupplied : c.Supplied)
    (hfits : c.scanner.Fits 2 2 (n + 1)) {step : CompileM Unit} (hstep : c.Settles step)
    (hreads : forall {c c' : Compiler}, step.run c = .ok () c' ->
      exists s : Syntax.Statement, s.Resolved c.scope ∧
        c.Yields s.marks (s.code c.scope c.labels) s.labels c') :
    c.Settles (step >>= fun _ => statementRunWithin n) := by
  apply hstep.bind hsupplied
  intro _ c1 hrun hsupplied1 _
  have hfits1 := hfits.passes (passes_of_statement (hreads hrun)) (Nat.le_refl 6)
  exact ih.run hsupplied1 (hfits1.pred (by decide) (by decide))

theorem settles_statementRunWithin (ih : SettlesStatements n) (hsupplied : c.Supplied)
    (hfits : c.scanner.Fits 2 2 (n + 1)) : c.Settles (statementRunWithin (n + 1)) := by
  have hone : c.scanner.Fits 1 1 n := hfits.pred (by decide) (by decide)
  unfold statementRunWithin
  apply Settles.congr (run_bind_of_ok (run_current c))
  split
  · exact settles_cons ih hsupplied hfits (settled_letStatement c hsupplied) letStatement_reads
  · exact settles_cons ih hsupplied hfits (ih.choice hsupplied hone) (readsStatements n).conditional
  · exact settles_cons ih hsupplied hfits (ih.loop hsupplied hone) (readsStatements n).whileLoop
  · exact settles_cons ih hsupplied hfits (settled_doStatement c hsupplied) doStatement_reads
  · exact settles_cons ih hsupplied hfits (settled_returnStatement c hsupplied)
      returnStatement_reads
  · exact settled_pure () c hsupplied

/-- Statements between braces. -/
theorem settles_braces (ih : SettlesStatements n) (hsupplied : c.Supplied)
    (hfits : c.scanner.Fits 5 5 (n + 1)) {rest : CompileM α}
    (hrest : forall {d : Compiler}, d.Supplied -> d.scanner.Fits 5 5 (n + 1) -> d.Settles rest) :
    c.Settles (takeSymbol .leftBrace >>= fun _ => statementsWithin n >>= fun _ =>
      takeSymbol .rightBrace >>= fun _ => rest) := by
  apply (settled_takeSymbol .leftBrace c hsupplied).bind hsupplied
  intro _ c1 _ hsupplied1 hprecedes1
  have hfits1 := hfits.precedes (by decide) hprecedes1
  apply (ih.block hsupplied1 (hfits1.pred (by decide) (by decide))).bind hsupplied1
  intro _ c2 _ hsupplied2 hprecedes2
  apply (settled_takeSymbol .rightBrace c2 hsupplied2).bind hsupplied2
  intro _ c3 _ hsupplied3 hprecedes3
  exact hrest hsupplied3 (hfits1.precedes (by decide) (hprecedes2.trans hprecedes3))

/-- A condition between parentheses. -/
theorem settles_condition (hsupplied : c.Supplied) {levels limit : Nat}
    (hfits : c.scanner.current = some (.symbol .leftParen) ->
      c.scanner.Fits levels levels limit) {rest : CompileM α}
    (hrest : forall {d : Compiler}, d.Supplied -> d.scanner.Fits levels levels limit ->
      d.Settles rest) :
    c.Settles (takeSymbol .leftParen >>= fun _ => expression >>= fun _ =>
      takeSymbol .rightParen >>= fun _ => rest) := by
  apply (settled_takeSymbol .leftParen c hsupplied).bind hsupplied
  intro _ c1 htake hsupplied1 hprecedes1
  have hcurrent := current_of_yields_leaf (run_takeSymbol_eq_ok_iff.mp htake).2
  apply (settled_expression c1 hsupplied1).bind hsupplied1
  intro _ c2 _ hsupplied2 hprecedes2
  apply (settled_takeSymbol .rightParen c2 hsupplied2).bind hsupplied2
  intro _ c3 _ hsupplied3 hprecedes3
  exact hrest hsupplied3 ((hfits hcurrent).precedes (Nat.le_add_right _ _)
    ((hprecedes1.trans hprecedes2).trans hprecedes3))

theorem settles_whileWithin (ih : SettlesStatements n) (hsupplied : c.Supplied)
    (hfits : c.scanner.Fits 1 1 (n + 1)) : c.Settles (whileWithin (n + 1)) := by
  unfold whileWithin
  apply (settled_enter .whileStatement c hsupplied).bind hsupplied
  intro _ c1 _ hsupplied1 hprecedes1
  have hfits1 := hfits.precedes (by decide) hprecedes1
  apply (settled_takeKeyword _ c1 hsupplied1).bind hsupplied1
  intro word c2 hkeyword hsupplied2 _
  have htakes := (run_takeKeyword_eq_ok_iff.mp hkeyword).2.2.takes
  apply (settled_drawLabel c2 hsupplied2).bind hsupplied2
  intro top c3 _ hsupplied3 hprecedes3
  apply (settled_drawLabel c3 hsupplied3).bind hsupplied3
  intro exit c4 _ hsupplied4 hprecedes4
  apply (settled_emit _ c4 hsupplied4).bind hsupplied4
  intro _ c5 _ hsupplied5 hprecedes5
  have hprecedes := (hprecedes3.trans hprecedes4).trans hprecedes5
  apply settles_condition hsupplied5 fun hcurrent =>
    hfits1.passes (htakes.passes_of_current hprecedes hcurrent (by simp)) (Nat.le_refl 5)
  intro d hsupplied6 hfits6
  apply (settled_emitAll _ d hsupplied6).bind hsupplied6
  intro _ c7 _ hsupplied7 hprecedes7
  apply settles_braces ih hsupplied7 (hfits6.precedes (by decide) hprecedes7)
  intro d' hsupplied8 _
  exact ((settled_emitAll _).bind fun _ => settled_leave _) d' hsupplied8

theorem settles_ifWithin (ih : SettlesStatements n) (hsupplied : c.Supplied)
    (hfits : c.scanner.Fits 1 1 (n + 1)) : c.Settles (ifWithin (n + 1)) := by
  unfold ifWithin
  apply (settled_enter .ifStatement c hsupplied).bind hsupplied
  intro _ c1 _ hsupplied1 hprecedes1
  have hfits1 := hfits.precedes (by decide) hprecedes1
  apply (settled_takeKeyword _ c1 hsupplied1).bind hsupplied1
  intro word c2 hkeyword hsupplied2 _
  have htakes := (run_takeKeyword_eq_ok_iff.mp hkeyword).2.2.takes
  apply (settled_drawLabel c2 hsupplied2).bind hsupplied2
  intro whenTrue c3 _ hsupplied3 hprecedes3
  apply (settled_drawLabel c3 hsupplied3).bind hsupplied3
  intro whenFalse c4 _ hsupplied4 hprecedes4
  apply (settled_drawLabel c4 hsupplied4).bind hsupplied4
  intro done c5 _ hsupplied5 hprecedes5
  have hprecedes := (hprecedes3.trans hprecedes4).trans hprecedes5
  apply settles_condition hsupplied5 fun hcurrent =>
    hfits1.passes (htakes.passes_of_current hprecedes hcurrent (by simp)) (Nat.le_refl 5)
  intro d hsupplied6 hfits6
  apply (settled_emitAll _ d hsupplied6).bind hsupplied6
  intro _ c7 _ hsupplied7 hprecedes7
  apply settles_braces ih hsupplied7 (hfits6.precedes (by decide) hprecedes7)
  intro d' hsupplied8 hfits8
  apply (settled_emitAll _ d' hsupplied8).bind hsupplied8
  intro _ c9 _ hsupplied9 hprecedes9
  have hfits9 := hfits8.precedes (by decide) hprecedes9
  have hend : Settled (emit (.label done) >>= fun _ => leave .ifStatement) :=
    (settled_emit _).bind fun _ => settled_leave _
  apply (settled_atKeyword _ c9 hsupplied9).bind hsupplied9
  intro hasElse c10 _ hsupplied10 hprecedes10
  have hfits10 := hfits9.precedes (by decide) hprecedes10
  cases hasElse with
  | true =>
      apply (settled_takeKeyword _ c10 hsupplied10).bind hsupplied10
      intro _ c11 _ hsupplied11 hprecedes11
      exact settles_braces ih hsupplied11 (hfits10.precedes (by decide) hprecedes11)
        fun hsupplied12 _ => hend _ hsupplied12
  | false => exact hend c10 hsupplied10

end

theorem settlesStatements (n : Nat) : SettlesStatements n := by
  induction n with
  | zero =>
      constructor
      all_goals
        intro c _ hfits
        exact absurd hfits (Scanner.not_fits_zero (by decide) (by decide))
  | succ n ih =>
      exact
        { block := settles_statementsWithin ih
          run := settles_statementRunWithin ih
          loop := settles_whileWithin ih
          choice := settles_ifWithin ih }

theorem settled_statements : Settled statements :=
  settled_of_bound (by decide) (by decide) (settlesStatements _).block

theorem settled_whileStatement : Settled whileStatement :=
  settled_of_bound (by decide) (by decide) (settlesStatements _).loop

theorem settled_ifStatement : Settled ifStatement :=
  settled_of_bound (by decide) (by decide) (settlesStatements _).choice

/-!
# Repetition
-/

/-- A step that moves the scanner on is not repeated for ever. -/
theorem settles_repeatWithin {applies : CompileM Bool} {step : CompileM α}
    (happlies : Settled applies) (hstep : Settled step)
    (hpasses : forall {c a c'}, step.run c = .ok a c' -> c.scanner.Passes c'.scanner) {n : Nat}
    {c : Compiler} (hsupplied : c.Supplied) (hfits : c.scanner.Fits 1 1 n) :
    c.Settles (repeatWithin applies step n) := by
  induction n generalizing c with
  | zero => exact absurd hfits (Scanner.not_fits_zero (by decide) (by decide))
  | succ n ih =>
      unfold repeatWithin
      apply (happlies c hsupplied).bind hsupplied
      intro again c1 _ hsupplied1 hprecedes1
      have hfits1 := hfits.precedes (by decide) hprecedes1
      cases again with
      | false => exact settled_pure [] c1 hsupplied1
      | true =>
          apply (hstep c1 hsupplied1).bind hsupplied1
          intro first c2 hrun hsupplied2 _
          have hfits2 := hfits1.passes (hpasses hrun) (Nat.le_refl 5)
          apply (ih hsupplied2 (hfits2.pred (by decide) (by decide))).bind hsupplied2
          intro others c3 _ hsupplied3 _
          exact settled_pure (first :: others) c3 hsupplied3

theorem settled_repeatWhile {applies : CompileM Bool} {step : CompileM α}
    (happlies : Settled applies) (hstep : Settled step)
    (hpasses : forall {c a c'}, step.run c = .ok a c' -> c.scanner.Passes c'.scanner) :
    Settled (repeatWhile applies step) :=
  settled_of_bound (by decide) (by decide) (settles_repeatWithin happlies hstep hpasses)

/-!
# Declarations
-/

theorem settled_fileLocally (e : Entry) : Settled (fileLocally e) := by
  refine (keeps_fileLocally e).settled fun c c' _ h => ?_
  rw [run_fileLocally] at h
  split at h <;> cases h

theorem settled_fileInClass (e : Entry) : Settled (fileInClass e) := by
  refine (keeps_fileInClass e).settled fun c c' _ h => ?_
  rw [run_fileInClass] at h
  split at h
  · cases h
  · split at h <;> cases h

theorem settled_useClass (name : Option String) : Settled (useClass name) :=
  (keeps_useClass name).settled fun _ _ _ h => by cases h

theorem settled_useSubroutine (name : Option String) : Settled (useSubroutine name) :=
  (keeps_useSubroutine name).settled fun _ _ _ h => by cases h

theorem settled_declare (category : Category) (type : Option String) :
    Settled (declare category type) := by
  apply settled_takeIdentifier.bind
  intro name
  cases category with
  | className => exact (settled_useClass _).bind fun _ => settled_pure name
  | subroutine =>
      exact (settled_useSubroutine _).bind fun _ => (settled_fileInClass _).bind fun _ =>
        settled_pure name
  | stored storage =>
      cases storage with
      | var => exact (settled_fileLocally _).bind fun _ => settled_pure name
      | argument => exact (settled_fileLocally _).bind fun _ => settled_pure name
      | static => exact (settled_fileInClass _).bind fun _ => settled_pure name
      | field => exact (settled_fileInClass _).bind fun _ => settled_pure name

theorem settled_declareNames (category : Category) : Settled (declareNames category) := by
  apply settled_takeType.bind
  intro type
  apply (settled_declare category _).bind
  intro _
  have hmore : Settled (takeSymbol .comma >>= fun _ => declare category (some type)) :=
    (settled_takeSymbol _).bind fun _ => settled_declare category _
  refine (settled_repeatWhile (settled_atSymbol _) hmore ?_).bind fun _ =>
    (settled_takeSymbol _).bind fun _ => settled_pure _
  intro c name c' h
  rcases run_bind_eq_ok_iff.mp h with ⟨_, c1, hcomma, hdeclare⟩
  have htakes := (run_takeSymbol_eq_ok_iff.mp hcomma).2.takes.append (declare_makes hdeclare).takes
  exact htakes.passes_of_ne (.symbol .comma) (.identifier name)
    (by simp [Tree.leaves]) (by simp [Tree.leaves]) (by simp)

theorem settled_classVarDec : Settled classVarDec := by
  apply (settled_enter _).bind
  intro _
  exact settled_currentKeyword.bind fun _ => (settled_takeKeyword _).bind fun _ =>
    (settled_declareNames _).bind fun names => (settled_leave _).bind fun _ => settled_pure names

theorem settled_varDec : Settled varDec := by
  apply (settled_enter _).bind
  intro _
  exact (settled_takeKeyword _).bind fun _ => (settled_declareNames _).bind fun names =>
    (settled_leave _).bind fun _ => settled_pure names

/-- A declaration of names has a keyword before it and a semicolon behind it. -/
theorem passes_of_names {c c' : Compiler} {word : Keyword} {names : Syntax.Names}
    (h : c.scanner.Takes (.keyword word :: names.tokens) c'.scanner) :
    c.scanner.Passes c'.scanner :=
  h.passes_of_ne (.keyword word) (.symbol .semicolon) (by simp)
    (by simp [Syntax.Names.tokens]) (by simp)

/-!
# Subroutines and classes
-/

theorem settled_parameter : Settled parameter :=
  settled_takeType.bind fun _ => (settled_declare _ _).bind fun _ => settled_pure ()

theorem settled_parameterList : Settled parameterList := by
  have hmore : Settled (takeSymbol .comma >>= fun _ => parameter) :=
    (settled_takeSymbol _).bind fun _ => settled_parameter
  have hend : forall first : Nat, Settled
      (repeatWhile (atSymbol .comma) (takeSymbol .comma >>= fun _ => parameter) >>= fun others =>
        leave .parameterList >>= fun _ => pure (first + others.length)) := by
    intro first
    refine (settled_repeatWhile (settled_atSymbol _) hmore ?_).bind fun _ =>
      (settled_leave _).bind fun _ => settled_pure _
    intro c _ c' h
    rcases run_bind_eq_ok_iff.mp h with ⟨_, c1, hcomma, hparameter⟩
    rcases parameter_makes hparameter with ⟨p, hmakes⟩
    have htakes := (run_takeSymbol_eq_ok_iff.mp hcomma).2.takes.append hmakes.takes
    exact htakes.passes_of_ne (.symbol .comma) (.identifier p.name)
      (by simp [Tree.leaves]) (by simp [Tree.leaves, Syntax.Parameter.tokens]) (by simp)
  apply (settled_enter _).bind
  intro _
  apply (settled_atSymbol .rightParen).bind
  intro isEmpty
  cases isEmpty with
  | true => exact hend 0
  | false => exact settled_parameter.bind fun _ => hend 1

theorem settled_prologue (type : Option String) : Settled (prologue type) := by
  unfold prologue
  split
  · exact settled_classSize.bind fun _ => settled_emitAll _
  · split
    · exact settled_emitAll _
    · exact settled_pure ()

theorem settled_subroutineBody : Settled subroutineBody := by
  have hvars : Settled (repeatWhile (atKeyword [.var]) varDec) := by
    apply settled_repeatWhile (settled_atKeyword _) settled_varDec
    intro c count c' h
    rcases varDec_makes h with ⟨v, _, hmakes⟩
    have htakes := hmakes.takes
    rw [v.leaves_marks] at htakes
    exact passes_of_names htakes
  apply (settled_enter _).bind
  intro _
  exact (settled_takeSymbol _).bind fun _ => hvars.bind fun _ => settled_get.bind fun c =>
    (settled_emit _).bind fun _ => (settled_entry c.subroutineName).bind fun e =>
      (settled_typeOf e).bind fun type => (settled_prologue type).bind fun _ =>
        settled_statements.bind fun _ => (settled_takeSymbol _).bind fun _ => settled_leave _

theorem settled_takeReturnType : Settled takeReturnType := by
  apply (settled_atKeyword _).bind
  intro isVoid
  cases isVoid with
  | true => exact (settled_takeKeyword _).bind fun _ => settled_pure ()
  | false => exact settled_takeType.bind fun _ => settled_pure ()

theorem settled_openLocals : Settled openLocals :=
  keeps_openLocals.settled fun _ _ _ h => by cases h

theorem settled_reserveObject : Settled reserveObject :=
  keeps_reserveObject.settled fun _ _ _ h => by cases h

theorem settled_subroutine : Settled subroutine := by
  have hrest : Settled
      (takeSymbol .leftParen >>= fun _ => parameterList >>= fun _ =>
        takeSymbol .rightParen >>= fun _ => subroutineBody >>= fun _ => leave .subroutineDec) :=
    (settled_takeSymbol _).bind fun _ => settled_parameterList.bind fun _ =>
      (settled_takeSymbol _).bind fun _ => settled_subroutineBody.bind fun _ => settled_leave _
  apply (settled_enter _).bind
  intro _
  apply settled_openLocals.bind
  intro _
  apply settled_currentKeyword.bind
  intro _
  apply (settled_takeKeyword _).bind
  intro word
  apply settled_takeReturnType.bind
  intro _
  apply (settled_declare _ _).bind
  intro _
  show Settled (if word = .method then _ else _)
  split
  · exact settled_reserveObject.bind fun _ => hrest
  · exact hrest

theorem settled_openClass (name : String) : Settled (openClass name) :=
  (keeps_openClass name).settled fun _ _ _ h => by cases h

theorem settled_setSize (name : String) (size : Nat) : Settled (setSize name size) :=
  (keeps_setSize name size).settled fun _ _ _ h => by cases h

theorem settled_classTree : Settled classTree := by
  have hvars : Settled (repeatWhile (atKeyword [.static, .field]) classVarDec) := by
    apply settled_repeatWhile (settled_atKeyword _) settled_classVarDec
    intro c count c' h
    rcases classVarDec_makes h with ⟨v, _, hmakes⟩
    have htakes := hmakes.takes
    rw [v.leaves_marks] at htakes
    exact passes_of_names htakes
  have hsubroutines : Settled (repeatWhile (atKeyword subroutineWords) subroutine) := by
    apply settled_repeatWhile (settled_atKeyword _) settled_subroutine
    intro c _ c' h
    rcases subroutine_makes h with ⟨s, _, hmakes⟩
    have htakes := hmakes.takes
    rw [s.leaves_marks] at htakes
    exact htakes.passes_of_ne (.keyword s.kind.keyword) (.symbol .leftParen)
      (by simp [Syntax.Subroutine.tokens]) (by simp [Syntax.Subroutine.tokens]) (by simp)
  have hfront : Settled classFront := by
    apply (settled_enter _).bind
    intro _
    exact (settled_takeKeyword _).bind fun _ => (settled_declare _ _).bind fun name =>
      (settled_openClass name).bind fun _ => (settled_takeSymbol _).bind fun _ =>
        hvars.bind fun _ => (settled_setSize name _).bind fun _ =>
          hsubroutines.bind fun _ => settled_pure ()
  exact hfront.bind fun _ => (settled_takeSymbol _).bind fun _ => settled_leave _

/-!
# The term that does not end
-/

section

variable {c : Compiler} {first : CompileM α} {second : α -> CompileM β}

theorem endless_of_first (h : exists c', first.run c = .error .endless c') :
    exists c', (first >>= second).run c = .error .endless c' := by
  rcases h with ⟨c', h⟩
  exact ⟨c', run_bind_eq_error_iff.mpr (Or.inl h)⟩

theorem endless_of_ok {c1 : Compiler} {a : α} (hrun : first.run c = .ok a c1)
    (h : exists c', (second a).run c1 = .error .endless c') :
    exists c', (first >>= second).run c = .error .endless c' := by
  rw [run_bind_of_ok hrun]
  exact h

end

/-- At the last token nothing changes but the tree. -/
theorem run_takeSymbol_of_last {c : Compiler} {sign : Symbol} (hopen : c.treeOpen = true)
    (hlast : c.scanner.hasNext = false) (hcurrent : c.scanner.current = some (.symbol sign)) :
    (takeSymbol sign).run c = .ok () (c.extend c.scanner [.leaf (.symbol sign)] [] 0) := by
  have hmoves : c.scanner.Moves c.scanner := by
    unfold Scanner.Moves
    rw [if_neg (by simp [hlast])]
  exact run_takeSymbol_eq_ok_iff.mpr
    ⟨hopen, c.scanner, Scanner.takes_singleton_iff.mpr ⟨hcurrent, hmoves⟩, rfl⟩

theorem run_enter_of_open {c : Compiler} (nonterminal : Nonterminal) (hopen : c.treeOpen = true) :
    (enter nonterminal).run c = .ok () (c.extend c.scanner [.opening nonterminal] [] 0) :=
  run_enter_eq_ok_iff.mpr ⟨hopen, c.scanner, .nil _, rfl⟩

/-- A compiler that is stuck reaches every limit. -/
theorem endless_of_stuck (n : Nat) {c : Compiler} (hopen : c.treeOpen = true) (hstuck : c.Stuck) :
    (exists c', (termWithin n).run c = .error .endless c') ∧
      (exists c', (operandWithin n).run c = .error .endless c') ∧
        exists c', (expressionWithin n).run c = .error .endless c' := by
  induction n generalizing c with
  | zero => exact ⟨⟨c, rfl⟩, ⟨c, rfl⟩, ⟨c, rfl⟩⟩
  | succ n ih =>
      -- none of the calls up to the next term moves the scanner
      have hlater : forall marks, (c.extend c.scanner marks [] 0).treeOpen = true ∧
          (c.extend c.scanner marks [] 0).Stuck := fun marks => ⟨hopen, hstuck⟩
      refine ⟨?_, ?_, ?_⟩
      · unfold termWithin
        apply endless_of_ok (run_enter_of_open .term hopen)
        exact endless_of_first (ih (hlater _).1 (hlater _).2).2.1
      · rcases hstuck with ⟨hlast, sign, hsign, hcurrent⟩
        have htake := run_takeSymbol_of_last hopen hlast hcurrent
        unfold operandWithin
        rw [run_bind_of_ok (run_current c), hcurrent]
        simp only [termOpeners, List.mem_cons, List.not_mem_nil, or_false] at hsign
        rcases hsign with rfl | rfl | rfl
        · apply endless_of_ok htake
          exact endless_of_first (ih (hlater _).1 (hlater _).2).2.2
        · apply endless_of_ok htake
          exact endless_of_first (ih (hlater _).1 (hlater _).2).1
        · apply endless_of_ok htake
          exact endless_of_first (ih (hlater _).1 (hlater _).2).1
      · unfold expressionWithin
        apply endless_of_ok (run_enter_of_open .expression hopen)
        exact endless_of_first (ih (hlater _).1 (hlater _).2).1

/-!
# Routines and sources
-/

end Compile

open Compile

/-- The routine that compiles a construct. -/
def Nonterminal.routine : Nonterminal -> CompileM Unit
  | .«class» => Compile.classUnit
  | .classVarDec => discard Compile.classVarDec
  | .subroutineDec => Compile.subroutine
  | .parameterList => discard Compile.parameterList
  | .subroutineBody => Compile.subroutineBody
  | .varDec => discard Compile.varDec
  | .statements => Compile.statements
  | .letStatement => Compile.letStatement
  | .ifStatement => Compile.ifStatement
  | .whileStatement => Compile.whileStatement
  | .doStatement => Compile.doStatement
  | .returnStatement => Compile.returnStatement
  | .expression => Compile.expression
  | .term => discard Compile.term
  | .expressionList => discard Compile.expressionList

theorem Compiler.Supplied.strays_of_classUnit {c c' : Compiler} (hsupplied : c.Supplied)
    (h : classUnit.run c = .error .endless c') : c.Strays c' := by
  rw [classUnit_eq] at h
  rcases run_bind_eq_error_iff.mp h with htree | ⟨_, c1, _, hclose⟩
  · exact (settled_classTree c hsupplied).endless c' htree
  · cases hclose

theorem Compiler.Supplied.strays_of_routine {c c' : Compiler} (hsupplied : c.Supplied)
    {nonterminal : Nonterminal} (h : nonterminal.routine.run c = .error .endless c') :
    c.Strays c' := by
  cases nonterminal with
  | «class» => exact hsupplied.strays_of_classUnit h
  | classVarDec => exact (settled_classVarDec.map _ c hsupplied).endless c' h
  | subroutineDec => exact (settled_subroutine c hsupplied).endless c' h
  | parameterList => exact (settled_parameterList.map _ c hsupplied).endless c' h
  | subroutineBody => exact (settled_subroutineBody c hsupplied).endless c' h
  | varDec => exact (settled_varDec.map _ c hsupplied).endless c' h
  | statements => exact (settled_statements c hsupplied).endless c' h
  | letStatement => exact (settled_letStatement c hsupplied).endless c' h
  | ifStatement => exact (settled_ifStatement c hsupplied).endless c' h
  | whileStatement => exact (settled_whileStatement c hsupplied).endless c' h
  | doStatement => exact (settled_doStatement c hsupplied).endless c' h
  | returnStatement => exact (settled_returnStatement c hsupplied).endless c' h
  | expression => exact (settled_expression c hsupplied).endless c' h
  | term => exact (settled_term.map _ c hsupplied).endless c' h
  | expressionList => exact (settled_expressionList.map _ c hsupplied).endless c' h

/-- Taking up a source comes to an end, and then the compiler is supplied. -/
theorem Scanner.IsTerminated.start {scanner : Scanner} (h : scanner.IsTerminated) (c : Compiler) :
    (forall c', (Compile.start scanner).run c ≠ .error .endless c') ∧
      forall c', (Compile.start scanner).run c = .ok () c' -> c'.Supplied := by
  constructor
  · intro c' hstart
    unfold Compile.start at hstart
    rcases run_bind_eq_error_iff.mp hstart with hset | ⟨_, c1, hset, hstart⟩
    · cases hset
    · cases hset
      rcases run_bind_eq_error_iff.mp hstart with hmove | ⟨_, c2, _, hset⟩
      · rw [run_scanning] at hmove
        split at hmove
        · cases hmove
        · next hadvance =>
            cases hmove
            exact h.advance_ne _ hadvance
      · cases hset
  · intro c' hstart
    rcases run_start_eq_ok_iff.mp hstart with ⟨s, hadvance, rfl⟩
    exact ⟨rfl, h.advance hadvance⟩

theorem Scanner.ofText_terminated {text : String}
    (h : Terminated (Text.foldLineEnds text.toList)) :
    Scanner.ofText text ≠ .error .endless ∧
      forall scanner, Scanner.ofText text = .ok scanner -> scanner.IsTerminated := by
  have hsource : Scanner.IsTerminated { rest := Text.foldLineEnds text.toList } :=
    ⟨Text.not_mem_foldLineEnds _, h⟩
  unfold Scanner.ofText
  constructor
  · intro herror
    split at herror
    · cases herror
    · next hlook =>
        cases herror
        exact hsource.lookAhead_ne _ hlook
  · intro scanner hok
    split at hok
    · next hlook =>
        cases hok
        exact hsource.lookAhead hlook
    · cases hok

/-- A source that strays ends with a token that opens a term. -/
theorem Compiler.Strays.last_token {c c1 c' : Compiler} {text : String}
    (hload : (Compile.load text).run c = .ok () c1) (h : c1.Strays c') :
    exists tokens sign, tokenize text = (tokens, none) ∧
      tokens.getLast? = some (.symbol sign) ∧ sign ∈ termOpeners := by
  rcases h with ⟨d, n, hleads, ⟨hlast, sign, hsign, hcurrent⟩, _⟩
  rcases hleads.takes with ⟨taken, htakes⟩
  have hnext : d.scanner.next = none := by simpa [Scanner.hasNext] using hlast
  rcases htakes.last hcurrent hnext with ⟨hfault, hgetLast⟩
  rw [ahead_of_load hload] at hgetLast
  refine ⟨(tokenize text).1, sign, ?_, hgetLast, hsign⟩
  rcases tokenize_of_load hload with ⟨_, _, htokens⟩
  rw [htokens, hfault]

/-- A source whose last token does not ask for a term is compiled to an end. -/
theorem Compiler.compile_ends {text : String} (c : Compiler)
    (hterminated : Terminated (Text.foldLineEnds text.toList))
    (hlast : forall tokens sign, tokenize text = (tokens, none) ->
      tokens.getLast? = some (.symbol sign) -> sign ∉ termOpeners) :
    (c.compile text).fault ≠ some .endless := by
  rcases Scanner.ofText_terminated hterminated with ⟨hofText, hscanner⟩
  unfold compile
  cases htext : Scanner.ofText text with
  | error fault =>
      intro hfault
      cases hfault
      exact hofText htext
  | ok scanner =>
      rcases (hscanner scanner htext).start c with ⟨hstarts, hsupplied⟩
      intro hfault
      simp only at hfault
      split at hfault
      · cases hfault
      · next c' hrun =>
          cases hfault
          rcases run_bind_eq_error_iff.mp hrun with hstart | ⟨_, c1, hstart, hclass⟩
          · exact hstarts c' hstart
          · rcases run_start_eq_ok_iff.mp hstart with ⟨s, hs⟩
            have hload := run_load_eq_ok_iff.mpr ⟨scanner, s, htext, hs⟩
            have hstrays := (hsupplied c1 hstart).strays_of_classUnit hclass
            rcases hstrays.last_token hload with ⟨tokens, sign, htokens, hgetLast, hsign⟩
            exact hlast tokens sign htokens hgetLast hsign

/-- Where comments and strings end, every routine ends at every token, unless it comes to a
term at a last token that asks for another term.  Such a term has no end within any limit.
A source whose last token is another one is compiled to an end. -/
theorem routines_end_unless_stuck :
    (forall (nonterminal : Nonterminal) (c : Compiler), c.Supplied ->
      (exists c', nonterminal.routine.run c = .ok () c') ∨
        (exists fault c', fault ≠ .endless ∧ nonterminal.routine.run c = .error fault c') ∨
          exists c', nonterminal.routine.run c = .error .endless c' ∧ c.Strays c') ∧
      (forall (c : Compiler) (n : Nat), c.treeOpen = true -> c.Stuck ->
        exists c', (termWithin n).run c = .error .endless c') ∧
      forall (text : String) (c : Compiler), Terminated (Text.foldLineEnds text.toList) ->
        (forall tokens sign, tokenize text = (tokens, none) ->
          tokens.getLast? = some (.symbol sign) -> sign ∉ termOpeners) ->
        (c.compile text).fault ≠ some .endless := by
  refine ⟨?_, ?_, ?_⟩
  · intro nonterminal c hsupplied
    cases hrun : nonterminal.routine.run c with
    | ok _ c' => exact Or.inl ⟨c', rfl⟩
    | error fault c' =>
        by_cases hfault : fault = .endless
        · subst hfault
          exact Or.inr (Or.inr ⟨c', rfl, hsupplied.strays_of_routine hrun⟩)
        · exact Or.inr (Or.inl ⟨fault, c', hfault, rfl⟩)
  · intro c n hopen hstuck
    exact (endless_of_stuck n hopen hstuck).1
  · intro text c hterminated hlast
    exact c.compile_ends hterminated hlast

/-- The source ends with a minus sign. -/
def Compiler.atMinus : Compiler where
  scanner := { rest := [], isOpen := false, current := some (.symbol .minus) }

theorem routines_end_unless_stuck_at_minus :
    Compiler.atMinus.Supplied ∧ Compiler.atMinus.Stuck ∧
      (exists c', Nonterminal.expression.routine.run Compiler.atMinus = .error .endless c' ∧
        Compiler.atMinus.Strays c') ∧
      (exists c', (termWithin 100).run Compiler.atMinus = .error .endless c') ∧
      (({} : Compiler).compile Syntax.Class.counter.text).fault ≠ some .endless := by
  have hlexes : Lexes [] [] [] := rfl
  have hsupplied : Compiler.atMinus.Supplied :=
    ⟨rfl, List.not_mem_nil, terminated_of_lexes List.not_mem_nil hlexes .nil⟩
  have hstuck : Compiler.atMinus.Stuck := ⟨rfl, .minus, by decide, rfl⟩
  have htokens : tokenize Syntax.Class.counter.text = (Syntax.Class.counter.tokens, none) :=
    Token.tokenize_print Syntax.Class.isLexeme_counter
  have hendless : exists c',
      Nonterminal.expression.routine.run Compiler.atMinus = .error .endless c' :=
    endless_of_ok (run_bound _) (endless_of_stuck _ hsupplied.treeOpen hstuck).2.2
  rcases routines_end_unless_stuck with ⟨hroutines, hterm, hcompile⟩
  have hdeep := hterm Compiler.atMinus 100 hsupplied.treeOpen hstuck
  have hstrays : exists c', Nonterminal.expression.routine.run Compiler.atMinus =
      .error .endless c' ∧ Compiler.atMinus.Strays c' := by
    rcases hendless with ⟨c', hrun⟩
    rcases hroutines .expression Compiler.atMinus hsupplied with
      ⟨_, hok⟩ | ⟨fault, _, hfault, herror⟩ | hstrays
    · rw [hrun] at hok
      cases hok
    · rw [hrun] at herror
      cases herror
      exact absurd rfl hfault
    · exact hstrays
  have hends : (({} : Compiler).compile Syntax.Class.counter.text).fault ≠ some .endless := by
    apply hcompile Syntax.Class.counter.text {} (terminated_of_tokenize htokens)
    intro tokens sign hread hgetLast
    rcases Prod.mk.inj (htokens.symm.trans hread) with ⟨rfl, _⟩
    have hbrace : Syntax.Class.counter.tokens.getLast? = some (.symbol .rightBrace) := by
      decide +kernel
    rw [hbrace] at hgetLast
    cases hgetLast
    decide
  exact ⟨hsupplied, hstuck, hstrays, hdeep, hends⟩

end Jack
