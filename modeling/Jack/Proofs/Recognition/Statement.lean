import Jack.Proofs.Recognition.Expression

/-!
# What the routines for statements accept

As for expressions, a routine that succeeds has read a tree.  The labels of the code
are numbered from the label counter at the start.
-/

namespace Jack
namespace Compile

open Syntax

/-!
# Simple statements
-/

theorem run_placeOf_eq_ok_iff {target : Option Entry} {place : Place} {c c' : Compiler} :
    (placeOf target).run c = .ok place c' ↔ c' = c ∧ target.map Entry.place = some place := by
  cases target with
  | none =>
      constructor
      · intro h
        cases h
      · intro h
        cases h.2
  | some e =>
      constructor
      · intro h
        cases h
        exact ⟨rfl, rfl⟩
      · intro h
        rcases h with ⟨hc, hplace⟩
        cases hc
        cases hplace
        rfl

theorem letStatement_reads {c c' : Compiler} (h : letStatement.run c = .ok () c') :
    exists s : Statement, s.Resolved c.scope ∧
      c.Yields s.marks (s.code c.scope c.labels) s.labels c' := by
  unfold letStatement at h
  rcases run_bind_eq_ok_iff.mp h with ⟨_, c1, henter, h⟩
  rcases run_bind_eq_ok_iff.mp h with ⟨word, c2, hkeyword, h⟩
  rcases run_bind_eq_ok_iff.mp h with ⟨name, c3, hidentifier, h⟩
  rcases run_bind_eq_ok_iff.mp h with ⟨target, c4, hentry, hbody⟩
  have hopening := (run_enter_eq_ok_iff.mp henter).2
  rcases run_takeKeyword_eq_ok_iff.mp hkeyword with ⟨hword, _, hlet⟩
  have hwordEq : word = .«let» := by simpa using hword
  subst hwordEq
  have hname := (run_takeIdentifier_eq_ok_iff.mp hidentifier).2
  rcases (Scope.asks_entry _ _ _ _).mp hentry with ⟨hc, hanswer⟩
  subst hc
  have hhead := hopening.trans (hlet.trans hname)
  rw [hhead.scope] at hanswer
  have htarget : c.scope.targetPlace name = target.map Entry.place := by
    unfold Scope.targetPlace Scope.entry
    rw [hanswer]
    rfl
  rw [run_bind_of_ok (run_atSymbol _ _)] at hbody
  simp only at hbody
  split at hbody
  · rcases run_bind_eq_ok_iff.mp hbody with ⟨_, c5, hleft, h⟩
    rcases run_bind_eq_ok_iff.mp h with ⟨_, c6, hindex, h⟩
    rcases run_bind_eq_ok_iff.mp h with ⟨place, c7, hplace, hpush⟩
    rcases run_placeOf_eq_ok_iff.mp hplace with ⟨hc, hmap⟩
    subst hc
    rcases run_bind_eq_ok_iff.mp hpush with ⟨_, c8, hemitBase, h⟩
    rcases run_bind_eq_ok_iff.mp h with ⟨_, c9, hemitAdd, h⟩
    rcases run_bind_eq_ok_iff.mp h with ⟨_, c10, hright, h⟩
    rcases run_bind_eq_ok_iff.mp h with ⟨_, c11, hequal, h⟩
    rcases run_bind_eq_ok_iff.mp h with ⟨_, c12, hvalue, h⟩
    rcases run_bind_eq_ok_iff.mp h with ⟨_, c13, hsemicolon, h⟩
    rcases run_bind_eq_ok_iff.mp h with ⟨_, c14, hstore, hleave⟩
    have hleft := (run_takeSymbol_eq_ok_iff.mp hleft).2
    have hright := (run_takeSymbol_eq_ok_iff.mp hright).2
    have hequal := (run_takeSymbol_eq_ok_iff.mp hequal).2
    have hsemicolon := (run_takeSymbol_eq_ok_iff.mp hsemicolon).2
    have hclosing := (run_leave_eq_ok_iff.mp hleave).2
    rcases expression_reads hindex with ⟨index, hires, hi⟩
    rcases expression_reads hvalue with ⟨value, hvres, hv⟩
    have hstart := hhead.trans hleft
    rw [hstart.scope] at hires hi
    have hmiddle := hstart.trans (hi.trans ((yields_emit hemitBase).trans
      ((yields_emit hemitAdd).trans (hright.trans hequal))))
    rw [hmiddle.scope] at hvres hv
    refine ⟨.store name index value, ⟨by simp [htarget, hmap], hires, hvres⟩, ?_⟩
    simpa [Statement.marks, Statement.code, Statement.labels, Tree.enclose, htarget, hmap]
      using hmiddle.trans (hv.trans (hsemicolon.trans
        ((yields_emitAll hstore).trans hclosing)))
  · rcases run_bind_eq_ok_iff.mp hbody with ⟨_, c5, hequal, h⟩
    rcases run_bind_eq_ok_iff.mp h with ⟨_, c6, hvalue, h⟩
    rcases run_bind_eq_ok_iff.mp h with ⟨_, c7, hsemicolon, h⟩
    rcases run_bind_eq_ok_iff.mp h with ⟨place, c8, hplace, hpop⟩
    rcases run_placeOf_eq_ok_iff.mp hplace with ⟨hc, hmap⟩
    subst hc
    rcases run_bind_eq_ok_iff.mp hpop with ⟨_, c9, hemit, hleave⟩
    have hequal := (run_takeSymbol_eq_ok_iff.mp hequal).2
    have hsemicolon := (run_takeSymbol_eq_ok_iff.mp hsemicolon).2
    have hclosing := (run_leave_eq_ok_iff.mp hleave).2
    rcases expression_reads hvalue with ⟨value, hvres, hv⟩
    have hstart := hhead.trans hequal
    rw [hstart.scope] at hvres hv
    refine ⟨.assign name value, ⟨by simp [htarget, hmap], hvres⟩, ?_⟩
    simpa [Statement.marks, Statement.code, Statement.labels, Tree.enclose, htarget, hmap]
      using hstart.trans (hv.trans (hsemicolon.trans ((yields_emit hemit).trans hclosing)))

theorem returnStatement_reads {c c' : Compiler} (h : returnStatement.run c = .ok () c') :
    exists s : Statement, s.Resolved c.scope ∧
      c.Yields s.marks (s.code c.scope c.labels) s.labels c' := by
  unfold returnStatement at h
  rcases run_bind_eq_ok_iff.mp h with ⟨_, c1, henter, h⟩
  rcases run_bind_eq_ok_iff.mp h with ⟨word, c2, hkeyword, h⟩
  have hopening := (run_enter_eq_ok_iff.mp henter).2
  rcases run_takeKeyword_eq_ok_iff.mp hkeyword with ⟨hword, _, hreturn⟩
  have hwordEq : word = .«return» := by simpa using hword
  subst hwordEq
  have hhead := hopening.trans hreturn
  rw [run_bind_of_ok (run_atSymbol _ _)] at h
  simp only at h
  split at h
  · rcases run_bind_eq_ok_iff.mp h with ⟨_, c3, hzero, h⟩
    rcases run_bind_eq_ok_iff.mp h with ⟨_, c4, hsemicolon, h⟩
    rcases run_bind_eq_ok_iff.mp h with ⟨_, c5, hret, hleave⟩
    have hsemicolon := (run_takeSymbol_eq_ok_iff.mp hsemicolon).2
    have hclosing := (run_leave_eq_ok_iff.mp hleave).2
    refine ⟨.leave, trivial, ?_⟩
    simpa [Statement.marks, Statement.code, Statement.labels, Tree.enclose] using
      hhead.trans ((yields_emit hzero).trans (hsemicolon.trans
        ((yields_emit hret).trans hclosing)))
  · rcases run_bind_eq_ok_iff.mp h with ⟨_, c3, hvalue, h⟩
    rcases run_bind_eq_ok_iff.mp h with ⟨_, c4, hsemicolon, h⟩
    rcases run_bind_eq_ok_iff.mp h with ⟨_, c5, hret, hleave⟩
    have hsemicolon := (run_takeSymbol_eq_ok_iff.mp hsemicolon).2
    have hclosing := (run_leave_eq_ok_iff.mp hleave).2
    rcases expression_reads hvalue with ⟨value, hvres, hv⟩
    rw [hhead.scope] at hvres hv
    refine ⟨.give value, hvres, ?_⟩
    simpa [Statement.marks, Statement.code, Statement.labels, Tree.enclose] using
      hhead.trans (hv.trans (hsemicolon.trans ((yields_emit hret).trans hclosing)))

theorem callee_reads {name subroutine : String} {object : Option Place}
    {c c' : Compiler} (h : (callee name).run c = .ok (subroutine, object) c') :
    (exists member, (c.scope.entry name).isSome = true ∧
      subroutine =
        qualified (receiver name (c.scope.entry name).join).1 (some member) ∧
      object = (receiver name (c.scope.entry name).join).2 ∧
      c.Yields [.leaf (.symbol .dot), .leaf (.identifier member)] [] 0 c') ∨
    (c' = c ∧ subroutine = qualified c.scope.className (some name) ∧
      object = some (.pointer 0)) := by
  unfold callee at h
  rw [run_bind_of_ok (run_atSymbol _ _)] at h
  split at h
  · apply Or.inl
    rcases run_bind_eq_ok_iff.mp h with ⟨_, c1, hsymbol, h⟩
    rcases run_bind_eq_ok_iff.mp h with ⟨found, c2, hentry, hmember⟩
    have hdot := (run_takeSymbol_eq_ok_iff.mp hsymbol).2
    rcases (Scope.asks_entry _ _ _ _).mp hentry with ⟨hc, hanswer⟩
    subst hc
    rw [hdot.scope] at hanswer
    have hfound : c.scope.entry name = some found := hanswer
    rcases run_bind_eq_ok_iff.mp hmember with ⟨member, c3, hidentifier, hpure⟩
    cases hpure
    have hleaf := (run_takeIdentifier_eq_ok_iff.mp hidentifier).2
    rw [hfound]
    exact ⟨member, rfl, rfl, rfl, by simpa using hdot.trans hleaf⟩
  · apply Or.inr
    cases h
    exact ⟨rfl, rfl, rfl⟩

theorem doStatement_reads {c c' : Compiler} (h : doStatement.run c = .ok () c') :
    exists s : Statement, s.Resolved c.scope ∧
      c.Yields s.marks (s.code c.scope c.labels) s.labels c' := by
  unfold doStatement at h
  rcases run_bind_eq_ok_iff.mp h with ⟨_, c1, henter, h⟩
  rcases run_bind_eq_ok_iff.mp h with ⟨word, c2, hkeyword, h⟩
  rcases run_bind_eq_ok_iff.mp h with ⟨name, c3, hidentifier, h⟩
  rcases run_bind_eq_ok_iff.mp h with ⟨found, c4, hcallee, hcall⟩
  rcases found with ⟨subroutine, object⟩
  have hopening := (run_enter_eq_ok_iff.mp henter).2
  rcases run_takeKeyword_eq_ok_iff.mp hkeyword with ⟨hword, _, hdo⟩
  have hwordEq : word = .«do» := by simpa using hword
  subst hwordEq
  have hname := (run_takeIdentifier_eq_ok_iff.mp hidentifier).2
  have hhead := hopening.trans (hdo.trans hname)
  have hpush : exists c5, c4.Yields [] (receiverCode object) 0 c5 ∧
      (do
        takeSymbol .leftParen
        let arguments ← expressionList
        takeSymbol .rightParen
        takeSymbol .semicolon
        emit (.call subroutine (arguments + (if object.isSome then 1 else 0)))
        emit (.pop (.temp 0))
        leave .doStatement : CompileM Unit).run c5 = .ok () c' := by
    cases object with
    | none => exact ⟨c4, Compiler.Yields.refl c4, hcall⟩
    | some place =>
        rcases run_bind_eq_ok_iff.mp hcall with ⟨_, c5, hemit, hrest⟩
        exact ⟨c5, yields_emit hemit, hrest⟩
  rcases hpush with ⟨c5, hreceiver, h⟩
  rcases run_bind_eq_ok_iff.mp h with ⟨_, c6, hleft, h⟩
  rcases run_bind_eq_ok_iff.mp h with ⟨count, c7, hlist, h⟩
  rcases run_bind_eq_ok_iff.mp h with ⟨_, c8, hright, h⟩
  rcases run_bind_eq_ok_iff.mp h with ⟨_, c9, hsemicolon, h⟩
  rcases run_bind_eq_ok_iff.mp h with ⟨_, c10, hemitCall, h⟩
  rcases run_bind_eq_ok_iff.mp h with ⟨_, c11, hemitPop, hleave⟩
  have hleft := (run_takeSymbol_eq_ok_iff.mp hleft).2
  have hright := (run_takeSymbol_eq_ok_iff.mp hright).2
  have hsemicolon := (run_takeSymbol_eq_ok_iff.mp hsemicolon).2
  have hclosing := (run_leave_eq_ok_iff.mp hleave).2
  rcases expressionList_reads hlist with ⟨arguments, hcount, hares, ha⟩
  subst hcount
  have hfront := hreceiver.trans hleft
  rw [hfront.scope] at hares ha
  have hrest := hfront.trans (ha.trans (hright.trans (hsemicolon.trans
    ((yields_emit hemitCall).trans ((yields_emit hemitPop).trans hclosing)))))
  rcases callee_reads hcallee with ⟨member, hentry, hsub, hobject, hdot⟩ | ⟨hc, hsub, hobject⟩
  · have hstart := hhead.trans hdot
    rw [hstart.scope] at hares hrest
    rw [hhead.scope] at hentry hsub hobject
    refine ⟨.callOn name member arguments, ⟨hentry, hares⟩, ?_⟩
    subst hsub hobject
    simpa [Statement.marks, Statement.code, Statement.labels, callCode, Tree.enclose] using
      hstart.trans hrest
  · subst hc
    rw [hhead.scope] at hares hrest hsub
    refine ⟨.call name arguments, hares, ?_⟩
    subst hsub hobject
    simpa [Statement.marks, Statement.code, Statement.labels, callCode, Tree.enclose] using
      hhead.trans hrest

/-!
# Blocks
-/

/-- What the routines for statements accept within a limit. -/
structure ReadsStatements (n : Nat) : Prop where
  statements : forall {c c'}, (statementsWithin n).run c = .ok () c' ->
    exists block : Block, block.Resolved c.scope ∧
      c.Yields block.marks (block.code c.scope c.labels) block.labels c'
  statementRun : forall {c c'}, (statementRunWithin n).run c = .ok () c' ->
    exists block : Block, block.Resolved c.scope ∧
      c.Yields block.parts (block.code c.scope c.labels) block.labels c'
  whileLoop : forall {c c'}, (whileWithin n).run c = .ok () c' ->
    exists s : Statement, s.Resolved c.scope ∧
      c.Yields s.marks (s.code c.scope c.labels) s.labels c'
  conditional : forall {c c'}, (ifWithin n).run c = .ok () c' ->
    exists s : Statement, s.Resolved c.scope ∧
      c.Yields s.marks (s.code c.scope c.labels) s.labels c'

theorem statementsWithin_reads {n : Nat} (ih : ReadsStatements n) {c c' : Compiler}
    (h : (statementsWithin (n + 1)).run c = .ok () c') :
    exists block : Block, block.Resolved c.scope ∧
      c.Yields block.marks (block.code c.scope c.labels) block.labels c' := by
  unfold statementsWithin at h
  rcases run_bind_eq_ok_iff.mp h with ⟨_, c1, henter, h⟩
  rcases run_bind_eq_ok_iff.mp h with ⟨_, c2, hrun, hleave⟩
  have hopening := (run_enter_eq_ok_iff.mp henter).2
  have hclosing := (run_leave_eq_ok_iff.mp hleave).2
  rcases ih.statementRun hrun with ⟨block, hres, hblock⟩
  rw [hopening.scope] at hres hblock
  rw [hopening.labels] at hblock
  refine ⟨block, hres, ?_⟩
  simpa [Block.marks, Tree.enclose] using hopening.trans (hblock.trans hclosing)

/-- A statement and the statements behind it are a block. -/
theorem cons_reads {n : Nat} (ih : ReadsStatements n) {step : CompileM Unit}
    (hstep : forall {c c'}, step.run c = .ok () c' ->
      exists s : Statement, s.Resolved c.scope ∧
        c.Yields s.marks (s.code c.scope c.labels) s.labels c')
    {c c' : Compiler}
    (h : (do
        step
        statementRunWithin n : CompileM Unit).run c = .ok () c') :
    exists block : Block, block.Resolved c.scope ∧
      c.Yields block.parts (block.code c.scope c.labels) block.labels c' := by
  rcases run_bind_eq_ok_iff.mp h with ⟨_, c1, hfirst, hrest⟩
  rcases hstep hfirst with ⟨s, hsres, hs⟩
  rcases ih.statementRun hrest with ⟨rest, hrres, hr⟩
  rw [hs.scope] at hrres hr
  rw [hs.labels] at hr
  exact ⟨.cons s rest, ⟨hsres, hrres⟩, hs.trans hr⟩

theorem statementRunWithin_reads {n : Nat} (ih : ReadsStatements n) {c c' : Compiler}
    (h : (statementRunWithin (n + 1)).run c = .ok () c') :
    exists block : Block, block.Resolved c.scope ∧
      c.Yields block.parts (block.code c.scope c.labels) block.labels c' := by
  unfold statementRunWithin at h
  rw [run_bind_of_ok (run_current c)] at h
  split at h
  · exact cons_reads ih letStatement_reads h
  · exact cons_reads ih ih.conditional h
  · exact cons_reads ih ih.whileLoop h
  · exact cons_reads ih doStatement_reads h
  · exact cons_reads ih returnStatement_reads h
  · cases h
    exact ⟨.nil, trivial, Compiler.Yields.refl c⟩

theorem whileWithin_reads {n : Nat} (ih : ReadsStatements n) {c c' : Compiler}
    (h : (whileWithin (n + 1)).run c = .ok () c') :
    exists s : Statement, s.Resolved c.scope ∧
      c.Yields s.marks (s.code c.scope c.labels) s.labels c' := by
  unfold whileWithin at h
  rcases run_bind_eq_ok_iff.mp h with ⟨_, c1, henter, h⟩
  rcases run_bind_eq_ok_iff.mp h with ⟨word, c2, hkeyword, h⟩
  rcases run_bind_eq_ok_iff.mp h with ⟨top, c3, hdrawTop, h⟩
  rcases run_bind_eq_ok_iff.mp h with ⟨exit, c4, hdrawExit, h⟩
  rcases run_bind_eq_ok_iff.mp h with ⟨_, c5, hemitTop, h⟩
  rcases run_bind_eq_ok_iff.mp h with ⟨_, c6, hleft, h⟩
  rcases run_bind_eq_ok_iff.mp h with ⟨_, c7, hcondition, h⟩
  rcases run_bind_eq_ok_iff.mp h with ⟨_, c8, hright, h⟩
  rcases run_bind_eq_ok_iff.mp h with ⟨_, c9, hemitTest, h⟩
  rcases run_bind_eq_ok_iff.mp h with ⟨_, c10, hleftBrace, h⟩
  rcases run_bind_eq_ok_iff.mp h with ⟨_, c11, hbody, h⟩
  rcases run_bind_eq_ok_iff.mp h with ⟨_, c12, hrightBrace, h⟩
  rcases run_bind_eq_ok_iff.mp h with ⟨_, c13, hemitBack, hleave⟩
  have hopening := (run_enter_eq_ok_iff.mp henter).2
  rcases run_takeKeyword_eq_ok_iff.mp hkeyword with ⟨hword, _, hwhile⟩
  have hwordEq : word = .«while» := by simpa using hword
  subst hwordEq
  rcases yields_drawLabel hdrawTop with ⟨htop, hfirstDraw⟩
  rcases yields_drawLabel hdrawExit with ⟨hexit, hsecondDraw⟩
  have hstart := hopening.trans hwhile
  rw [hstart.labels] at htop
  rw [hfirstDraw.labels, hstart.labels] at hexit
  subst htop hexit
  have hleft := (run_takeSymbol_eq_ok_iff.mp hleft).2
  have hright := (run_takeSymbol_eq_ok_iff.mp hright).2
  have hleftBrace := (run_takeSymbol_eq_ok_iff.mp hleftBrace).2
  have hrightBrace := (run_takeSymbol_eq_ok_iff.mp hrightBrace).2
  have hclosing := (run_leave_eq_ok_iff.mp hleave).2
  have hhead := hstart.trans (hfirstDraw.trans (hsecondDraw.trans
    ((yields_emit hemitTop).trans hleft)))
  rcases expression_reads hcondition with ⟨condition, hcres, hc⟩
  rw [hhead.scope] at hcres hc
  have hmiddle := hhead.trans (hc.trans (hright.trans
    ((yields_emitAll hemitTest).trans hleftBrace)))
  rcases ih.statements hbody with ⟨body, hbres, hb⟩
  rw [hmiddle.scope] at hbres hb
  rw [hmiddle.labels] at hb
  refine ⟨.loop condition body, ⟨hcres, hbres⟩, ?_⟩
  simpa [Statement.marks, Statement.code, Statement.labels, Block.marks, Tree.enclose] using
    hmiddle.trans (hb.trans (hrightBrace.trans
      ((yields_emitAll hemitBack).trans hclosing)))

theorem ifWithin_reads {n : Nat} (ih : ReadsStatements n) {c c' : Compiler}
    (h : (ifWithin (n + 1)).run c = .ok () c') :
    exists s : Statement, s.Resolved c.scope ∧
      c.Yields s.marks (s.code c.scope c.labels) s.labels c' := by
  unfold ifWithin at h
  rcases run_bind_eq_ok_iff.mp h with ⟨_, c1, henter, h⟩
  rcases run_bind_eq_ok_iff.mp h with ⟨word, c2, hkeyword, h⟩
  rcases run_bind_eq_ok_iff.mp h with ⟨whenTrue, c3, hdrawTrue, h⟩
  rcases run_bind_eq_ok_iff.mp h with ⟨whenFalse, c4, hdrawFalse, h⟩
  rcases run_bind_eq_ok_iff.mp h with ⟨done, c5, hdrawDone, h⟩
  rcases run_bind_eq_ok_iff.mp h with ⟨_, c6, hleft, h⟩
  rcases run_bind_eq_ok_iff.mp h with ⟨_, c7, hcondition, h⟩
  rcases run_bind_eq_ok_iff.mp h with ⟨_, c8, hright, h⟩
  rcases run_bind_eq_ok_iff.mp h with ⟨_, c9, hemitTest, h⟩
  rcases run_bind_eq_ok_iff.mp h with ⟨_, c10, hleftBrace, h⟩
  rcases run_bind_eq_ok_iff.mp h with ⟨_, c11, hbody, h⟩
  rcases run_bind_eq_ok_iff.mp h with ⟨_, c12, hrightBrace, h⟩
  rcases run_bind_eq_ok_iff.mp h with ⟨_, c13, hemitSkip, hend⟩
  have hopening := (run_enter_eq_ok_iff.mp henter).2
  rcases run_takeKeyword_eq_ok_iff.mp hkeyword with ⟨hword, _, hif⟩
  have hwordEq : word = .«if» := by simpa using hword
  subst hwordEq
  rcases yields_drawLabel hdrawTrue with ⟨hwhenTrue, hfirstDraw⟩
  rcases yields_drawLabel hdrawFalse with ⟨hwhenFalse, hsecondDraw⟩
  rcases yields_drawLabel hdrawDone with ⟨hdone, hthirdDraw⟩
  have hstart := hopening.trans hif
  rw [hstart.labels] at hwhenTrue
  rw [hfirstDraw.labels, hstart.labels] at hwhenFalse
  rw [hsecondDraw.labels, hfirstDraw.labels, hstart.labels] at hdone
  subst hwhenTrue hwhenFalse hdone
  have hleft := (run_takeSymbol_eq_ok_iff.mp hleft).2
  have hright := (run_takeSymbol_eq_ok_iff.mp hright).2
  have hleftBrace := (run_takeSymbol_eq_ok_iff.mp hleftBrace).2
  have hrightBrace := (run_takeSymbol_eq_ok_iff.mp hrightBrace).2
  have hhead := hstart.trans (hfirstDraw.trans (hsecondDraw.trans (hthirdDraw.trans hleft)))
  rcases expression_reads hcondition with ⟨condition, hcres, hc⟩
  rw [hhead.scope] at hcres hc
  have hmiddle := hhead.trans (hc.trans (hright.trans
    ((yields_emitAll hemitTest).trans hleftBrace)))
  rcases ih.statements hbody with ⟨body, hbres, hb⟩
  rw [hmiddle.scope] at hbres hb
  rw [hmiddle.labels] at hb
  have hfirstArm := hmiddle.trans (hb.trans (hrightBrace.trans (yields_emitAll hemitSkip)))
  rw [run_bind_of_ok (run_atKeyword _ _)] at hend
  simp only at hend
  split at hend
  · rcases run_bind_eq_ok_iff.mp hend with ⟨word, c14, helse, h⟩
    rcases run_bind_eq_ok_iff.mp h with ⟨_, c15, hleftBrace, h⟩
    rcases run_bind_eq_ok_iff.mp h with ⟨_, c16, hother, h⟩
    rcases run_bind_eq_ok_iff.mp h with ⟨_, c17, hrightBrace, h⟩
    rcases run_bind_eq_ok_iff.mp h with ⟨_, c18, hemitDone, hleave⟩
    rcases run_takeKeyword_eq_ok_iff.mp helse with ⟨hword, _, helse⟩
    have hwordEq : word = .«else» := by simpa using hword
    rw [hwordEq] at helse
    have hleftBrace := (run_takeSymbol_eq_ok_iff.mp hleftBrace).2
    have hrightBrace := (run_takeSymbol_eq_ok_iff.mp hrightBrace).2
    have hclosing := (run_leave_eq_ok_iff.mp hleave).2
    have helseHead := hfirstArm.trans (helse.trans hleftBrace)
    rcases ih.statements hother with ⟨other, hores, ho⟩
    rw [helseHead.scope] at hores ho
    rw [helseHead.labels] at ho
    refine ⟨.ifElse condition body other, ⟨hcres, hbres, hores⟩, ?_⟩
    simpa [Statement.marks, Statement.code, Statement.labels, Block.marks, Tree.enclose,
      Nat.add_assoc] using
      helseHead.trans (ho.trans (hrightBrace.trans
        ((yields_emit hemitDone).trans hclosing)))
  · rcases run_bind_eq_ok_iff.mp hend with ⟨_, c14, hemitDone, hleave⟩
    have hclosing := (run_leave_eq_ok_iff.mp hleave).2
    refine ⟨.ifThen condition body, ⟨hcres, hbres⟩, ?_⟩
    simpa [Statement.marks, Statement.code, Statement.labels, Block.marks, Tree.enclose] using
      hfirstArm.trans ((yields_emit hemitDone).trans hclosing)

theorem readsStatements (n : Nat) : ReadsStatements n := by
  induction n with
  | zero =>
      constructor
      all_goals
        intros
        next h => cases h
  | succ n ih =>
      exact
        { statements := statementsWithin_reads ih
          statementRun := statementRunWithin_reads ih
          whileLoop := whileWithin_reads ih
          conditional := ifWithin_reads ih }

theorem statements_reads {c c' : Compiler} (h : statements.run c = .ok () c') :
    exists block : Block, block.Resolved c.scope ∧
      c.Yields block.marks (block.code c.scope c.labels) block.labels c' := by
  unfold statements at h
  rw [run_bind_of_ok (run_bound c)] at h
  exact (readsStatements _).statements h

end Compile
end Jack
