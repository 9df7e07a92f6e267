import Jack.Proofs.Acceptance.Statement
import Jack.Proofs.Callees
import Jack.Proofs.TokenInjectivity

/-!
# Two forms of a call on a name

A call on a name is a statement, or it stands in an expression.  The two are compiled by
different routines.  Where both succeed on the same tokens, they have read the same call.
They write the same code, but for the value that a statement drops, just if they agree on
the object and on what is called.
-/

namespace Jack

open Compile

/-!
# Reading a call
-/

namespace Scanner

theorem Shows.ahead_eq {s : Scanner} {tokens : List Token} (h : s.Shows tokens) :
    s.ahead = tokens := by
  rcases h with ⟨token, rest, rfl, hcurrent, htokens⟩
  simp [ahead, hcurrent, htokens]

/-- The tokens that are taken and the tokens ahead go on to the same list, and what goes on
behind the tokens ahead is the last of them over again. -/
theorem Takes.exists_append_eq {s s' : Scanner} {taken : List Token} (h : s.Takes taken s') :
    exists more repeated, taken ++ more = s.ahead ++ repeated ∧
      forall token, token ∈ repeated -> s.ahead.getLast? = some token := by
  rcases h.ahead_eq_or_repeats with hsplit | ⟨last, repeats, _, hlast, htaken⟩
  · exact ⟨s'.ahead, [], by rw [hsplit, List.append_nil], List.forall_mem_nil _⟩
  · refine ⟨[], List.replicate repeats last, by rw [htaken, List.append_nil], ?_⟩
    intro token htoken
    rw [List.eq_of_mem_replicate htoken]
    exact hlast

end Scanner

namespace Syntax

theorem Statement.eq_callOn_of_tokens {s : Statement} {owner name : String}
    {arguments : Arguments} {r r' : List Token}
    (h : s.tokens ++ r = (Statement.callOn owner name arguments).tokens ++ r') :
    s = .callOn owner name arguments := by
  cases s with
  | callOn owner' name' arguments' =>
      simp only [Statement.tokens, List.cons_append, List.append_assoc, List.cons.injEq,
        true_and, Token.identifier.injEq] at h
      rcases h with ⟨rfl, rfl, htail⟩
      rcases Arguments.eq_of_tokens rfl rfl htail with ⟨rfl, _⟩
      rfl
  | _ => simp [Statement.tokens] at h

/-- Behind the call there is no operation: no operator follows, and the closing parenthesis,
which may be taken over again, is none. -/
theorem Operations.eq_nil_of_tokens {operations : Operations}
    {more follow repeated : List Token}
    (h : operations.tokens ++ more = follow ++ repeated)
    (hfollow : forall sign, follow.head? = some (.symbol sign) -> binary? sign = none)
    (hrepeated : follow = [] -> forall token, token ∈ repeated -> token = .symbol .rightParen) :
    operations = .nil := by
  cases operations with
  | nil => rfl
  | cons op operand rest =>
      have hhead : (follow ++ repeated).head? = some (.symbol op.symbol) := by
        rw [← h]
        rfl
      cases follow with
      | nil =>
          have hparen := hrepeated rfl _ (List.mem_of_mem_head? hhead)
          cases op <;> cases hparen
      | cons token follow =>
          have hnone := hfollow op.symbol hhead
          rw [op.binary?_symbol] at hnone
          cases hnone

end Syntax

namespace Compile

open Syntax

section

variable {c c' : Compiler} {owner name : String} {arguments : Arguments} {rest : List Token}

theorem doStatement_reads_callOn
    (hshows : c.scanner.Shows ((Statement.callOn owner name arguments).tokens ++ rest))
    (h : doStatement.run c = .ok () c') :
    c.Yields (Statement.callOn owner name arguments).marks
      ((Statement.callOn owner name arguments).code c.scope c.labels) 0 c' := by
  rcases doStatement_reads h with ⟨s, _, hyields⟩
  rcases hyields.takes.exists_append_eq with ⟨more, repeated, happend, _⟩
  rw [Statement.leaves_marks, hshows.ahead_eq, List.append_assoc] at happend
  cases Statement.eq_callOn_of_tokens happend
  exact hyields

/-!
An expression that begins with a name and a point is a call on the name.
-/

theorem nameWithin_reads_on {n : Nat} {found : Option String}
    (hshows : c.scanner.Shows (.identifier owner :: .symbol .dot :: rest))
    (h : (nameWithin n).run c = .ok found c') :
    exists name arguments, (Term.callOn owner name arguments).Resolved c.scope ∧
      c.Yields (Term.callOn owner name arguments).parts
        ((Term.callOn owner name arguments).code c.scope) 0 c' := by
  cases n with
  | zero => cases h
  | succ n =>
      unfold nameWithin at h
      rcases run_bind_eq_ok_iff.mp h with ⟨first, c1, hidentifier, h⟩
      rcases run_bind_eq_ok_iff.mp h with ⟨_, c2, hpush, h⟩
      have hleaf := (run_takeIdentifier_eq_ok_iff.mp hidentifier).2
      have hfirst := (current_of_yields_leaf hleaf).symm.trans hshows.current
      cases hfirst
      rcases yields_pushName hpush with ⟨hentry, hvalue⟩
      rw [hleaf.scope] at hentry hvalue
      have hhead := hleaf.trans hvalue
      have hdot : c2.scanner.current = some (.symbol .dot) :=
        (hhead.takes.shows hshows (List.cons_ne_nil _ _)).current
      rw [run_bind_of_ok (run_atSymbol _ _), hdot, if_neg (by decide),
        run_bind_of_ok (run_atSymbol _ _), hdot, if_neg (by decide),
        run_bind_of_ok (run_atSymbol _ _), hdot, if_pos (by decide)] at h
      rcases member_reads (readsExpressions n) h with
        ⟨subroutine, arguments, target, hfound, hares, ha⟩
      rw [hhead.scope] at hfound hares ha
      refine ⟨subroutine, arguments, ⟨hentry, by simp [hfound], hares⟩, ?_⟩
      simpa [Term.parts, Term.code, Arguments.marks, hfound] using hhead.trans ha

theorem termWithin_reads_on {n : Nat} {found : Option String}
    (hshows : c.scanner.Shows (.identifier owner :: .symbol .dot :: rest))
    (h : (termWithin n).run c = .ok found c') :
    exists name arguments, (Term.callOn owner name arguments).Resolved c.scope ∧
      c.Yields (Term.callOn owner name arguments).marks
        ((Term.callOn owner name arguments).code c.scope) 0 c' := by
  cases n with
  | zero => cases h
  | succ n =>
      unfold termWithin at h
      rcases run_bind_eq_ok_iff.mp h with ⟨_, c1, henter, h⟩
      rcases run_bind_eq_ok_iff.mp h with ⟨_, c2, hoperand, h⟩
      rcases run_bind_eq_ok_iff.mp h with ⟨_, c3, hleave, hpure⟩
      cases hpure
      have hopening := (run_enter_eq_ok_iff.mp henter).2
      have hclosing := (run_leave_eq_ok_iff.mp hleave).2
      have hentered : c1.scanner.Shows (.identifier owner :: .symbol .dot :: rest) :=
        hopening.takes.shows hshows (List.cons_ne_nil _ _)
      cases n with
      | zero => cases hoperand
      | succ n =>
          unfold operandWithin at hoperand
          rw [run_bind_of_ok (run_current c1), hentered.current] at hoperand
          rcases nameWithin_reads_on hentered hoperand with ⟨name, arguments, hres, hcall⟩
          rw [hopening.scope] at hres hcall
          refine ⟨name, arguments, hres, ?_⟩
          simpa [Term.marks, Tree.enclose] using hopening.trans (hcall.trans hclosing)

theorem expression_reads_on
    (hshows : c.scanner.Shows (.identifier owner :: .symbol .dot :: rest))
    (h : expression.run c = .ok () c') :
    exists name arguments operations,
      (Term.callOn owner name arguments).Resolved c.scope ∧
      c.Yields (Expr.mk (.callOn owner name arguments) operations).marks
        ((Expr.mk (.callOn owner name arguments) operations).code c.scope) 0 c' := by
  unfold expression at h
  rw [run_bind_of_ok (run_bound c)] at h
  generalize 4 * (c.scanner.rest.length + 4) = n at h
  cases n with
  | zero => cases h
  | succ n =>
      unfold expressionWithin at h
      rcases run_bind_eq_ok_iff.mp h with ⟨_, c1, henter, h⟩
      rcases run_bind_eq_ok_iff.mp h with ⟨_, c2, hterm, h⟩
      rcases run_bind_eq_ok_iff.mp h with ⟨_, c3, hrest, hleave⟩
      have hopening := (run_enter_eq_ok_iff.mp henter).2
      have hclosing := (run_leave_eq_ok_iff.mp hleave).2
      have hentered : c1.scanner.Shows (.identifier owner :: .symbol .dot :: rest) :=
        hopening.takes.shows hshows (List.cons_ne_nil _ _)
      rcases termWithin_reads_on hentered hterm with ⟨name, arguments, hres, hcall⟩
      rcases (readsExpressions n).operations hrest with ⟨operations, _, hr⟩
      rw [hopening.scope] at hres hcall
      rw [hcall.scope, hopening.scope] at hr
      refine ⟨name, arguments, operations, hres, ?_⟩
      simpa [Expr.marks, Expr.parts, Expr.code, Term.marks, Tree.enclose] using
        hopening.trans (hcall.trans (hr.trans hclosing))

theorem expression_reads_callOn {follow : List Token}
    (hshows : c.scanner.Shows ((Term.callOn owner name arguments).tokens ++ follow))
    (hfollow : forall sign, follow.head? = some (.symbol sign) -> binary? sign = none)
    (h : expression.run c = .ok () c') :
    (Term.callOn owner name arguments).Resolved c.scope ∧
      c.Yields (Expr.mk (.callOn owner name arguments) .nil).marks
        ((Expr.mk (.callOn owner name arguments) .nil).code c.scope) 0 c' := by
  rcases expression_reads_on hshows h with ⟨name', arguments', operations, hres, hyields⟩
  rcases hyields.takes.exists_append_eq with ⟨more, repeated, happend, hrepeated⟩
  rw [hshows.ahead_eq] at happend hrepeated
  simp only [Expr.marks, Tree.leaves_enclose, Expr.leaves_parts, Expr.tokens, Term.tokens,
    List.cons_append, List.nil_append, List.append_assoc, List.cons.injEq, true_and,
    Token.identifier.injEq] at happend
  rcases happend with ⟨rfl, htail⟩
  -- a parenthesis closes both lists of arguments, whatever was taken behind it
  rcases Arguments.eq_of_tokens rfl rfl htail with ⟨rfl, hbehind⟩
  injection hbehind with _ hbehind
  have hnil : operations = .nil := by
    refine Operations.eq_nil_of_tokens hbehind hfollow ?_
    rintro rfl token htoken
    have hlast := hrepeated token htoken
    simp [Term.tokens, List.getLast?_cons, List.getLast?_append] at hlast
    exact hlast.symm
  subst hnil
  exact ⟨hres, hyields⟩

end

end Compile

/-!
# Code of a call
-/

/-- A command without its remark. -/
def Instr.bare : Instr -> Instr
  | .push place _ => .push place none
  | instr => instr

theorem Instr.map_bare_toList_push (place : Option Place) (remark : Option String) :
    (place.map fun place => Instr.push place remark).toList.map Instr.bare =
      (place.map fun place => Instr.push place none).toList := by
  cases place <;> rfl

theorem Instr.toList_push_injective :
    Function.Injective fun place : Option Place =>
      (place.map fun place => Instr.push place none).toList := by
  intro first second h
  cases first <;> cases second <;> simp_all

/-- An object is called for its type, and any other name for itself. -/
theorem Compile.receiver_fst (owner : String) (found : Option Entry) :
    (receiver owner found).1 =
      if (receiver owner found).2.isSome = true then found.bind Entry.type else some owner := by
  cases found with
  | none => rfl
  | some e =>
      by_cases hclass : e.standing = .known .className
      · simp [receiver, hclass]
      · simp [receiver, hclass]

namespace Scope

theorem target_eq_of_callsMethod {σ : Scope} {owner name : String}
    {callee : Option String × Nat} (h : σ.target owner name = some callee)
    (hmethod : σ.CallsMethod owner name) : callee = (σ.type? owner, 1) := by
  rcases hmethod with ⟨e, hentry, htype⟩
  unfold target callTarget at h
  rcases (answer_bind_eq_some_iff (asks_subroutineEntry _ _)).mp h with ⟨found, hfound, hrest⟩
  cases Option.some.inj (hfound.symm.trans hentry)
  simp only [htype, if_true] at hrest
  rcases (answer_bind_eq_some_iff (asks_entry _)).mp hrest with ⟨holder, hholder, hrest⟩
  rcases (answer_bind_eq_some_iff (asks_typeOf holder)).mp hrest with ⟨type, hanswer, hrest⟩
  cases hrest
  have howner : σ.entry owner = some holder := hholder
  rw [type?, howner]
  cases holder with
  | none => cases hanswer
  | some e =>
      cases hanswer
      rfl

/-- The two forms of a call on a name have the same object, and a method is called just if
there is one. -/
def FormsAgree (σ : Scope) (owner name : String) : Prop :=
  (receiver owner (σ.entry owner).join).2 = σ.valuePlace owner ∧
    (σ.IsStored owner ↔ σ.CallsMethod owner name)

instance (σ : Scope) (owner name : String) : Decidable (σ.FormsAgree owner name) :=
  inferInstanceAs (Decidable (_ ∧ _))

/-- Where the forms agree, they call the same. -/
theorem FormsAgree.callee_eq {σ : Scope} {owner name : String} (h : σ.FormsAgree owner name)
    (hfinds : (σ.target owner name).isSome = true) (arguments : Nat) :
    σ.callee (.on true owner name arguments) = σ.callee (.on false owner name arguments) := by
  rcases h with ⟨hobject, hmethod⟩
  rcases Option.isSome_iff_exists.mp hfinds with ⟨callee, hcallee⟩
  rw [← σ.isSome_valuePlace_iff, ← hobject] at hmethod
  rw [Scope.callee, Scope.callee, hcallee, Option.getD_some, receiver_fst]
  by_cases hsome : (receiver owner (σ.entry owner).join).2.isSome = true
  · rw [target_eq_of_callsMethod hcallee (hmethod.mp hsome), if_pos hsome, if_pos hsome]
    rfl
  · rw [target_eq_of_not_callsMethod hcallee (mt hmethod.mpr hsome), if_neg hsome,
      if_neg hsome]

theorem formsAgree_of_count {σ : Scope} {owner name : String} {arguments : Nat}
    (hfinds : (σ.target owner name).isSome = true)
    (hobject : (receiver owner (σ.entry owner).join).2 = σ.valuePlace owner)
    (hcount : (σ.callee (.on true owner name arguments)).2 =
      (σ.callee (.on false owner name arguments)).2) : σ.FormsAgree owner name := by
  refine ⟨hobject, ?_⟩
  rcases Option.isSome_iff_exists.mp hfinds with ⟨callee, hcallee⟩
  rw [Scope.callee, Scope.callee, hcallee, Option.getD_some, hobject] at hcount
  rw [← σ.isSome_valuePlace_iff]
  rcases target_count hcallee with ⟨hmethod, hone⟩ | ⟨hother, hzero⟩
  · refine iff_of_true ?_ hmethod
    by_contra hnone
    rw [if_neg hnone, hone] at hcount
    omega
  · refine iff_of_false ?_ hother
    intro hsome
    rw [if_pos hsome, hzero] at hcount
    omega

end Scope

namespace Syntax

theorem callOn_code_eq_iff {σ : Scope} {owner name : String} {arguments : Arguments}
    (hfinds : (σ.target owner name).isSome = true) (label : Nat) :
    ((Statement.callOn owner name arguments).code σ label).map Instr.bare =
        ((Term.callOn owner name arguments).code σ).map Instr.bare ++ [.pop (.temp 0)] ↔
      σ.FormsAgree owner name := by
  have hstatement : ((Statement.callOn owner name arguments).code σ label).map Instr.bare =
      ((receiver owner (σ.entry owner).join).2.map fun place => Instr.push place none).toList ++
        ((arguments.code σ).map Instr.bare ++
          [.call (σ.callee (.on true owner name arguments.count)).1
            (σ.callee (.on true owner name arguments.count)).2, .pop (.temp 0)]) := by
    rw [Statement.code, callCode, receiverCode, List.map_append, List.map_append,
      Instr.map_bare_toList_push]
    rfl
  have hexpression : ((Term.callOn owner name arguments).code σ).map Instr.bare ++
        [.pop (.temp 0)] =
      ((σ.valuePlace owner).map fun place => Instr.push place none).toList ++
        ((arguments.code σ).map Instr.bare ++
          [.call (σ.callee (.on false owner name arguments.count)).1
            (σ.callee (.on false owner name arguments.count)).2, .pop (.temp 0)]) := by
    rw [Term.code, Scope.nameCode, List.map_append, List.map_append, Instr.map_bare_toList_push,
      List.append_assoc, List.append_assoc]
    rfl
  rw [hstatement, hexpression]
  constructor
  · intro hsame
    -- behind the object both codes are equally long
    rcases List.append_inj' hsame (by simp) with ⟨hobject, htail⟩
    have hcall := List.append_cancel_left htail
    injection hcall with hcall _
    injection hcall with _ hcount
    exact Scope.formsAgree_of_count hfinds (Instr.toList_push_injective hobject) hcount
  · intro hagree
    rw [hagree.1, hagree.callee_eq hfinds]

end Syntax

open Syntax

/-- Let a call on a name be compiled from one state as a statement and as an expression that
no operator follows.  If both succeed, each writes the code of the call.  The code is the
same up to remarks, but for the value that the statement drops, just if the forms agree: both
push the same object or none, and the subroutine that the expression finds is a method just
if an object is pushed. -/
theorem call_forms_agree_iff {c c1 c2 : Compiler} {s t : Scanner} {owner name : String}
    {arguments : Arguments} {rest follow : List Token}
    (hstatement : s.Shows ((Statement.callOn owner name arguments).tokens ++ rest))
    (hexpression : t.Shows ((Term.callOn owner name arguments).tokens ++ follow))
    (hfollow : forall sign, follow.head? = some (.symbol sign) -> binary? sign = none)
    (hfirst : doStatement.run { c with scanner := s } = .ok () c1)
    (hsecond : expression.run { c with scanner := t } = .ok () c2) :
    c1.code.toList =
        c.code.toList ++ (Statement.callOn owner name arguments).code c.scope c.labels ∧
      c2.code.toList = c.code.toList ++ (Term.callOn owner name arguments).code c.scope ∧
      (((Statement.callOn owner name arguments).code c.scope c.labels).map Instr.bare =
          ((Term.callOn owner name arguments).code c.scope).map Instr.bare ++
            [.pop (.temp 0)] ↔
        c.scope.FormsAgree owner name) := by
  have hdo := doStatement_reads_callOn hstatement hfirst
  rcases expression_reads_callOn hexpression hfollow hsecond with ⟨hresolved, hterm⟩
  refine ⟨?_, ?_, callOn_code_eq_iff hresolved.2.1 c.labels⟩
  · rw [hdo.code, Array.toList_append]
    rfl
  · rw [hterm.code, Array.toList_append, Expr.code, Operations.code, List.append_nil]
    rfl

/-!
A method that is called on an array with two arguments, as a statement and as a value.
-/

def sizeArguments : Arguments :=
  .cons (.mk (.var "x") .nil) (.cons (.mk (.integer "3") .nil) .nil)

def callSizeScanner : Scanner :=
  { rest := ".size(x, 3); \x7d".toList
    current := some (.keyword .do)
    next := some (.identifier "a") }

def sizeScanner : Scanner :=
  { rest := "size(x, 3);".toList
    current := some (.identifier "a")
    next := some (.symbol .dot) }

theorem call_forms_agree_of_size :
    exists c1 c2,
      doStatement.run (Compiler.inSubroutine callSizeScanner) = .ok () c1 ∧
        expression.run (Compiler.inSubroutine sizeScanner) = .ok () c2 ∧
        c1.code.toList.map Instr.bare = c2.code.toList.map Instr.bare ++ [.pop (.temp 0)] := by
  have hcall : callSizeScanner.Shows
      ((Statement.callOn "a" "size" sizeArguments).tokens ++ [.symbol .rightBrace]) := by
    refine ⟨_, _, rfl, rfl, Prod.ext ?_ (Option.isNone_iff_eq_none.mp ?_)⟩
    · decide +kernel
    · decide +kernel
  have hvalue : sizeScanner.Shows
      ((Term.callOn "a" "size" sizeArguments).tokens ++ [.symbol .semicolon]) := by
    refine ⟨_, _, rfl, rfl, Prod.ext ?_ (Option.isNone_iff_eq_none.mp ?_)⟩
    · decide +kernel
    · decide +kernel
  have hends : EndsExpression [.symbol .semicolon] := endsExpression_symbol _ (by decide)
  have hstatement : (Statement.callOn "a" "size" sizeArguments).Resolved
      (Compiler.inSubroutine callSizeScanner).scope := by
    simp only [sizeArguments, Statement.Resolved, Expr.Resolved, Operations.Resolved,
      Term.Resolved, Arguments.Resolved]
    decide +kernel
  have hexpression : (Expr.mk (.callOn "a" "size" sizeArguments) .nil).Resolved
      (Compiler.inSubroutine sizeScanner).scope := by
    simp only [sizeArguments, Expr.Resolved, Operations.Resolved, Term.Resolved,
      Arguments.Resolved]
    decide +kernel
  rcases accepts_callOn_statement hstatement (List.cons_ne_nil _ _)
    (Compiler.inSubroutine callSizeScanner) ⟨rfl, rfl, rfl, hcall⟩ with ⟨c1, hfirst, _⟩
  rcases accepts_expression hexpression hends (List.cons_ne_nil _ _)
    (Compiler.inSubroutine sizeScanner) ⟨rfl, rfl, rfl, hvalue⟩ with ⟨c2, hsecond, _⟩
  have hagree : (Compiler.inSubroutine sizeScanner).scope.FormsAgree "a" "size" := by
    decide +kernel
  rcases call_forms_agree_iff (c := Compiler.inSubroutine sizeScanner) hcall hvalue hends.2
    hfirst hsecond with ⟨hcode, hcode', hiff⟩
  refine ⟨c1, c2, hfirst, hsecond, ?_⟩
  rw [hcode, hcode']
  exact hiff.mpr hagree

/-- A class with a function that calls a method of another class on a variable, as a statement
and as a value.  The function and the method have the same name. -/
def Syntax.Class.namesake : Syntax.Class where
  name := "A"
  vars := []
  subroutines :=
    [⟨.function, some .int, "g", [],
      ⟨[⟨⟨.named "B", "b", []⟩⟩],
        .cons (.callOn "b" "g" .nil) (.cons (.give (.mk (.callOn "b" "g" .nil) .nil)) .nil)⟩⟩]

def methodText : String :=
  "class B \x7b method int g() \x7b return 1; \x7d \x7d"

def namesakeText : String :=
  "class A \x7b function int g() \x7b var B b; do b.g(); return b.g(); \x7d \x7d"

/-- The value is not that of the method, and the object is left on the stack. -/
theorem call_forms_differ :
    (tokenize namesakeText).1 = Syntax.Class.namesake.tokens ∧
      (({} : Compiler).compile methodText).fault = none ∧
      (((({} : Compiler).compile methodText).compiler).compile namesakeText).fault = none ∧
      (((({} : Compiler).compile methodText).compiler).compile namesakeText).written.map
          Prod.fst =
        some [.function "A.g" 1, .push ⟨some .local, 0⟩ (some "Pushing callee"),
          .call "B.g" 1, .pop (.temp 0), .push ⟨some .local, 0⟩ (some "b"), .call "b.g" 0,
          .ret] := by
  decide +kernel

end Jack
