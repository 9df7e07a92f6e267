import Jack.Proofs.Recognition.Class
import Jack.Proofs.Sources

/-!
# Braces of accepted sources

The braces of every construct are balanced.  A class closes its own braces with its
last token and not before.  This tells which sources are accepted although they
hold no class: the last token of a source can be taken again, so a source that ends
in a closing brace is accepted even if further closing braces are missing.
-/

namespace Jack
namespace Syntax

/-!
# Depth of braces
-/

/-- How many braces are open behind some tokens.  No brace is closed that is not
open. -/
def braceDepth : Nat -> List Token -> Option Nat
  | depth, [] => some depth
  | depth, token :: rest =>
      if token = .symbol .leftBrace then braceDepth (depth + 1) rest
      else if token = .symbol .rightBrace then
        match depth with
        | 0 => none
        | depth + 1 => braceDepth depth rest
      else braceDepth depth rest

theorem braceDepth_append (depth : Nat) (first second : List Token) :
    braceDepth depth (first ++ second) =
      (braceDepth depth first).bind fun middle => braceDepth middle second := by
  induction first generalizing depth with
  | nil => rfl
  | cons token rest ih =>
      simp only [List.cons_append, braceDepth]
      split
      · exact ih (depth + 1)
      · split
        · cases depth with
          | zero => rfl
          | succ depth => exact ih depth
        · exact ih depth

theorem add_count_of_braceDepth {depth result : Nat} {tokens : List Token}
    (h : braceDepth depth tokens = some result) :
    result + tokens.count (.symbol .rightBrace) =
      depth + tokens.count (.symbol .leftBrace) := by
  induction tokens generalizing depth with
  | nil =>
      cases h
      rfl
  | cons token rest ih =>
      unfold braceDepth at h
      split at h
      · next hleft =>
          subst hleft
          have hrest := ih h
          rw [List.count_cons_self, List.count_cons_of_ne (by decide)]
          omega
      · next hleft =>
          split at h
          · next hright =>
              subst hright
              cases depth with
              | zero => cases h
              | succ depth =>
                  have hrest := ih h
                  rw [List.count_cons_self, List.count_cons_of_ne (by decide)]
                  omega
          · next hright =>
              rw [List.count_cons_of_ne hleft, List.count_cons_of_ne hright]
              exact ih h

theorem exists_braceDepth_of_prefix {depth result : Nat} {tokens front : List Token}
    (h : braceDepth depth tokens = some result) (hfront : front <+: tokens) :
    exists middle, braceDepth depth front = some middle := by
  rcases hfront with ⟨rest, hrest⟩
  rw [← hrest, braceDepth_append] at h
  rcases Option.bind_eq_some_iff.mp h with ⟨middle, hmiddle, _⟩
  exact ⟨middle, hmiddle⟩

/-- Every brace that is opened is closed, and the other way round. -/
def Balanced (tokens : List Token) : Prop :=
  forall depth, braceDepth depth tokens = some depth

theorem balanced_nil : Balanced [] := fun _ => rfl

theorem Balanced.append {first second : List Token} (hfirst : Balanced first)
    (hsecond : Balanced second) : Balanced (first ++ second) := by
  intro depth
  rw [braceDepth_append, hfirst depth]
  exact hsecond depth

theorem Balanced.braced {inner rest : List Token} (hinner : Balanced inner)
    (hrest : Balanced rest) :
    Balanced (.symbol .leftBrace :: (inner ++ .symbol .rightBrace :: rest)) := by
  intro depth
  simp only [braceDepth, if_true, braceDepth_append, hinner (depth + 1), Option.bind_some]
  simpa using hrest depth

theorem Balanced.flatMap {items : List α} {tokens : α -> List Token}
    (h : forall a, Balanced (tokens a)) : Balanced (items.flatMap tokens) := by
  induction items with
  | nil => exact balanced_nil
  | cons item rest ih =>
      rw [List.flatMap_cons]
      exact (h item).append ih

/-!
# Tokens without braces
-/

def isBrace (token : Token) : Bool :=
  decide (token = .symbol .leftBrace) || decide (token = .symbol .rightBrace)

/-- There is no brace among the tokens. -/
def Braceless (tokens : List Token) : Prop :=
  forall token, token ∈ tokens -> isBrace token = false

theorem Braceless.balanced_append {front rest : List Token} (h : Braceless front)
    (hrest : Balanced rest) : Balanced (front ++ rest) := by
  induction front with
  | nil => exact hrest
  | cons token front ih =>
      have htoken := h token (List.mem_cons_self)
      simp only [isBrace, Bool.or_eq_false_iff, decide_eq_false_iff_not] at htoken
      intro depth
      simp only [List.cons_append, braceDepth, htoken.1, htoken.2, if_false]
      exact ih (fun t ht => h t (List.mem_cons_of_mem _ ht)) depth

theorem Braceless.balanced {tokens : List Token} (h : Braceless tokens) :
    Balanced tokens := by
  simpa using h.balanced_append balanced_nil

@[simp] theorem isBrace_binary (op : Binary) : isBrace (.symbol op.symbol) = false := by
  cases op <;> rfl

@[simp] theorem isBrace_unary (op : Unary) : isBrace (.symbol op.symbol) = false := by
  cases op <;> rfl

@[simp] theorem isBrace_type (type : TypeName) : isBrace type.token = false := by
  cases type <;> rfl

mutual

theorem Expr.braceless : forall e : Expr, Braceless e.tokens
  | .mk first rest => by
      have hfirst := Term.braceless first
      have hrest := Operations.braceless rest
      unfold Braceless at hfirst hrest ⊢
      simp only [Expr.tokens, List.forall_mem_append]
      exact ⟨hfirst, hrest⟩

theorem Operations.braceless : forall rest : Operations, Braceless rest.tokens
  | .nil => by
      intro token h
      cases h
  | .cons op operand rest => by
      have hoperand := Term.braceless operand
      have hrest := Operations.braceless rest
      unfold Braceless at hoperand hrest ⊢
      simp only [Operations.tokens, List.forall_mem_cons, List.forall_mem_append]
      exact ⟨isBrace_binary op, hoperand, hrest⟩

theorem Term.braceless : forall t : Term, Braceless t.tokens
  | .integer digits => by simp [Braceless, Term.tokens, isBrace]
  | .string text => by simp [Braceless, Term.tokens, isBrace]
  | .constant value => by simp [Braceless, Term.tokens, isBrace]
  | .paren inner => by
      have hinner := Expr.braceless inner
      unfold Braceless at hinner ⊢
      simp only [Term.tokens, List.forall_mem_cons, List.forall_mem_append]
      exact ⟨rfl, hinner, rfl, nofun⟩
  | .unary op operand => by
      have hoperand := Term.braceless operand
      unfold Braceless at hoperand ⊢
      simp only [Term.tokens, List.forall_mem_cons]
      exact ⟨isBrace_unary op, hoperand⟩
  | .var name => by simp [Braceless, Term.tokens, isBrace]
  | .element name index => by
      have hindex := Expr.braceless index
      unfold Braceless at hindex ⊢
      simp only [Term.tokens, List.forall_mem_cons, List.forall_mem_append]
      exact ⟨rfl, rfl, hindex, rfl, nofun⟩
  | .call name arguments => by
      have harguments := Arguments.braceless arguments
      unfold Braceless at harguments ⊢
      simp only [Term.tokens, List.forall_mem_cons, List.forall_mem_append]
      exact ⟨rfl, rfl, harguments, rfl, nofun⟩
  | .callOn owner name arguments => by
      have harguments := Arguments.braceless arguments
      unfold Braceless at harguments ⊢
      simp only [Term.tokens, List.forall_mem_cons, List.forall_mem_append]
      exact ⟨rfl, rfl, rfl, rfl, harguments, rfl, nofun⟩

theorem Arguments.braceless : forall arguments : Arguments, Braceless arguments.tokens
  | .nil => by
      intro token h
      cases h
  | .cons first rest => by
      have hfirst := Expr.braceless first
      have hrest := Arguments.braceless_tokensAfterFirst rest
      unfold Braceless at hfirst hrest ⊢
      simp only [Arguments.tokens, List.forall_mem_append]
      exact ⟨hfirst, hrest⟩

theorem Arguments.braceless_tokensAfterFirst :
    forall arguments : Arguments, Braceless arguments.tokensAfterFirst
  | .nil => by
      intro token h
      cases h
  | .cons first rest => by
      have hfirst := Expr.braceless first
      have hrest := Arguments.braceless_tokensAfterFirst rest
      unfold Braceless at hfirst hrest ⊢
      simp only [Arguments.tokensAfterFirst, List.forall_mem_cons, List.forall_mem_append]
      exact ⟨rfl, hfirst, hrest⟩

end

/-!
# Braces of statements, declarations and classes
-/

theorem Balanced.cons {token : Token} {rest : List Token} (htoken : isBrace token = false)
    (hrest : Balanced rest) : Balanced (token :: rest) := by
  have hone : Braceless [token] := by simpa [Braceless] using htoken
  exact hone.balanced_append hrest

theorem balanced_semicolon : Balanced [.symbol .semicolon] :=
  balanced_nil.cons rfl

theorem balanced_endOfCall : Balanced [.symbol .rightParen, .symbol .semicolon] :=
  balanced_semicolon.cons rfl

mutual

theorem Statement.balanced : forall s : Statement, Balanced s.tokens
  | .assign name value => by
      have hvalue := value.braceless.balanced_append balanced_semicolon
      exact ((hvalue.cons rfl).cons rfl).cons rfl
  | .store name index value => by
      have hvalue := value.braceless.balanced_append balanced_semicolon
      have hstored : Balanced (.symbol .rightBracket :: .symbol .equal ::
          (value.tokens ++ [.symbol .semicolon])) := (hvalue.cons rfl).cons rfl
      exact (((index.braceless.balanced_append hstored).cons rfl).cons rfl).cons rfl
  | .call name arguments => by
      have hcall := arguments.braceless.balanced_append balanced_endOfCall
      exact ((hcall.cons rfl).cons rfl).cons rfl
  | .callOn owner name arguments => by
      have hcall := arguments.braceless.balanced_append balanced_endOfCall
      exact ((((hcall.cons rfl).cons rfl).cons rfl).cons rfl).cons rfl
  | .leave => balanced_semicolon.cons rfl
  | .give value => (value.braceless.balanced_append balanced_semicolon).cons rfl
  | .ifThen condition body => by
      have hbody := (Block.balanced body).braced balanced_nil
      exact ((condition.braceless.balanced_append (hbody.cons rfl)).cons rfl).cons rfl
  | .ifElse condition body other => by
      have hother : Balanced (.keyword .«else» :: .symbol .leftBrace ::
          (other.tokens ++ [.symbol .rightBrace])) :=
        ((Block.balanced other).braced balanced_nil).cons rfl
      have hbody := (Block.balanced body).braced hother
      exact ((condition.braceless.balanced_append (hbody.cons rfl)).cons rfl).cons rfl
  | .loop condition body => by
      have hbody := (Block.balanced body).braced balanced_nil
      exact ((condition.braceless.balanced_append (hbody.cons rfl)).cons rfl).cons rfl

theorem Block.balanced : forall block : Block, Balanced block.tokens
  | .nil => balanced_nil
  | .cons first rest => (Statement.balanced first).append (Block.balanced rest)

end

theorem Names.balanced (names : Names) : Balanced names.tokens := by
  have hothers : Balanced (names.others.flatMap fun name =>
      [.symbol .comma, .identifier name]) :=
    Balanced.flatMap fun _ => (balanced_nil.cons rfl).cons rfl
  exact ((hothers.append balanced_semicolon).cons rfl).cons (isBrace_type names.type)

theorem ClassVar.balanced (v : ClassVar) : Balanced v.tokens :=
  v.names.balanced.cons (by simp [isBrace])

theorem LocalVar.balanced (v : LocalVar) : Balanced v.tokens :=
  v.names.balanced.cons rfl

theorem Parameter.balanced (p : Parameter) : Balanced p.tokens :=
  (balanced_nil.cons rfl).cons (isBrace_type p.type)

theorem Parameter.balanced_listTokens (parameters : List Parameter) :
    Balanced (listTokens parameters) := by
  cases parameters with
  | nil => exact balanced_nil
  | cons first others =>
      exact first.balanced.append (Balanced.flatMap fun p => p.balanced.cons rfl)

theorem Body.balanced (body : Body) : Balanced body.tokens := by
  have hvars : Balanced (body.vars.flatMap LocalVar.tokens) :=
    Balanced.flatMap LocalVar.balanced
  have hbraced := (hvars.append body.block.balanced).braced balanced_nil
  rwa [List.append_assoc] at hbraced

theorem Subroutine.balanced (s : Subroutine) : Balanced s.tokens := by
  have hresult : isBrace s.resultToken = false := by
    unfold Subroutine.resultToken
    cases s.result with
    | none => rfl
    | some type => exact isBrace_type type
  have hbody : Balanced (.symbol .rightParen :: s.body.tokens) := s.body.balanced.cons rfl
  have hparameters := (Parameter.balanced_listTokens s.parameters).append hbody
  exact (((hparameters.cons rfl).cons rfl).cons hresult).cons rfl

/-- What stands between the braces of a class. -/
def Class.inner (unit : Class) : List Token :=
  unit.vars.flatMap ClassVar.tokens ++ unit.subroutines.flatMap Subroutine.tokens

theorem Class.tokens_eq (unit : Class) :
    unit.tokens =
      .keyword .«class» :: .identifier unit.name :: .symbol .leftBrace ::
        (unit.inner ++ [.symbol .rightBrace]) := by
  rw [Class.tokens, Class.inner, List.append_assoc]

theorem Class.balanced_inner (unit : Class) : Balanced unit.inner :=
  (Balanced.flatMap ClassVar.balanced).append (Balanced.flatMap Subroutine.balanced)

theorem Class.balanced (unit : Class) : Balanced unit.tokens := by
  rw [unit.tokens_eq]
  exact ((unit.balanced_inner.braced balanced_nil).cons rfl).cons rfl

/-!
# Classes with their last tokens missing
-/

theorem exists_tail_of_mem {token other : Token} {front rest : List Token}
    (hfront : front <+: other :: rest) (hmem : token ∈ front) (hne : token ≠ other) :
    exists tail, front = other :: tail ∧ tail <+: rest ∧ token ∈ tail := by
  cases front with
  | nil => cases hmem
  | cons first tail =>
      rcases List.cons_prefix_cons.mp hfront with ⟨rfl, htail⟩
      exact ⟨tail, rfl, htail, (List.mem_cons.mp hmem).resolve_left hne⟩

/-- Before its last token a class has a brace open. -/
theorem Class.count_lt_of_prefix (unit : Class) {front : List Token}
    (hfront : front <+: .keyword .«class» :: .identifier unit.name ::
      .symbol .leftBrace :: unit.inner)
    (hopen : .symbol .leftBrace ∈ front) :
    front.count (.symbol .rightBrace) < front.count (.symbol .leftBrace) := by
  rcases exists_tail_of_mem hfront hopen (by decide) with ⟨_, rfl, hfront, hopen⟩
  rcases exists_tail_of_mem hfront hopen (by simp) with ⟨front, rfl, hfront, hopen⟩
  cases front with
  | nil => cases hopen
  | cons first front =>
      rcases List.cons_prefix_cons.mp hfront with ⟨rfl, hinner⟩
      rcases exists_braceDepth_of_prefix (unit.balanced_inner 0) hinner with ⟨depth, hdepth⟩
      have hcount := add_count_of_braceDepth hdepth
      rw [List.count_cons_of_ne (by decide), List.count_cons_of_ne (by simp),
        List.count_cons_of_ne (by decide), List.count_cons_of_ne (by decide),
        List.count_cons_of_ne (by simp), List.count_cons_self]
      omega

/-- Some first tokens have opened a brace and closed all that they have opened. -/
def ClosesBraces (tokens : List Token) : Prop :=
  exists front, front <+: tokens ∧ .symbol .leftBrace ∈ front ∧
    front.count (.symbol .leftBrace) = front.count (.symbol .rightBrace)

theorem Class.closesBraces {unit : Class} {tokens : List Token}
    (h : unit.tokens <+: tokens) : ClosesBraces tokens := by
  refine ⟨unit.tokens, h, by simp [Class.tokens], ?_⟩
  have hcount := add_count_of_braceDepth (unit.balanced 0)
  omega

theorem Class.not_closesBraces {unit : Class} {tokens : List Token} {missing : Nat}
    (h : unit.tokens = tokens ++ List.replicate (missing + 1) (.symbol .rightBrace)) :
    ¬ ClosesBraces tokens := by
  intro hcloses
  rcases hcloses with ⟨front, hfront, hopen, hcount⟩
  -- without the last of its tokens the class still has all of `tokens`
  rw [unit.tokens_eq, List.replicate_succ', ← List.append_assoc, ← List.cons_append,
    ← List.cons_append, ← List.cons_append] at h
  have hlast := (List.append_inj' h rfl).1
  have hprefix : front <+: .keyword .«class» :: .identifier unit.name ::
      .symbol .leftBrace :: unit.inner := by
    rw [hlast]
    exact hfront.trans (List.prefix_append _ _)
  have hlt := unit.count_lt_of_prefix hprefix hopen
  omega

end Syntax

/-!
# Accepted sources
-/

open Syntax

/-- The tokens begin with the class, or they become the class when closing braces are
added at their end, where they have one already. -/
def Syntax.Class.WrittenIn (unit : Syntax.Class) (tokens : List Token) : Prop :=
  unit.tokens <+: tokens ∨
    exists missing, tokens.getLast? = some (.symbol .rightBrace) ∧
      unit.tokens = tokens ++ List.replicate (missing + 1) (.symbol .rightBrace)

namespace Compiler

theorem Makes.writtenIn {unit : Syntax.Class} {code : List Instr} {labels : Nat} {t : Tables}
    {c c1 d : Compiler} {text : String} (hmakes : c1.Makes unit.marks code labels t d)
    (hload : (Compile.load text).run c = .ok () c1) : unit.WrittenIn (tokenize text).1 := by
  have htakes := hmakes.takes.begins_or_repeats none (by simp)
  rw [Option.toList_none, List.append_nil, unit.leaves_marks, Compile.ahead_of_load hload]
    at htakes
  rcases htakes with hbegins | ⟨last, repeats, hlast, htokens⟩
  · exact Or.inl hbegins
  · cases repeats with
    | zero => exact Or.inl ⟨[], by simpa using htokens⟩
    | succ missing =>
        have hbrace : last = .symbol .rightBrace := by
          have hend := congrArg List.getLast? htokens
          rw [unit.tokens_eq, List.replicate_succ'] at hend
          simpa [List.getLast?_append, List.getLast?_cons] using hend.symm
        subst hbrace
        exact Or.inr ⟨missing, hlast, htokens⟩

/-- An accepted source holds a class, up to closing braces at its end, and the names of the
class can be looked up.  The code and the tree of the class are written, and the tables are
those that the class makes. -/
theorem exists_tables_of_compile {c : Compiler} {text : String}
    (h : (c.compile text).fault = none) :
    exists (unit : Syntax.Class) (s : Scanner), unit.WrittenIn (tokenize text).1 ∧
      unit.Resolved c.scope c.labels ∧
      (c.compile text).written =
        some (unit.code c.scope c.labels, Tree.linesFrom 0 unit.marks) ∧
      (c.compile text).compiler.tables = unit.tables (c.started s).tables := by
  rcases exists_load_of_compile h with ⟨c1, c2, hload, hrun, hcompile⟩
  rcases Compile.classUnit_makes hrun with ⟨unit, d, hresolved, hmakes, rfl⟩
  have hwritten := hmakes.writtenIn hload
  rcases Compile.run_load_eq_ok_iff.mp hload with ⟨_, s, _, _, rfl⟩
  refine ⟨unit, s, hwritten, hresolved, ?_, ?_⟩
  · rw [hcompile]
    exact congrArg some (hmakes.written rfl rfl rfl)
  · rw [hcompile]
    exact hmakes.tables

/-- The size of an accepted class is kept. -/
theorem exists_resolved_of_compile {c : Compiler} {text : String}
    (h : (c.compile text).fault = none) :
    exists unit : Syntax.Class, unit.WrittenIn (tokenize text).1 ∧
      unit.Resolved c.scope c.labels ∧
      (c.compile text).written =
        some (unit.code c.scope c.labels, Tree.linesFrom 0 unit.marks) ∧
      (c.compile text).compiler.sizes.get? unit.name = some unit.size := by
  rcases exists_tables_of_compile h with ⟨unit, s, htokens, hresolved, hwritten, htables⟩
  refine ⟨unit, htokens, hresolved, hwritten, ?_⟩
  have hsizes : (c.compile text).compiler.sizes = (unit.tables (c.started s).tables).sizes :=
    congrArg Tables.sizes htables
  rw [hsizes, unit.sizes_tables]
  exact Bindings.get?_set_self _ _ _

theorem exists_written_of_compile {c : Compiler} {text : String}
    (h : (c.compile text).fault = none) :
    exists unit : Syntax.Class, unit.WrittenIn (tokenize text).1 ∧
      (c.compile text).written =
        some (unit.code c.scope c.labels, Tree.linesFrom 0 unit.marks) := by
  rcases exists_resolved_of_compile h with ⟨unit, hunit, _, hwritten, _⟩
  exact ⟨unit, hunit, hwritten⟩

theorem exists_class_of_compile {c : Compiler} {text : String}
    (h : (c.compile text).fault = none) :
    exists unit : Syntax.Class, unit.WrittenIn (tokenize text).1 := by
  rcases exists_written_of_compile h with ⟨unit, hunit, _⟩
  exact ⟨unit, hunit⟩

end Compiler

/-- An accepted source holds a class up to closing braces that are missing at its end.
It begins with a class exactly if the braces it opens are closed. -/
theorem compile_accepts_class_or_unclosed {c : Compiler} {text : String}
    (h : (c.compile text).fault = none) :
    (exists unit : Syntax.Class, unit.tokens <+: (tokenize text).1 ∨
      exists missing, (tokenize text).1.getLast? = some (.symbol .rightBrace) ∧
        unit.tokens = (tokenize text).1 ++ List.replicate (missing + 1) (.symbol .rightBrace)) ∧
    ((exists unit : Syntax.Class, unit.tokens <+: (tokenize text).1) ↔
      ClosesBraces (tokenize text).1) := by
  have hclass := Compiler.exists_class_of_compile h
  refine ⟨hclass, ?_⟩
  constructor
  · intro hexists
    rcases hexists with ⟨unit, hunit⟩
    exact unit.closesBraces hunit
  · intro hcloses
    rcases hclass with ⟨unit, hbegins | ⟨missing, _, hunclosed⟩⟩
    · exact ⟨unit, hbegins⟩
    · exact absurd hcloses (Class.not_closesBraces hunclosed)

/-- The brace of the function stands for that of the class, too. -/
theorem compile_accepts_unclosed_function :
    (({} : Compiler).compile "class A \x7b function void f() \x7b \x7d").fault = none ∧
      exists unit : Syntax.Class, unit.tokens <+:
          (tokenize "class A \x7b function void f() \x7b \x7d").1 ∨
        exists missing, (tokenize "class A \x7b function void f() \x7b \x7d").1.getLast? =
            some (.symbol .rightBrace) ∧
          unit.tokens = (tokenize "class A \x7b function void f() \x7b \x7d").1 ++
            List.replicate (missing + 1) (.symbol .rightBrace) := by
  have haccepted : (({} : Compiler).compile
      "class A \x7b function void f() \x7b \x7d").fault = none := by
    decide +kernel
  exact ⟨haccepted, (compile_accepts_class_or_unclosed haccepted).1⟩

theorem compile_accepts_without_class :
    (({} : Compiler).compile "class A \x7b function void f() \x7b \x7d").fault = none ∧
      ¬ exists unit : Syntax.Class, unit.tokens <+:
        (tokenize "class A \x7b function void f() \x7b \x7d").1 := by
  refine ⟨by decide +kernel, ?_⟩
  intro h
  rcases h with ⟨unit, hunit⟩
  have hclosed : Class.tokens ⟨"A", [], [⟨.function, none, "f", [], ⟨[], .nil⟩⟩]⟩ =
      (tokenize "class A \x7b function void f() \x7b \x7d").1 ++
        List.replicate (0 + 1) (.symbol .rightBrace) := by
    decide +kernel
  exact Class.not_closesBraces hclosed (Class.closesBraces hunit)

end Jack
