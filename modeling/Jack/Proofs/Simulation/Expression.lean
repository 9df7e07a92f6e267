import Jack.Proofs.Acceptance.Expression
import Jack.Proofs.Declarations

/-!
# Compiled expressions have the value of the expression

The code of an expression pushes its value and leaves the rest of the machine as it was,
but for the base of the segment `that`, which moves with every element of an array.
-/

namespace Jack

/-!
# Arithmetic on words
-/

namespace Word

theorem wrap_add (x y : Word) : wrap (x.toInt + y.toInt) = x + y := by
  unfold wrap
  rw [BitVec.ofInt_add, BitVec.ofInt_toInt, BitVec.ofInt_toInt]

theorem wrap_neg (x : Word) : wrap (-x.toInt) = -x := by
  unfold wrap
  rw [BitVec.ofInt_neg, BitVec.ofInt_toInt]

theorem wrap_sub (x y : Word) : wrap (x.toInt - y.toInt) = x - y := by
  unfold wrap
  rw [Int.sub_eq_add_neg, BitVec.ofInt_add, BitVec.ofInt_neg, BitVec.ofInt_toInt,
    BitVec.ofInt_toInt, BitVec.sub_eq_add_neg]

theorem truth_decide (p : Prop) [Decidable p] :
    truth (decide p) = if p then BitVec.allOnes 16 else 0 := by
  by_cases h : p
  · rw [decide_eq_true h, if_pos h]
    rfl
  · rw [decide_eq_false h, if_neg h]
    rfl

end Word

/-- What the operators rely on.  A product is wrapped to a word.  A quotient is rounded
towards zero; a division by zero may have any result, or none. -/
structure Library.Computes (library : Library) (divide : Word -> Word -> Option Word) :
    Prop where
  multiply_eq : forall x y shared,
    library.result "Math.multiply" [x, y] shared =
      some (Word.wrap (x.toInt * y.toInt), shared)
  divide_eq : forall x y shared,
    library.result "Math.divide" [x, y] shared =
      (divide x y).map fun quotient => (quotient, shared)
  divide_of_ne_zero : forall x y : Word,
    y ≠ 0 -> divide x y = some (Word.wrap (x.toInt.tdiv y.toInt))

namespace Machine

/-- A value is pushed, and the segment `that` may have moved. -/
def holding (m : Machine) (value that : Word) : Machine :=
  { m with stack := value :: m.stack, that := that }

theorem executeAll_singleton (library : Library) (m : Machine) (instr : Instr) :
    m.executeAll library [instr] = m.execute library instr := by
  rw [executeAll]
  cases m.execute library instr <;> rfl

end Machine

namespace Syntax

open Machine

section

variable {library : Library} {divide : Word -> Word -> Option Word} {σ : Scope}

/-!
# Operators
-/

theorem Binary.execute_code (hlibrary : library.Computes divide) (op : Binary) (m : Machine)
    (x y that that' : Word) :
    ((m.holding x that).holding y that').execute library op.code =
      (op.value divide x y).map fun z => m.holding z that' := by
  cases op with
  | add => simp [Binary.code, execute, operate, holding, Binary.value, Word.wrap_add]
  | sub => simp [Binary.code, execute, operate, holding, Binary.value, Word.wrap_sub]
  | multiply =>
      simp [Binary.code, execute, call, holding, Binary.value, hlibrary.multiply_eq, shared]
  | divide =>
      cases hquotient : divide x y <;>
        simp [Binary.code, execute, call, holding, Binary.value, hlibrary.divide_eq, hquotient,
          shared]
  | and => simp [Binary.code, execute, operate, holding, Binary.value]
  | or => simp [Binary.code, execute, operate, holding, Binary.value]
  | less =>
      simp only [Binary.code, execute, operate, holding, Binary.value, Word.truth_decide,
        BitVec.slt_iff_toInt_lt, Option.map_some]
  | greater =>
      simp only [Binary.code, execute, operate, holding, Binary.value, Word.truth_decide,
        BitVec.slt_iff_toInt_lt, Option.map_some]
  | equal =>
      simp only [Binary.code, execute, operate, holding, Binary.value, Word.truth_decide,
        Option.map_some]

theorem Unary.execute_code (op : Unary) (m : Machine) (x that : Word) :
    (m.holding x that).execute library op.code = some (m.holding (op.value x) that) := by
  cases op with
  | negate => simp [Unary.code, execute, operate, holding, Unary.value, Word.wrap_neg]
  | invert => simp [Unary.code, execute, operate, holding, Unary.value]

theorem Constant.executeAll_code (value : Constant) (m : Machine) :
    m.executeAll library value.code = some (m.holding (value.value m.memory) m.that) := by
  cases value <;> rfl

/-!
# Names
-/

theorem executeAll_nameCode (library : Library) (hσ : σ.Declared) {name : String}
    (hname : σ.IsStored name) (m : Machine) :
    exists location, σ.location name = some location ∧
      m.executeAll library (σ.nameCode name) =
        some (m.holding (m.memory.load location) m.that) := by
  rcases hσ.exists_location hname with ⟨location, hlocation, hplace, _⟩
  refine ⟨location, hlocation, ?_⟩
  unfold Scope.nameCode
  rw [hplace]
  simp only [Option.map_some, Option.toList_some, executeAll_singleton, execute,
    m.read_place location]
  rfl

/-- The base of the array is below the index. -/
theorem executeAll_elementCode (library : Library) (m : Machine)
    (base index that that' : Word) :
    ((m.holding base that).holding index that').executeAll library elementCode =
      some (m.holding (m.memory.heap (elementAddress base index))
        (elementAddress base index)) := by
  unfold elementAddress
  rw [Word.wrap_add]
  simp [elementCode, executeAll, execute, operate, holding]

/-!
# Expressions

The machine pushes the value of the expression, or it stops where the value is not
defined.  The induction is on the tree, for every machine to start from.
-/

mutual

theorem Expr.executes (hlibrary : library.Computes divide) (hσ : σ.Declared) :
    forall e : Expr, e.Plain σ -> forall m : Machine, exists that,
      m.executeAll library (e.code σ) =
        (e.value σ.location divide m.memory).map fun v => m.holding v that
  | .mk first rest, hplain, m => by
      rcases Term.executes hlibrary hσ first hplain.1 m with ⟨that, hfirst⟩
      rw [Expr.code, Expr.value, executeAll_append, hfirst]
      cases first.value σ.location divide m.memory with
      | none => exact ⟨m.that, rfl⟩
      | some x => exact Operations.executes hlibrary hσ rest hplain.2 m x that

theorem Operations.executes (hlibrary : library.Computes divide) (hσ : σ.Declared) :
    forall rest : Operations, rest.Plain σ -> forall (m : Machine) (x that : Word),
      exists that', (m.holding x that).executeAll library (rest.code σ) =
        (rest.valueFrom σ.location divide m.memory x).map fun v => m.holding v that'
  | .nil, _, m, x, that => by
      refine ⟨that, ?_⟩
      rw [Operations.code, Operations.valueFrom]
      rfl
  | .cons op operand rest, hplain, m, x, that => by
      rcases Term.executes hlibrary hσ operand hplain.1 (m.holding x that)
        with ⟨that', hoperand⟩
      rw [Operations.code, Operations.valueFrom, executeAll_append, hoperand]
      change exists that'',
        ((operand.value σ.location divide m.memory).map _).bind _ = _
      cases operand.value σ.location divide m.memory with
      | none => exact ⟨that, rfl⟩
      | some y =>
          have hop := op.execute_code hlibrary m x y that that'
          simp only [Option.map_some, Option.bind_some, executeAll, hop]
          cases op.value divide x y with
          | none => exact ⟨that, rfl⟩
          | some z => exact Operations.executes hlibrary hσ rest hplain.2 m z that'

theorem Term.executes (hlibrary : library.Computes divide) (hσ : σ.Declared) :
    forall t : Term, t.Plain σ -> forall m : Machine, exists that,
      m.executeAll library (t.code σ) =
        (t.value σ.location divide m.memory).map fun v => m.holding v that
  | .integer digits, _, m => by
      refine ⟨m.that, ?_⟩
      rw [Term.code, Term.value, executeAll_singleton]
      simp [Instr.pushConstant, execute, holding, Word.wrap]
  | .constant value, _, m => by
      refine ⟨m.that, ?_⟩
      rw [Term.code, Term.value, value.executeAll_code]
      rfl
  | .paren inner, hplain, m => by
      rw [Term.code, Term.value]
      exact Expr.executes hlibrary hσ inner hplain m
  | .unary op operand, hplain, m => by
      rcases Term.executes hlibrary hσ operand hplain m with ⟨that, hoperand⟩
      refine ⟨that, ?_⟩
      rw [Term.code, Term.value, executeAll_append, hoperand]
      cases operand.value σ.location divide m.memory with
      | none => rfl
      | some x =>
          simp only [Option.map_some, Option.bind_some, executeAll_singleton]
          exact op.execute_code m x that
  | .var name, hplain, m => by
      rcases executeAll_nameCode library hσ hplain m with ⟨location, hlocation, hname⟩
      refine ⟨m.that, ?_⟩
      rw [Term.code, Term.value, hname, hlocation]
      rfl
  | .element name index, hplain, m => by
      rcases executeAll_nameCode library hσ hplain.1 m with ⟨location, hlocation, hname⟩
      rcases Expr.executes hlibrary hσ index hplain.2
        (m.holding (m.memory.load location) m.that) with ⟨that, hindex⟩
      rw [Term.code, Term.value, hlocation, executeAll_append, hname]
      simp only [Option.bind_some]
      rw [executeAll_append, hindex]
      change exists that'',
        ((index.value σ.location divide m.memory).map _).bind _ = _
      cases index.value σ.location divide m.memory with
      | none => exact ⟨that, rfl⟩
      | some i =>
          have helement := executeAll_elementCode library m (m.memory.load location) i
            m.that that
          exact ⟨_, helement⟩

end

/-!
Only a division by zero can leave an expression without a value.
-/

mutual

theorem Expr.isSome_value (hdivide : forall x y, (divide x y).isSome = true)
    (hσ : σ.Declared) (memory : Memory) :
    forall e : Expr, e.Plain σ -> (e.value σ.location divide memory).isSome = true
  | .mk first rest, hplain => by
      have hfirst := Term.isSome_value hdivide hσ memory first hplain.1
      rcases Option.isSome_iff_exists.mp hfirst with ⟨x, hx⟩
      rw [Expr.value, hx]
      exact Operations.isSome_valueFrom hdivide hσ memory rest hplain.2 x

theorem Operations.isSome_valueFrom (hdivide : forall x y, (divide x y).isSome = true)
    (hσ : σ.Declared) (memory : Memory) :
    forall rest : Operations, rest.Plain σ ->
      forall x, (rest.valueFrom σ.location divide memory x).isSome = true
  | .nil, _, x => by rw [Operations.valueFrom]; rfl
  | .cons op operand rest, hplain, x => by
      have hoperand := Term.isSome_value hdivide hσ memory operand hplain.1
      rcases Option.isSome_iff_exists.mp hoperand with ⟨y, hy⟩
      have hop : (op.value divide x y).isSome = true := by
        cases op with
        | divide => exact hdivide x y
        | _ => rfl
      rcases Option.isSome_iff_exists.mp hop with ⟨z, hz⟩
      rw [Operations.valueFrom, hy]
      simp only [Option.bind_some, hz]
      exact Operations.isSome_valueFrom hdivide hσ memory rest hplain.2 z

theorem Term.isSome_value (hdivide : forall x y, (divide x y).isSome = true)
    (hσ : σ.Declared) (memory : Memory) :
    forall t : Term, t.Plain σ -> (t.value σ.location divide memory).isSome = true
  | .integer digits, _ => by rw [Term.value]; rfl
  | .constant value, _ => by rw [Term.value]; rfl
  | .paren inner, hplain => by
      rw [Term.value]
      exact Expr.isSome_value hdivide hσ memory inner hplain
  | .unary op operand, hplain => by
      rw [Term.value, Option.isSome_map]
      exact Term.isSome_value hdivide hσ memory operand hplain
  | .var name, hplain => by
      rcases hσ.exists_location hplain with ⟨location, hlocation, _⟩
      rw [Term.value, hlocation]
      rfl
  | .element name index, hplain => by
      rcases hσ.exists_location hplain.1 with ⟨location, hlocation, _⟩
      rw [Term.value, hlocation]
      simp only [Option.bind_some, Option.isSome_map]
      exact Expr.isSome_value hdivide hσ memory index hplain.2

end

theorem Expr.exists_divide_zero (hlibrary : library.Computes divide) (hσ : σ.Declared)
    {memory : Memory} {e : Expr} (hplain : e.Plain σ)
    (hnone : e.value σ.location divide memory = none) : exists x, divide x 0 = none := by
  by_contra hzero
  have hdivide : forall x y, (divide x y).isSome = true := by
    intro x y
    by_cases hy : y = 0
    · subst hy
      rw [Option.isSome_iff_ne_none]
      intro h
      exact hzero ⟨x, h⟩
    · rw [hlibrary.divide_of_ne_zero x y hy]
      rfl
  have hsome := Expr.isSome_value hdivide hσ memory e hplain
  rw [hnone] at hsome
  cases hsome

end

end Syntax

/-!
# Compiling an expression
-/

open Compile Syntax

/-- An expression that stands ahead is compiled, the scanner stops at the sign behind it,
and the code that was added pushes the value of the expression on any machine. -/
theorem expression_preserves_value {c : Compiler} {e : Expr} {sign : Symbol}
    {rest : List Token} {library : Library} {divide : Word -> Word -> Option Word}
    (hopen : c.treeOpen = true) (hdeclared : c.scope.Declared) (hplain : e.Plain c.scope)
    (hsign : sign ∈ [.rightParen, .rightBracket, .semicolon, .comma])
    (hshows : c.scanner.Shows (e.tokens ++ .symbol sign :: rest))
    (hlibrary : library.Computes divide) :
    exists c' code, expression.run c = .ok () c' ∧
      c'.scanner.Shows (.symbol sign :: rest) ∧
      c'.code.toList = c.code.toList ++ code ∧
      (forall m : Machine, exists that,
        m.executeAll library code =
          (e.value c.scope.location divide m.memory).map fun v =>
            { m with stack := v :: m.stack, that := that }) ∧
      (forall memory, e.value c.scope.location divide memory = none ->
        exists x, divide x 0 = none) := by
  have hready : c.Ready c.scope c.labels (Tree.leaves e.marks ++ .symbol sign :: rest) := by
    rw [Expr.marks, Tree.leaves_enclose, Expr.leaves_parts]
    exact ⟨hopen, rfl, rfl, hshows⟩
  have hends := endsExpression_symbol rest hsign
  rcases accepts_expression hplain.resolved hends (List.cons_ne_nil _ _) c hready
    with ⟨c', hrun, hyields⟩
  refine ⟨c', e.code c.scope, hrun, ?_, ?_, ?_, ?_⟩
  · exact (hyields.ready hready (List.cons_ne_nil _ _)).shows
  · rw [hyields.code]
    simp
  · intro m
    exact Expr.executes hlibrary hdeclared e hplain m
  · intro memory hnone
    exact Expr.exists_divide_zero hlibrary hdeclared hplain hnone

/-!
# An expression at hand

A local array, an argument and a field, in an expression with an element and a product.
-/

/-- The subroutines behind `*` and `/`.  A division by zero stops the machine. -/
def Library.math : Library where
  result name arguments shared :=
    match name, arguments with
    | "Math.multiply", [x, y] => some (Word.wrap (x.toInt * y.toInt), shared)
    | "Math.divide", [x, y] =>
        if y = 0 then none else some (Word.wrap (x.toInt.tdiv y.toInt), shared)
    | _, _ => none

def Word.quotient (x y : Word) : Option Word :=
  if y = 0 then none else some (Word.wrap (x.toInt.tdiv y.toInt))

theorem Library.math_computes : Library.math.Computes Word.quotient := by
  constructor
  · intro x y shared
    rfl
  · intro x y shared
    show (if y = 0 then none else some (Word.wrap (x.toInt.tdiv y.toInt), shared)) = _
    unfold Word.quotient
    split <;> rfl
  · intro x y h
    exact if_neg h

/-- The tree of `a[i] * (x - 3)`. -/
def elementTimesDifference : Expr :=
  .mk (.element "a" (.mk (.var "i") .nil))
    (.cons .multiply (.paren (.mk (.var "x") (.cons .sub (.integer "3") .nil))) .nil)

def elementTimesDifferenceScanner : Scanner :=
  { rest := "i] * (x - 3);".toList
    current := some (.identifier "a")
    next := some (.symbol .leftBracket) }

theorem expression_preserves_value_of_element :
    exists c' code,
      expression.run (Compiler.inSubroutine elementTimesDifferenceScanner) = .ok () c' ∧
      c'.scanner.Shows [.symbol .semicolon] ∧ c'.code.toList = [] ++ code ∧
      (forall m : Machine, exists that,
        m.executeAll Library.math code =
          (elementTimesDifference.value
            (Compiler.inSubroutine elementTimesDifferenceScanner).scope.location
            Word.quotient m.memory).map fun v =>
            { m with stack := v :: m.stack, that := that }) ∧
      (forall memory, elementTimesDifference.value
          (Compiler.inSubroutine elementTimesDifferenceScanner).scope.location
          Word.quotient memory = none ->
        exists x, Word.quotient x 0 = none) := by
  have hplain : elementTimesDifference.Plain
      (Compiler.inSubroutine elementTimesDifferenceScanner).scope := by
    refine ⟨⟨⟨_, .var, rfl, rfl⟩, ⟨_, .argument, rfl, rfl⟩, trivial⟩, ?_, trivial⟩
    exact ⟨⟨_, .field, rfl, rfl⟩, trivial, trivial⟩
  have hshows : elementTimesDifferenceScanner.Shows
      (elementTimesDifference.tokens ++ [.symbol .semicolon]) := by
    refine ⟨_, _, rfl, rfl, Prod.ext ?_ (Option.isNone_iff_eq_none.mp ?_)⟩
    · decide +kernel
    · decide +kernel
  exact expression_preserves_value rfl (Compiler.declared_inSubroutine _) hplain
    (by decide) hshows Library.math_computes

end Jack
