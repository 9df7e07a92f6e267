import Jack.Compiler.Lookup

/-!
# Expressions

Operands are compiled from left to right, and every operator is written after
its operands; no operator binds tighter than another.

The routines come with a limit on how deep they may go.  One that reaches the
limit is taken never to end.  The limit of the public routines exceeds what
the rest of a source can call for, so they reach it only where the scanner no
longer moves.
-/

namespace Jack
namespace Compile

/-!
# Operators and constants
-/

def binary? : Symbol -> Option Instr
  | .plus => some (.operate .add)
  | .minus => some (.operate .sub)
  | .star => some (.call "Math.multiply" 2)
  | .slash => some (.call "Math.divide" 2)
  | .ampersand => some (.operate .and)
  | .bar => some (.operate .or)
  | .less => some (.operate .lt)
  | .greater => some (.operate .gt)
  | .equal => some (.operate .eq)
  | _ => none

def unary? : Symbol -> Option Instr
  | .minus => some (.operate .neg)
  | .tilde => some (.operate .not)
  | _ => none

/-- Code of the keywords that stand for a value. -/
def constant? : Keyword -> Option (List Instr)
  | .true => some [.pushConstant 0, .operate .not]
  | .false => some [.pushConstant 0]
  | .null => some [.pushConstant 0]
  | .this => some [.push (.pointer 0) none]
  | _ => none

/-- The operator at hand, if there is one, with its code. -/
def operator? : CompileM (Option (Symbol × Instr)) := do
  match ← current with
  | some (.symbol sign) => pure ((binary? sign).map fun instr => (sign, instr))
  | _ => pure none

/-!
# Routines with a limit
-/

/-- Push the value of a name that has one. -/
def pushName (name : String) : CompileM Unit := do
  match ← entry? (some name) with
  | some e =>
      match e.standing.segment? with
      | some segment => emit (.push ⟨some segment, e.index⟩ (some name))
      | none => pure ()
  | none => pure ()

/-- What a call on a name is qualified with, and how many arguments it has
beside the listed ones.  A method is called on the class of the name. -/
def callTarget (name subroutine : String) : CompileM (Option String × Nat) := do
  match ← subroutineEntry? (some name) (some subroutine) with
  | some e =>
      if e.type = some "method" then
        let type ← typeOf (← entry? (some name))
        pure (type, 1)
      else pure (some name, 0)
  | none => pure (some name, 0)

mutual

def expressionWithin : Nat -> CompileM Unit
  | 0 => throw .endless
  | n + 1 => do
      enter .expression
      let _ ← termWithin n
      operationsWithin n
      leave .expression

/-- Operators with the term behind each of them. -/
def operationsWithin : Nat -> CompileM Unit
  | 0 => throw .endless
  | n + 1 => do
      match ← operator? with
      | none => pure ()
      | some (sign, instr) =>
          takeSymbol sign
          let _ ← termWithin n
          emit instr
          operationsWithin n

/-- A term.  The result is the name it starts with, if it does, or the class
that a method of the name is called on. -/
def termWithin : Nat -> CompileM (Option String)
  | 0 => throw .endless
  | n + 1 => do
      enter .term
      let name ← operandWithin n
      leave .term
      pure name

/-- What a term consists of. -/
def operandWithin : Nat -> CompileM (Option String)
  | 0 => throw .endless
  | n + 1 => do
      match ← current with
      | some (.integer _) =>
          let value ← takeInteger
          emit (.pushConstant value)
          pure none
      | some (.string _) =>
          let _ ← takeString
          pure none
      | some (.keyword k) =>
          match constant? k with
          | some code =>
              let _ ← takeKeyword [k]
              emitAll code
              pure none
          | none => nameWithin n
      | some (.symbol sign) =>
          if sign = .leftParen then
            takeSymbol .leftParen
            expressionWithin n
            takeSymbol .rightParen
            pure none
          else
            match unary? sign with
            | some instr =>
                takeSymbol sign
                let _ ← termWithin n
                emit instr
                pure none
            | none => nameWithin n
      | _ => nameWithin n

/-- A name, alone or with an index, with arguments, or with a subroutine that
is called on it. -/
def nameWithin : Nat -> CompileM (Option String)
  | 0 => throw .endless
  | n + 1 => do
      let name ← takeIdentifier
      pushName name
      if ← atSymbol .leftBracket then
        takeSymbol .leftBracket
        expressionWithin n
        emitAll [.operate .add, .pop (.pointer 1), .push (.that 0) none]
        takeSymbol .rightBracket
        pure (some name)
      else if ← atSymbol .leftParen then
        takeSymbol .leftParen
        let arguments ← expressionListWithin n
        emit (.call name arguments)
        takeSymbol .rightParen
        pure (some name)
      else if ← atSymbol .dot then
        takeSymbol .dot
        let subroutine ← takeIdentifier
        let (target, extra) ← callTarget name subroutine
        takeSymbol .leftParen
        let arguments ← expressionListWithin n
        emit (.call (qualified target (some subroutine)) (arguments + extra))
        takeSymbol .rightParen
        pure target
      else pure (some name)

/-- Expressions between commas; the result is how many there are. -/
def expressionListWithin : Nat -> CompileM Nat
  | 0 => throw .endless
  | n + 1 => do
      enter .expressionList
      let first ←
        if ← atSymbol .rightParen then pure 0
        else do
          expressionWithin n
          pure 1
      let others ← moreExpressionsWithin n
      leave .expressionList
      pure (first + others)

/-- Expressions with a comma before each of them. -/
def moreExpressionsWithin : Nat -> CompileM Nat
  | 0 => throw .endless
  | n + 1 => do
      if ← atSymbol .comma then
        takeSymbol .comma
        expressionWithin n
        let others ← moreExpressionsWithin n
        pure (others + 1)
      else pure 0

end

/-!
# Public routines
-/

def expression : CompileM Unit := do
  expressionWithin (← bound)

def term : CompileM (Option String) := do
  termWithin (← bound)

def expressionList : CompileM Nat := do
  expressionListWithin (← bound)

end Compile
end Jack
