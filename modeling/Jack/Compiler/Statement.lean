import Jack.Compiler.Expression

/-!
# Statements

The statements of a block are compiled in their order.  Conditional statements
and loops draw their labels when they begin.
-/

namespace Jack
namespace Compile

/-!
# Simple statements
-/

/-- Whose subroutine is called on a name, and on which object.  A name that is
declared stands for an object of its type, any other name for a class. -/
def receiver (name : String) : Option Entry -> Option String × Option Place
  | some e =>
      if e.standing = .known .className then (some name, none)
      else (e.type, some e.place)
  | none => (some name, none)

/-- The subroutine that a call statement calls, and the place of the object it
is called on.  A name alone is a subroutine of the class at hand. -/
def callee (name : String) : CompileM (String × Option Place) := do
  if ← atSymbol .dot then
    takeSymbol .dot
    let (owner, object) := receiver name (← entry? (some name))
    let subroutine ← takeIdentifier
    pure (qualified owner (some subroutine), object)
  else
    let c ← get
    pure (qualified c.className (some name), some (.pointer 0))

def doStatement : CompileM Unit := do
  enter .doStatement
  let _ ← takeKeyword [.«do»]
  let name ← takeIdentifier
  let (subroutine, object) ← callee name
  match object with
  | some place => emit (.push place (some "Pushing callee"))
  | none => pure ()
  takeSymbol .leftParen
  let arguments ← expressionList
  takeSymbol .rightParen
  takeSymbol .semicolon
  emit (.call subroutine (arguments + (if object.isSome then 1 else 0)))
  emit (.pop (.temp 0))
  leave .doStatement

/-- Store the value on top of the stack at the address below it. -/
def storeCode : List Instr :=
  [.pop (.temp 0), .pop (.pointer 1), .push (.temp 0) none, .pop (.that 0)]

def letStatement : CompileM Unit := do
  enter .letStatement
  let _ ← takeKeyword [.«let»]
  let name ← takeIdentifier
  let target ← entry? (some name)
  let isElement ← atSymbol .leftBracket
  if isElement then
    takeSymbol .leftBracket
    expression
    emit (.push (← placeOf target) none)
    emit (.operate .add)
    takeSymbol .rightBracket
  takeSymbol .equal
  expression
  takeSymbol .semicolon
  if isElement then emitAll storeCode
  else emit (.pop (← placeOf target))
  leave .letStatement

def returnStatement : CompileM Unit := do
  enter .returnStatement
  let _ ← takeKeyword [.«return»]
  if ← atSymbol .semicolon then emit (.pushConstant 0)
  else expression
  takeSymbol .semicolon
  emit .ret
  leave .returnStatement

/-!
# Blocks
-/

mutual

def statementsWithin : Nat -> CompileM Unit
  | 0 => throw .endless
  | n + 1 => do
      enter .statements
      statementRunWithin n
      leave .statements

/-- Statements as long as one begins at the current token. -/
def statementRunWithin : Nat -> CompileM Unit
  | 0 => throw .endless
  | n + 1 => do
      match ← current with
      | some (.keyword .«let») =>
          letStatement
          statementRunWithin n
      | some (.keyword .«if») =>
          ifWithin n
          statementRunWithin n
      | some (.keyword .«while») =>
          whileWithin n
          statementRunWithin n
      | some (.keyword .«do») =>
          doStatement
          statementRunWithin n
      | some (.keyword .«return») =>
          returnStatement
          statementRunWithin n
      | _ => pure ()

def whileWithin : Nat -> CompileM Unit
  | 0 => throw .endless
  | n + 1 => do
      enter .whileStatement
      let _ ← takeKeyword [.«while»]
      let top ← drawLabel
      let exit ← drawLabel
      emit (.label top)
      takeSymbol .leftParen
      expression
      takeSymbol .rightParen
      emitAll [.operate .not, .ifGoto exit]
      takeSymbol .leftBrace
      statementsWithin n
      takeSymbol .rightBrace
      emitAll [.goto top, .label exit]
      leave .whileStatement

def ifWithin : Nat -> CompileM Unit
  | 0 => throw .endless
  | n + 1 => do
      enter .ifStatement
      let _ ← takeKeyword [.«if»]
      let whenTrue ← drawLabel
      let whenFalse ← drawLabel
      let done ← drawLabel
      takeSymbol .leftParen
      expression
      takeSymbol .rightParen
      emitAll [.ifGoto whenTrue, .goto whenFalse, .label whenTrue]
      takeSymbol .leftBrace
      statementsWithin n
      takeSymbol .rightBrace
      emitAll [.goto done, .label whenFalse]
      if ← atKeyword [.«else»] then
        let _ ← takeKeyword [.«else»]
        takeSymbol .leftBrace
        statementsWithin n
        takeSymbol .rightBrace
      emit (.label done)
      leave .ifStatement

end

def statements : CompileM Unit := do
  statementsWithin (← bound)

def whileStatement : CompileM Unit := do
  whileWithin (← bound)

def ifStatement : CompileM Unit := do
  ifWithin (← bound)

end Compile
end Jack
