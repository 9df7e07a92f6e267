import Jack.Compiler.Statement

/-!
# Declarations, subroutines and classes

A class is compiled in one pass.  Its names are filed as they are declared, and
the size of its objects is the number of its static and field names.
-/

namespace Jack
namespace Compile

/-!
# The class and the subroutine at hand
-/

def useClass (name : Option String) : CompileM Unit :=
  fun c => .ok () { c with className := name }

def useSubroutine (name : Option String) : CompileM Unit :=
  fun c => .ok () { c with subroutineName := name }

/-- Give a class an empty table. -/
def openClass (name : String) : CompileM Unit :=
  fun c => .ok () { c with classes := c.classes.set name {} }

/-- Start on a subroutine with an empty table. -/
def openLocals : CompileM Unit :=
  fun c => .ok () { c with locals := some {} }

/-- Count the object that a method is called on as its first argument. -/
def reserveObject : CompileM Unit :=
  fun c => .ok () { c with locals := c.locals.map Table.reserveArgument }

def setSize (name : String) (size : Nat) : CompileM Unit :=
  fun c => .ok () { c with sizes := c.sizes.set name size }

/-!
# Declarations
-/

/-- File an entry in the table of the current subroutine. -/
def fileLocally (e : Entry) : CompileM Unit :=
  fun c =>
    match c.locals with
    | some table => .ok () { c with locals := some (table.insert e) }
    | none => .error .noTableToExtend c

/-- File an entry in the table of the current class. -/
def fileInClass (e : Entry) : CompileM Unit :=
  fun c =>
    match c.className with
    | none => .error (.missingKey .absent) c
    | some name =>
        match c.classes.get? name with
        | some table => .ok () { c with classes := c.classes.set name (table.insert e) }
        | none => .error (.missingKey (.text name)) c

def entryOf (category : Category) (name : String) (type : Option String) : Entry :=
  { name := some name
    standing := .known category
    segment := category.segment?
    type := type }

/-- Take the name that is declared, and file it where its category belongs.  A
class or a subroutine becomes the current one. -/
def declare (category : Category) (type : Option String) : CompileM String := do
  let name ← takeIdentifier
  let e := entryOf category name type
  match category with
  | .className => useClass (some name)
  | .subroutine =>
      useSubroutine (some name)
      fileInClass e
  | .stored .var => fileLocally e
  | .stored .argument => fileLocally e
  | .stored .static => fileInClass e
  | .stored .field => fileInClass e
  pure name

/-- How many names there are in all. -/
def total : List Nat -> Nat
  | [] => 0
  | count :: rest => count + total rest

/-- Names of one type between commas, up to a semicolon; the result is how many
there are. -/
def declareNames (category : Category) : CompileM Nat := do
  let type ← takeType
  let _ ← declare category (some type)
  let others ← repeatWhile (atSymbol .comma) do
    takeSymbol .comma
    declare category (some type)
  takeSymbol .semicolon
  pure (others.length + 1)

def classVarDec : CompileM Nat := do
  enter .classVarDec
  let _ ← currentKeyword
  let word ← takeKeyword [.static, .field]
  let storage := if word = .static then Storage.static else Storage.field
  let names ← declareNames (.stored storage)
  leave .classVarDec
  pure names

def varDec : CompileM Nat := do
  enter .varDec
  let _ ← takeKeyword [.var]
  let names ← declareNames (.stored .var)
  leave .varDec
  pure names

/-!
# Subroutines
-/

def parameter : CompileM Unit := do
  let type ← takeType
  let _ ← declare (.stored .argument) (some type)
  pure ()

/-- Parameters between commas; the result is how many there are. -/
def parameterList : CompileM Nat := do
  enter .parameterList
  let first ←
    if ← atSymbol .rightParen then pure 0
    else do
      parameter
      pure 1
  let others ← repeatWhile (atSymbol .comma) do
    takeSymbol .comma
    parameter
  leave .parameterList
  pure (first + others.length)

/-- Code at the start of a subroutine, by the type its name is filed with: a
constructor makes its object, and a method takes it from its first argument. -/
def prologue (type : Option String) : CompileM Unit := do
  if type = some "constructor" then
    let size ← classSize
    emitAll [.pushConstant size, .call "Memory.alloc" 1, .pop (.pointer 0)]
  else if type = some "method" then
    emitAll [.push (.argument 0) none, .pop (.pointer 0)]

def subroutineBody : CompileM Unit := do
  enter .subroutineBody
  takeSymbol .leftBrace
  let vars ← repeatWhile (atKeyword [.var]) varDec
  let c ← get
  emit (.function (qualified c.className c.subroutineName) (total vars))
  prologue (← typeOf (← entry? c.subroutineName))
  statements
  takeSymbol .rightBrace
  leave .subroutineBody

/-- The words a subroutine begins with. -/
def subroutineWords : List Keyword := [.constructor, .function, .method]

/-- Take what a subroutine returns. -/
def takeReturnType : CompileM Unit := do
  if ← atKeyword [.void] then
    let _ ← takeKeyword [.void]
    pure ()
  else
    let _ ← takeType
    pure ()

def subroutine : CompileM Unit := do
  enter .subroutineDec
  openLocals
  let _ ← currentKeyword
  let word ← takeKeyword subroutineWords
  takeReturnType
  let _ ← declare .subroutine (some word.word)
  if word = .method then reserveObject
  takeSymbol .leftParen
  let _ ← parameterList
  takeSymbol .rightParen
  subroutineBody
  leave .subroutineDec

/-!
# Classes
-/

def classUnit : CompileM Unit := do
  enter .«class»
  let _ ← takeKeyword [.«class»]
  let name ← declare .className none
  openClass name
  takeSymbol .leftBrace
  let names ← repeatWhile (atKeyword [.static, .field]) classVarDec
  setSize name (total names)
  let _ ← repeatWhile (atKeyword subroutineWords) subroutine
  takeSymbol .rightBrace
  leave .«class»
  closeTree

end Compile

/-!
# Sources
-/

/-- What came of a source: the fault that stopped it, if one did, and the code
and the tree as far as they were written.  There are none of these if the first
token could not be read. -/
structure Outcome where
  fault : Option Fault
  written : Option (List Instr × List Tree.Line)
  compiler : Compiler

namespace Compiler

def written (c : Compiler) : List Instr × List Tree.Line :=
  (c.code.toList, c.tree.toList)

/-- Compile a source that holds one class. -/
def compile (c : Compiler) (text : String) : Outcome :=
  match Scanner.ofText text with
  | .error fault => ⟨some fault, none, c⟩
  | .ok scanner =>
      match (do Compile.start scanner; Compile.classUnit : CompileM Unit) c with
      | .ok () c => ⟨none, some c.written, c⟩
      | .error fault c => ⟨some fault, some c.written, c⟩

end Compiler

end Jack
