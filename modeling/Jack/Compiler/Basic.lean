import Jack.Names.Table
import Jack.Token.Scanner
import Jack.Tree

/-!
# The compiler

A compiler reads one source after the other.  It writes code and a tree for
each of them, and keeps the tables of all classes it has met.  A step that
fails leaves the compiler as it stood at the fault, with what was written so
far; the next source starts from there.
-/

namespace Jack

structure Compiler where
  scanner : Scanner := { rest := [], isOpen := false }
  code : Array Instr := #[]
  tree : Array Tree.Line := #[]
  /-- The tree is closed at the end of its class. -/
  treeOpen : Bool := true
  /-- How many constructs are open around the next line of the tree. -/
  depth : Int := 0
  className : Option String := none
  subroutineName : Option String := none
  /-- The names of the current subroutine. -/
  locals : Option (Table Entry) := none
  /-- The names of each class. -/
  classes : Bindings String (Table Entry) := {}
  /-- How many words an object of each type takes. -/
  sizes : Bindings String Nat := ⟨[("int", 1), ("bool", 1), ("char", 1)]⟩
  /-- How many labels have been drawn. -/
  labels : Nat := 0

abbrev CompileM := EStateM Fault Compiler

namespace Compile

/-!
# Writing
-/

def emit (instr : Instr) : CompileM Unit :=
  fun c => .ok () { c with code := c.code.push instr }

def emitAll : List Instr -> CompileM Unit
  | [] => pure ()
  | instr :: rest => do
      emit instr
      emitAll rest

def writeMark (mark : Tree.Mark) : CompileM Unit :=
  fun c =>
    if c.treeOpen then .ok () { c with tree := c.tree.push ⟨c.depth, mark⟩ }
    else .error .closedTree c

def deepen (levels : Int) : CompileM Unit :=
  fun c => .ok () { c with depth := c.depth + levels }

def enter (nonterminal : Nonterminal) : CompileM Unit := do
  writeMark (.opening nonterminal)
  deepen 1

def leave (nonterminal : Nonterminal) : CompileM Unit := do
  deepen (-1)
  writeMark (.closing nonterminal)

def closeTree : CompileM Unit :=
  fun c => .ok () { c with treeOpen := false }

/-- Draw a label that was not drawn before. -/
def drawLabel : CompileM Nat :=
  fun c => .ok c.labels { c with labels := c.labels + 1 }

/-!
# Starting on a source
-/

def scanning (step : ScanM α) : CompileM α :=
  fun c =>
    match step c.scanner with
    | .ok a scanner => .ok a { c with scanner := scanner }
    | .error fault scanner => .error fault { c with scanner := scanner }

/-- Take up a source with empty outputs and move to its first token. -/
def start (scanner : Scanner) : CompileM Unit := do
  modify fun c =>
    { c with scanner := scanner, code := #[], tree := #[], treeOpen := true }
  scanning Scanner.advance
  modify fun c => { c with depth := 0, className := none, subroutineName := none }

/-- Take up a text.  If its first token cannot be read, the former source and
outputs stay in use. -/
def load (text : String) : CompileM Unit :=
  match Scanner.ofText text with
  | .ok scanner => start scanner
  | .error fault => throw fault

/-!
# Looking at the current token
-/

def current : CompileM (Option Token) :=
  fun c => .ok c.scanner.current c

def atKeyword (words : List Keyword) : CompileM Bool := do
  match ← current with
  | some (.keyword k) => pure (decide (k ∈ words))
  | _ => pure false

def atSymbol (sign : Symbol) : CompileM Bool := do
  match ← current with
  | some (.symbol s) => pure (decide (s = sign))
  | _ => pure false

/-- The current token, which has to be a keyword. -/
def currentKeyword : CompileM Keyword :=
  fun c =>
    match c.scanner.keyword with
    | .ok k => .ok k c
    | .error fault => .error fault c

def unexpectedKind (expected : Token.Kind) : CompileM α :=
  fun c => .error (.unexpectedKind (some expected.number) c.scanner.kind?) c

/-!
# Taking tokens

A token that is taken becomes a leaf of the tree.  The scanner then moves on,
but it stays on the last token of a source.
-/

def moveOn : CompileM Unit :=
  fun c => if c.scanner.hasNext then scanning Scanner.advance c else .ok () c

def take (token : Token) : CompileM Unit := do
  writeMark (.leaf token)
  moveOn

def takeKeyword (words : List Keyword) : CompileM Keyword := do
  match ← current with
  | some (.keyword k) =>
      if k ∈ words then
        take (.keyword k)
        pure k
      else throw (.unexpectedKeyword (words.map Keyword.word) k)
  | _ => unexpectedKind .keyword

def takeSymbol (sign : Symbol) : CompileM Unit := do
  match ← current with
  | some (.symbol s) =>
      if s = sign then take (.symbol s)
      else throw (.unexpectedSymbol sign.escaped s)
  | _ => unexpectedKind .symbol

def takeIdentifier : CompileM String := do
  match ← current with
  | some (.identifier name) =>
      take (.identifier name)
      pure name
  | _ => unexpectedKind .identifier

def takeInteger : CompileM Nat := do
  match ← current with
  | some (.integer digits) =>
      take (.integer digits)
      pure (Token.integerValue digits)
  | _ => unexpectedKind .integer

/-- Code that builds a string character by character. -/
def stringCode (text : String) : List Instr :=
  .pushConstant text.length :: .call "String.new" 1 ::
    text.toList.flatMap fun c => [.pushConstant c.toNat, .call "String.appendChar" 2]

/-- Take a string constant.  Its code is written first, and it holds the text
as it stands in markup. -/
def takeString : CompileM String := do
  match ← current with
  | some (.string text) =>
      emitAll (stringCode (Text.escape text))
      take (.string text)
      pure (Text.escape text)
  | _ => unexpectedKind .string

/-- Take the name of a type: a class or a primitive type. -/
def takeType : CompileM String := do
  match ← current with
  | some (.identifier _) => takeIdentifier
  | _ => Keyword.word <$> takeKeyword [.int, .char, .boolean]

/-!
# Repetition
-/

/-- More than the steps that the rest of the source can call for: every token
takes a character, and between two tokens only a few constructs open. -/
def bound : CompileM Nat :=
  fun c => .ok (4 * (c.scanner.rest.length + 4)) c

/-- Run a step as long as it applies, at most so many times. -/
def repeatWithin (applies : CompileM Bool) (step : CompileM α) :
    Nat -> CompileM (List α)
  | 0 => throw .endless
  | n + 1 => do
      if ← applies then
        let first ← step
        let others ← repeatWithin applies step n
        pure (first :: others)
      else pure []

/-- Run a step as long as it applies. -/
def repeatWhile (applies : CompileM Bool) (step : CompileM α) :
    CompileM (List α) := do
  repeatWithin applies step (← bound)

end Compile

end Jack
