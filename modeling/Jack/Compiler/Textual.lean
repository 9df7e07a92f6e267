import Jack.Compiler.Class

/-!
# Routines on plain text

The routines that look at tokens, declare names or write to the tree, for words
and lines that are given as text.  A word may then be one that no token has.
-/

namespace Jack
namespace Compile

/-!
# Searching
-/

/-- Where a word is looked for: among some words, or anywhere in one text. -/
inductive Wanted where
  | among (words : List String)
  | within (text : String)

def occursIn (part : List Char) : List Char -> Bool
  | [] => part.isEmpty
  | c :: rest => part.isPrefixOf (c :: rest) || occursIn part rest

def Wanted.holds : Wanted -> String -> Bool
  | .among words, word => words.contains word
  | .within text, word => occursIn word.toList text.toList

def atWantedKeyword (wanted : Wanted) : CompileM Bool := do
  match ← current with
  | some (.keyword k) => pure (wanted.holds k.word)
  | _ => pure false

def atWantedSymbol (wanted : Wanted) : CompileM Bool := do
  match ← current with
  | some (.symbol sign) => pure (wanted.holds sign.escaped)
  | _ => pure false

/-!
# Kinds by number
-/

def kindNumber (c : Compiler) : Option Int :=
  c.scanner.kind?.map fun kind => kind.number

def atKind (number : Option Int) : CompileM Bool :=
  fun c => .ok (decide (kindNumber c = number)) c

def checkKind (number : Option Int) : CompileM Unit :=
  fun c =>
    if kindNumber c = number then .ok () c
    else .error (.unexpectedKind number c.scanner.kind?) c

/-!
# Taking
-/

def takeWord (words : List String) : CompileM String := do
  match ← current with
  | some (.keyword k) =>
      if k.word ∈ words then Keyword.word <$> takeKeyword [k]
      else throw (.unexpectedKeyword words k)
  | _ => unexpectedKind .keyword

def takeSign (text : String) : CompileM String := do
  match ← current with
  | some (.symbol sign) =>
      if sign.escaped = text then
        takeSymbol sign
        pure sign.escaped
      else throw (.unexpectedSymbol text sign)
  | _ => unexpectedKind .symbol

/-- Take a name and file it under the category of a word.  Under a word that
means none, the name is filed nowhere. -/
def declareAs (category type : Option String) : CompileM Unit := do
  match category.bind Category.ofWord? with
  | some category =>
      let _ ← declare category type
      pure ()
  | none =>
      let _ ← takeIdentifier
      pure ()

/-!
# Lines of text

These lines are handed back and not kept with the others.
-/

def codeLine (text : String) : CompileM String :=
  pure (text ++ "\n")

def treeLine (text : String) : CompileM String :=
  fun c => if c.treeOpen then .ok (Tree.indented c.depth text) c else .error .closedTree c

def enterLine (tag : String) : CompileM String := do
  let line ← treeLine (Tree.openingText tag)
  deepen 1
  pure line

def leaveLine (tag : String) : CompileM String := do
  deepen (-1)
  treeLine (Tree.closingText tag)

def leafLine (tag value : String) : CompileM String :=
  treeLine (Tree.leafText tag value)

end Compile
end Jack
