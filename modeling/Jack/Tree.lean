import Jack.Token.Basic

/-!
# Trees as markup

The tree of a class is written line by line while it is compiled: a line where
a construct opens, a line for every token in it, and a line where it closes.
Lines are indented by the depth of the constructs around them.
-/

namespace Jack

inductive Nonterminal where
  | «class» | classVarDec | subroutineDec | parameterList | subroutineBody | varDec
  | statements | letStatement | ifStatement | whileStatement | doStatement
  | returnStatement
  | expression | term | expressionList
  deriving DecidableEq, Repr

def Nonterminal.tag : Nonterminal -> String
  | .«class» => "class"
  | .classVarDec => "classVarDec"
  | .subroutineDec => "subroutineDec"
  | .parameterList => "parameterList"
  | .subroutineBody => "subroutineBody"
  | .varDec => "varDec"
  | .statements => "statements"
  | .letStatement => "letStatement"
  | .ifStatement => "ifStatement"
  | .whileStatement => "whileStatement"
  | .doStatement => "doStatement"
  | .returnStatement => "returnStatement"
  | .expression => "expression"
  | .term => "term"
  | .expressionList => "expressionList"

namespace Tree

def openingText (tag : String) : String := "<" ++ tag ++ ">"

def closingText (tag : String) : String := "</" ++ tag ++ ">"

def leafText (tag value : String) : String :=
  openingText tag ++ " " ++ value ++ " " ++ closingText tag

/-- The tag of a token inside a tree. -/
def leafTag : Token -> String
  | .keyword _ => "keyword"
  | .symbol _ => "symbol"
  | .identifier _ => "identifierName"
  | .integer _ => "integerConstant"
  | .string _ => "stringConstant"

inductive Mark where
  | opening (nonterminal : Nonterminal)
  | closing (nonterminal : Nonterminal)
  | leaf (token : Token)
  deriving DecidableEq, Repr

def Mark.text : Mark -> String
  | .opening nonterminal => openingText nonterminal.tag
  | .closing nonterminal => closingText nonterminal.tag
  | .leaf token => leafText (leafTag token) token.shown

/-- Text on a line of its own, two spaces in for each level of depth.  Below
depth zero nothing is put before it. -/
def indented (depth : Int) (text : String) : String :=
  String.ofList (List.replicate (2 * depth.toNat) ' ') ++ text ++ "\n"

structure Line where
  depth : Int
  mark : Mark
  deriving DecidableEq, Repr

def Line.text (line : Line) : String :=
  indented line.depth line.mark.text

def listing (lines : List Line) : String :=
  String.join (lines.map Line.text)

end Tree

end Jack
