import Jack.Key
import Jack.Token.Basic

/-!
# Faults

Why reading or compiling stopped.  A fault is a cause; its wording is given by
`Fault.message` alone.
-/

namespace Jack

inductive Fault where
  /-- A character that starts no token. -/
  | badCharacter (c : Char)
  /-- The text ends inside a block comment. -/
  | unclosedComment
  /-- A comment was to be read where none stands. -/
  | noComment
  /-- A line ends inside a string constant. -/
  | brokenString
  /-- Digits that form no numeral in base ten. -/
  | noNumeral (digits : String)
  /-- A numeral with more decimal digits than are read. -/
  | longNumeral (count : Nat)
  /-- An integer constant beyond the largest one. -/
  | largeInteger (value : Nat)
  /-- The source was closed when its end was met. -/
  | closedSource
  /-- The tree was closed at the end of its class. -/
  | closedTree
  /-- There is no token to move on to. -/
  | noMoreTokens
  /-- The current token is not of the kind asked for. -/
  | otherKind (wanted : Token.Kind)
  | unexpectedKind (expected : Option Int) (actual : Option Token.Kind)
  | unexpectedKeyword (expected : List String) (actual : Keyword)
  | unexpectedSymbol (expected : String) (actual : Symbol)
  | missingKey (key : Key)
  /-- A segment was asked of a name that is not declared. -/
  | noSegment
  /-- A type was asked of a name that is not declared. -/
  | noType
  /-- A name was looked up before there was a local table. -/
  | noTableToSearch
  /-- A local was declared before there was a local table. -/
  | noTableToExtend
  | notFound (path : String)
  | isDirectory (path : String)
  | notDirectory (path : String)
  /-- A table was made from counts, and it takes none. -/
  | surplusArgument
  /-- Reading or compiling goes on for ever. -/
  | endless

namespace Fault

/-- How much of a faulty numeral a message shows, its quotes included. -/
def numeralWidth : Nat := 200

def kindShown : Option Int -> String
  | none => "None"
  | some number => toString number

def message : Fault -> String
  | badCharacter _ | unclosedComment | noComment | brokenString
  | largeInteger _ | noMoreTokens | otherKind _ =>
      "exceptions must derive from BaseException"
  | noNumeral digits =>
      "invalid literal for int() with base 10: " ++
        String.ofList ((Text.quote digits).toList.take numeralWidth)
  | longNumeral count =>
      "Exceeds the limit (" ++ toString Text.numeralLimit ++
        " digits) for integer string conversion: value has " ++ toString count ++
        " digits; use sys.set_int_max_str_digits() to increase the limit"
  | closedSource | closedTree => "I/O operation on closed file."
  | unexpectedKind expected actual =>
      "Expected token type: " ++ kindShown expected ++ ", Actual: " ++
        kindShown (actual.map fun kind => kind.number)
  | unexpectedKeyword expected actual =>
      "Expected keywords: " ++ Text.quoteList expected ++ ", Actual: " ++ actual.word
  | unexpectedSymbol expected actual =>
      "Expected symbol: " ++ expected ++ ", Actual: " ++ actual.escaped
  | missingKey key => key.shown
  | noSegment => "'NoneType' object has no attribute 'segment'"
  | noType => "'NoneType' object has no attribute 'type'"
  | noTableToSearch => "'NoneType' object has no attribute 'GetEntry'"
  | noTableToExtend => "'NoneType' object has no attribute 'InsertEntry'"
  | notFound path => "[Errno 2] No such file or directory: " ++ Text.quote path
  | isDirectory path => "[Errno 21] Is a directory: " ++ Text.quote path
  | notDirectory path => "[Errno 20] Not a directory: " ++ Text.quote path
  | surplusArgument =>
      "SymbolTable.__init__() takes 1 positional argument but 2 were given"
  | endless => "maximum recursion depth exceeded"

end Fault

end Jack
