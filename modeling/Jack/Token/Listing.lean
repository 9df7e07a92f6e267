import Jack.Token.Scanner
import Jack.Tree

/-!
# Token listings

The tokens of a text as markup, one a line between an opening and a closing
line.  A fault cuts the listing short.
-/

namespace Jack
namespace Listing

/-- The tag of a token in a listing. -/
def tag : Token -> String
  | .identifier _ => "identifier"
  | token => Tree.leafTag token

def line (token : Token) : String :=
  Tree.leafText (tag token) token.shown ++ "\n"

/-- The listing of a text, as far as it gets, and the fault that cuts it short.
Nothing is listed if the first token cannot be read. -/
def ofText (text : String) : String × Option Fault :=
  match Scanner.ofText text with
  | .error fault => ("", some fault)
  | .ok s =>
      let (tokens, fault) := s.tokens
      let ending := if fault.isNone then Tree.closingText "tokens" ++ "\n" else ""
      (Tree.openingText "tokens" ++ "\n" ++ String.join (tokens.map line) ++ ending,
        fault)

end Listing
end Jack
