/-!
# Line ends

Source text marks the end of a line in three ways.  All of them are read as a
single line feed.
-/

namespace Jack
namespace Text

/-- Read a carriage return, alone or before a line feed, as a line feed. -/
def foldLineEnds : List Char -> List Char
  | [] => []
  | '\r' :: '\n' :: rest => '\n' :: foldLineEnds rest
  | '\r' :: rest => '\n' :: foldLineEnds rest
  | c :: rest => c :: foldLineEnds rest

end Text
end Jack
