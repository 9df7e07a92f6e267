/-!
# Escaping for markup

The three characters that could be taken for markup are written as entities, so
escaped text holds no angle bracket and no bare ampersand.
-/

namespace Jack
namespace Text

def escapeChar (c : Char) : List Char :=
  if c = '&' then ['&', 'a', 'm', 'p', ';']
  else if c = '<' then ['&', 'l', 't', ';']
  else if c = '>' then ['&', 'g', 't', ';']
  else [c]

def escape (text : String) : String :=
  String.ofList (text.toList.flatMap escapeChar)

end Text
end Jack
