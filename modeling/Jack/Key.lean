import Jack.Text.Quoted

/-!
# Keys

What is looked up in a table of names or of categories: a number, a text, a
tuple of keys, or nothing at all.
-/

namespace Jack

inductive Key where
  | absent
  | number (value : Int)
  | text (value : String)
  | tuple (items : List Key)
  deriving Inhabited

namespace Key

/-- A name that may be missing, as a key. -/
def ofName : Option String -> Key
  | none => absent
  | some name => text name

/-- Items between parentheses; a single one is followed by a comma. -/
def parenthesized : List String -> String
  | [item] => "(" ++ item ++ ",)"
  | items => "(" ++ String.intercalate ", " items ++ ")"

mutual

/-- A key as it stands in a message. -/
def shown : Key -> String
  | absent => "None"
  | number value => toString value
  | text value => Text.quote value
  | tuple items => parenthesized (shownEach items)

def shownEach : List Key -> List String
  | [] => []
  | item :: rest => shown item :: shownEach rest

end

end Key

end Jack
