import Jack.Fault
import Jack.Vm.Instr

/-!
# Categories of names

A name is declared for a value in storage, for a class or for a subroutine.
Only stored values have a segment of the machine.
-/

namespace Jack

inductive Storage where
  | var | argument | static | field
  deriving DecidableEq, Repr

def Storage.segment : Storage -> Segment
  | .var => .«local»
  | .argument => .argument
  | .static => .static
  | .field => .this

inductive Category where
  | stored (storage : Storage)
  | className
  | subroutine
  deriving DecidableEq, Repr

namespace Category

/-- The category that a word of a declaration gives.  All three kinds of
subroutine are of one category. -/
def ofWord? : String -> Option Category
  | "var" => some (stored .var)
  | "argument" => some (stored .argument)
  | "static" => some (stored .static)
  | "field" => some (stored .field)
  | "class" => some className
  | "function" => some subroutine
  | "method" => some subroutine
  | "constructor" => some subroutine
  | _ => none

def word : Category -> String
  | stored .var => "var"
  | stored .argument => "argument"
  | stored .static => "static"
  | stored .field => "field"
  | className => "class"
  | subroutine => "subroutine"

def segment? : Category -> Option Segment
  | stored storage => some storage.segment
  | _ => none

def isIndexed (category : Category) : Bool :=
  category.segment?.isSome

/-!
# Categories as keys

A category goes by a tuple with its number as the only item.
-/

def key : Category -> Key
  | stored .var => .tuple [.number 0]
  | stored .argument => .tuple [.number 1]
  | stored .static => .tuple [.number 2]
  | stored .field => .tuple [.number 3]
  | className => .tuple [.number 4]
  | subroutine => .tuple [.number 5]

def ofKey? : Key -> Option Category
  | .tuple [.number 0] => some (stored .var)
  | .tuple [.number 1] => some (stored .argument)
  | .tuple [.number 2] => some (stored .static)
  | .tuple [.number 3] => some (stored .field)
  | .tuple [.number 4] => some className
  | .tuple [.number 5] => some subroutine
  | _ => none

theorem ofKey?_key (category : Category) : ofKey? category.key = some category := by
  rcases category with (_ | _ | _ | _) | _ | _ <;> rfl

/-- The category of a word, given as a key. -/
def ofWordKey? : Key -> Option Category
  | .text word => ofWord? word
  | _ => none

/-- The segment of a category, given as a key. -/
def segmentOf (key : Key) : Except Fault Segment :=
  match (ofKey? key).bind segment? with
  | some segment => .ok segment
  | none => .error (.missingKey key)

end Category

end Jack
