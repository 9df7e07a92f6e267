/-!
# Instructions of the virtual machine

The commands that classes are compiled to, and their text.
-/

namespace Jack

/-!
# Places
-/

inductive Segment where
  | constant | argument | «local» | static | this | that | pointer | temp
  deriving DecidableEq, Repr

def Segment.word : Segment -> String
  | .constant => "constant"
  | .argument => "argument"
  | .«local» => "local"
  | .static => "static"
  | .this => "this"
  | .that => "that"
  | .pointer => "pointer"
  | .temp => "temp"

/-- A position in a segment.  The name of a subroutine has no segment, and its
index is negative; a command that refers to it is written all the same. -/
structure Place where
  segment : Option Segment
  index : Int
  deriving DecidableEq, Repr

namespace Place

def constant (n : Nat) : Place := ⟨some .constant, n⟩

def pointer (n : Nat) : Place := ⟨some .pointer, n⟩

def temp (n : Nat) : Place := ⟨some .temp, n⟩

def that (n : Nat) : Place := ⟨some .that, n⟩

def argument (n : Nat) : Place := ⟨some .argument, n⟩

def text (place : Place) : String :=
  (place.segment.map Segment.word).getD "None" ++ " " ++ toString place.index

end Place

/-!
# Commands
-/

inductive Operation where
  | add | sub | neg | eq | gt | lt | and | or | not
  deriving DecidableEq, Repr

def Operation.word : Operation -> String
  | .add => "add"
  | .sub => "sub"
  | .neg => "neg"
  | .eq => "eq"
  | .gt => "gt"
  | .lt => "lt"
  | .and => "and"
  | .or => "or"
  | .not => "not"

/-- Labels are numbered; a push may carry a remark. -/
inductive Instr where
  | push (place : Place) (remark : Option String)
  | pop (place : Place)
  | operate (operation : Operation)
  | label (number : Nat)
  | goto (number : Nat)
  | ifGoto (number : Nat)
  | function (name : String) (locals : Nat)
  | call (name : String) (arguments : Nat)
  | ret
  deriving DecidableEq, Repr

namespace Instr

def labelText (number : Nat) : String :=
  "pfl" ++ toString number

def pushConstant (n : Nat) : Instr :=
  .push (.constant n) none

def text : Instr -> String
  | push place none => "push " ++ place.text
  | push place (some remark) => "push " ++ place.text ++ " //" ++ remark
  | pop place => "pop " ++ place.text
  | operate operation => operation.word
  | label number => "label " ++ labelText number
  | goto number => "goto " ++ labelText number
  | ifGoto number => "if-goto " ++ labelText number
  | function name locals => "function " ++ name ++ " " ++ toString locals
  | call name arguments => "call " ++ name ++ " " ++ toString arguments
  | ret => "return"

/-- A list of commands, one a line. -/
def listing (code : List Instr) : String :=
  String.join (code.map fun instr => instr.text ++ "\n")

end Instr

end Jack
