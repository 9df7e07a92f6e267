import Jack.Compiler.Basic

/-!
# Looking names up

A name is looked up in the table of the current subroutine, then in that of
the current class.
-/

namespace Jack
namespace Compile

/-- The entry of a name in the table of a class. -/
def classEntry? (name className : Option String) : CompileM (Option Entry) :=
  fun c =>
    match className.bind c.classes.get? with
    | some table => .ok (table.get? name) c
    | none => .error (.missingKey (.ofName className)) c

/-- The entry of a name in the subroutine or else in the class at hand. -/
def entry? (name : Option String) : CompileM (Option Entry) :=
  fun c =>
    match c.locals with
    | none => .error .noTableToSearch c
    | some table =>
        match table.get? name with
        | some e => .ok (some e) c
        | none => classEntry? name c.className c

/-- The entry of a subroutine that is called on a name.  A subroutine at hand
goes first; the class of the name is searched after it. -/
def subroutineEntry? (receiver subroutine : Option String) :
    CompileM (Option Entry) := do
  match ← entry? subroutine with
  | some e => pure (some e)
  | none =>
      match ← entry? receiver with
      | some e => classEntry? subroutine e.type
      | none => pure none

/-- The place of an entry that has to be there. -/
def placeOf : Option Entry -> CompileM Place
  | some e => pure e.place
  | none => throw .noSegment

/-- The type of an entry that has to be there. -/
def typeOf : Option Entry -> CompileM (Option String)
  | some e => pure e.type
  | none => throw .noType

/-- The size of the class at hand. -/
def classSize : CompileM Nat :=
  fun c =>
    match c.className.bind c.sizes.get? with
    | some size => .ok size c
    | none => .error (.missingKey (.ofName c.className)) c

/-- A name within another, each written even if it is missing. -/
def qualified (outer inner : Option String) : String :=
  outer.getD "None" ++ "." ++ inner.getD "None"

end Compile
end Jack
