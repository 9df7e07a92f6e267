import Jack.Command

/-!
# Command line

Compiles the file or the directory given by its path.  After the option
`--tokens`, lists the tokens of the file instead.
-/

namespace Jack
namespace CommandLine

/-- A failure of the operating system as a fault, where it has one. -/
def faultOf (path : String) : IO.Error -> Option Fault
  | .noFileOrDirectory .. => some (.notFound path)
  | .inappropriateType _ code _ =>
      if code = 21 then some (.isDirectory path) else some (.notDirectory path)
  | _ => none

def attempt (path : String) (action : IO α) : IO (Except Fault α) := do
  try
    return .ok (← action)
  catch failure =>
    match faultOf path failure with
    | some fault => return .error fault
    | none => throw failure

def names (path : String) : IO (List String) := do
  let directory ← IO.FS.realPath path
  let entries ← directory.readDir
  return entries.toList.map fun entry => entry.fileName

def system : FileSystem IO where
  list path := attempt path (names path)
  read path := attempt path (IO.FS.readFile path)
  create path := attempt path (IO.FS.writeFile path "")
  write path start text := do
    let under ← IO.FS.readFile path
    IO.FS.writeFile path (Files.overlay start text under)

def run (arguments : List String) : IO (String × Option Fault) :=
  match arguments with
  | "--tokens" :: rest => Command.listTokens system rest
  | _ => Command.compile system arguments

end CommandLine
end Jack

def main (arguments : List String) : IO UInt32 := do
  let (printed, fault) ← Jack.CommandLine.run arguments
  IO.print printed
  match fault with
  | none => return 0
  | some fault =>
      IO.eprintln fault.message
      return 1
