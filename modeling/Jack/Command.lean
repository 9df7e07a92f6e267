import Jack.Compiler.Class
import Jack.Files
import Jack.Token.Listing

/-!
# Commands

The command that lists the tokens of a file, and the command that compiles a
file or all sources of a directory.  Each takes one path.  The result is what
is printed, and the fault that ended the command, if one did.
-/

namespace Jack
namespace Command

/-!
# Paths
-/

/-- Sources end in `.jack`. -/
def isSource (path : String) : Bool :=
  ".jack".toList.isSuffixOf path.toList

/-- Every `.jack` of a path becomes `.vm`. -/
def codeChars : List Char -> List Char
  | [] => []
  | '.' :: 'j' :: 'a' :: 'c' :: 'k' :: rest => '.' :: 'v' :: 'm' :: codeChars rest
  | c :: rest => c :: codeChars rest

/-- Where the code of a source goes. -/
def codePath (source : String) : String :=
  String.ofList (codeChars source.toList)

/-- Where the tree of a source goes. -/
def treePath (source : String) : String :=
  codePath source ++ ".xml"

/-- The path of a name in a directory. -/
def join (directory name : String) : String :=
  if directory.toList.getLast? = some '/' then directory ++ name
  else directory ++ "/" ++ name

/-!
# Listing tokens
-/

def listTokens [Monad m] (system : FileSystem m) (arguments : List String) :
    m (String × Option Fault) := do
  match arguments with
  | [path] =>
      match ← system.read path with
      | .ok text => pure (Listing.ofText text)
      | .error fault => pure ("", some fault)
  | _ => pure ("Usage: (python) JackTokenizer.py <inputPath>\n", none)

/-!
# Compiling
-/

/-- How many bytes of code make up a chunk. -/
def chunkSize : Nat := 8192

/-- How many bytes of chunks a block holds back from the file. -/
def blockSize : Nat := 4096

/-- The sizes of the chunks that are passed on, given the bytes gathered so far
and the sizes of the lines.  A full chunk is passed on at once.  A line that
does not fit any more begins a chunk of its own. -/
def chunkSizes : Nat -> List Nat -> List Nat
  | _, [] => []
  | gathered, size :: rest =>
      if gathered + size < chunkSize then chunkSizes (gathered + size) rest
      else if gathered + size = chunkSize then chunkSize :: chunkSizes 0 rest
      else if size < chunkSize then gathered :: chunkSizes size rest
      else gathered :: size :: chunkSizes 0 rest

/-- How many bytes have reached the file, given the bytes that the block holds
and the sizes of the chunks.  A chunk that does not fit any more empties the
block, and goes past it if it is larger than a block. -/
def sentBytes : Nat -> List Nat -> Nat
  | _, [] => 0
  | held, size :: rest =>
      if held + size <= blockSize then sentBytes (held + size) rest
      else if size <= blockSize then held + sentBytes size rest
      else held + size + sentBytes 0 rest

/-- The end of a code, which is not written to its file yet. -/
structure Pending where
  path : String
  start : Nat
  text : String

def Pending.flush [Monad m] (system : FileSystem m) : Option Pending -> m Unit
  | some pending => system.write pending.path pending.start pending.text
  | none => pure ()

/-- Write code to its file, up to what still waits. -/
def writeCode [Monad m] (system : FileSystem m) (path : String)
    (code : List Instr) : m Pending := do
  let sizes := code.map fun instr => instr.text.utf8ByteSize + 1
  let sent := sentBytes 0 (chunkSizes 0 sizes)
  let (front, back) := Files.splitAtByte sent (Instr.listing code).toList
  system.write path 0 (String.ofList front)
  pure ⟨path, sent, String.ofList back⟩

/-- Open the two outputs of a source, the tree first. -/
def openOutputs [Monad m] (system : FileSystem m) (source : String) :
    m (Except Fault Unit) := do
  match ← system.create (treePath source) with
  | .ok () => system.create (codePath source)
  | .error fault => pure (.error fault)

/-- Compile sources one after the other with one compiler, up to the first
fault.  Outputs are opened once the first token of a source was read.  The code
that waits is written when the outputs of the next source are open. -/
def compileEach [Monad m] (system : FileSystem m) :
    List String -> Compiler -> Option Pending -> m (Option Fault)
  | [], _, pending => do
      Pending.flush system pending
      pure none
  | source :: sources, c, pending => do
      let stop (fault : Fault) : m (Option Fault) := do
        Pending.flush system pending
        pure (some fault)
      match ← system.read source with
      | .error fault => stop fault
      | .ok text =>
          match Scanner.ofText text with
          | .error fault => stop fault
          | .ok _ =>
              match ← openOutputs system source with
              | .error fault => stop fault
              | .ok () =>
                  Pending.flush system pending
                  let outcome := c.compile text
                  let (code, tree) := outcome.compiler.written
                  system.write (treePath source) 0 (Tree.listing tree)
                  let pending ← writeCode system (codePath source) code
                  match outcome.fault with
                  | none => compileEach system sources outcome.compiler (some pending)
                  | some fault =>
                      Pending.flush system (some pending)
                      pure (some fault)

/-- The sources a path stands for: itself, or those in its directory in the
order of their names. -/
def sourcesOf [Monad m] (system : FileSystem m) (path : String) :
    m (Except Fault (List String)) := do
  if isSource path then pure (.ok [path])
  else
    match ← system.list path with
    | .error fault => pure (.error fault)
    | .ok names =>
        let sorted := names.mergeSort fun a b => decide (a <= b)
        pure (.ok ((sorted.filter isSource).map (join path)))

def compile [Monad m] (system : FileSystem m) (arguments : List String) :
    m (String × Option Fault) := do
  match arguments with
  | [path] =>
      match ← sourcesOf system path with
      | .error fault => pure ("", some fault)
      | .ok sources =>
          let fault ← compileEach system sources {} none
          pure ("", fault)
  | _ => pure ("Usage: (python) CompilationEngine.py <inputPath>\n", none)

/-- The demonstration of symbol tables makes a table from given counts, which
is refused. -/
def demonstrateTable : Except Fault Unit :=
  .error .surplusArgument

end Command
end Jack
