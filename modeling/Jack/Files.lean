import Jack.Bindings
import Jack.Fault

/-!
# Files

The file operations that the commands use, and a tree of files and directories
below a working directory on which they can be run.  A path is a text with
slashes between its parts; inside the tree it is the list of these parts.
-/

namespace Jack

/-- File operations in some monad.  Faults name the path as it was given. -/
structure FileSystem (m : Type -> Type) where
  /-- The names in a directory. -/
  list : String -> m (Except Fault (List String))
  read : String -> m (Except Fault String)
  /-- Make an empty file, or empty the one that is there. -/
  create : String -> m (Except Fault Unit)
  /-- Put a text over a file from a byte on. -/
  write : String -> Nat -> String -> m Unit

structure Files where
  directories : List (List String) := []
  texts : Bindings (List String) String := {}

namespace Files

inductive Node where
  | directory
  | file (text : String)
  | nothing

def node (files : Files) (path : List String) : Node :=
  if path = [] ∨ path ∈ files.directories then .directory
  else
    match files.texts.get? path with
    | some text => .file text
    | none => .nothing

/-!
# Paths
-/

/-- The parts of a path, behind some characters of the first one in reverse order. -/
def partsAfter : List Char -> List Char -> List String
  | part, [] => [String.ofList part.reverse]
  | part, c :: rest =>
      if c = '/' then String.ofList part.reverse :: partsAfter [] rest
      else partsAfter (c :: part) rest

def parts (path : String) : List String :=
  partsAfter [] path.toList

/-- One step from a directory. -/
def step (here : List String) (part : String) : List String :=
  if part = "" ∨ part = "." then here
  else if part = ".." then here.dropLast
  else here ++ [part]

/-- Where each of the steps from a directory leads. -/
def stations : List String -> List String -> List (List String)
  | _, [] => []
  | here, part :: rest => step here part :: stations (step here part) rest

/-!
# Making the tree
-/

/-- Make a directory and all those on the way to it. -/
def makeDirectory (files : Files) (path : String) : Files :=
  { files with directories := files.directories ++ stations [] (parts path) }

/-- Put a file, and make the directories on the way to it. -/
def put (files : Files) (path text : String) : Files :=
  { directories := files.directories ++ stations [] (parts path).dropLast
    texts := files.texts.set ((parts path).foldl step []) text }

/-!
# Finding a path
-/

/-- Follow the parts of a path.  All but the last have to be directories. -/
def follow (files : Files) (path : String) :
    List String -> List String -> Except Fault (List String)
  | here, [] => .ok here
  | here, [part] => .ok (step here part)
  | here, part :: next :: rest =>
      match files.node (step here part) with
      | .directory => follow files path (step here part) (next :: rest)
      | .file _ => .error (.notDirectory path)
      | .nothing => .error (.notFound path)

def find (files : Files) (path : String) : Except Fault (List String) :=
  if path = "" then .error (.notFound path)
  else files.follow path [] (parts path)

/-!
# Operations
-/

/-- The names right below a path. -/
def namesBelow (files : Files) (path : List String) : List String :=
  let paths := files.directories ++ files.texts.pairs.map Prod.fst
  (paths.filterMap fun below =>
    if below ≠ [] ∧ below.dropLast = path then below.getLast? else none).eraseDups

def list (files : Files) (path : String) : Except Fault (List String) := do
  let found ← files.find path
  match files.node found with
  | .directory => .ok (files.namesBelow found)
  | .file _ => .error (.notDirectory path)
  | .nothing => .error (.notFound path)

def read (files : Files) (path : String) : Except Fault String := do
  let found ← files.find path
  match files.node found with
  | .directory => .error (.isDirectory path)
  | .file text => .ok text
  | .nothing => .error (.notFound path)

def create (files : Files) (path : String) : Except Fault Files := do
  let found ← files.find path
  match files.node found with
  | .directory => .error (.isDirectory path)
  | _ => .ok { files with texts := files.texts.set found "" }

/-- The first so many bytes of a text, and the text behind them. -/
def splitAtByte : Nat -> List Char -> List Char × List Char
  | 0, text => ([], text)
  | _ + 1, [] => ([], [])
  | n + 1, c :: rest =>
      let (front, back) := splitAtByte (n + 1 - c.utf8Size) rest
      (c :: front, back)

/-- A text put over another from a byte on.  Bytes that are missing before it
become zero.  An empty text changes nothing, wherever it is put. -/
def overlay (start : Nat) (text under : String) : String :=
  if text = "" then under
  else
    let front := String.ofList (splitAtByte start under.toList).1
    let gap := String.ofList (List.replicate (start - front.utf8ByteSize) '\x00')
    let back := (splitAtByte (start + text.utf8ByteSize) under.toList).2
    front ++ gap ++ text ++ String.ofList back

def write (files : Files) (path : String) (start : Nat) (text : String) : Files :=
  match files.find path with
  | .ok found =>
      let under := (files.texts.get? found).getD ""
      { files with texts := files.texts.set found (overlay start text under) }
  | .error _ => files

/-- The operations on a tree that is kept as a state. -/
def system : FileSystem (StateM Files) where
  list path := fun files => (files.list path, files)
  read path := fun files => (files.read path, files)
  create path := fun files =>
    match files.create path with
    | .ok files => (.ok (), files)
    | .error fault => (.error fault, files)
  write path start text := fun files => ((), files.write path start text)

end Files

end Jack
