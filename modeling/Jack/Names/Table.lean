import Jack.Bindings
import Jack.Names.Category

/-!
# Symbol tables

An entry says what is known of a name.  A table binds names to entries and
counts the stored ones: the entries of one storage are numbered in the order in
which they were filed.
-/

namespace Jack

/-!
# Entries
-/

/-- The category of an entry: not given yet, given by a word that means none,
or known. -/
inductive Standing where
  | unset
  | unknown
  | known (category : Category)
  deriving DecidableEq, Repr

namespace Standing

def ofWord (word : Option String) : Standing :=
  match word.bind Category.ofWord? with
  | some category => known category
  | none => unknown

def segment? : Standing -> Option Segment
  | known category => category.segment?
  | _ => none

/-- The key of the standing, where the number six is that of an unset one. -/
def key : Standing -> Key
  | unset => .number 6
  | unknown => .absent
  | known category => category.key

end Standing

structure Entry where
  name : Option String := none
  standing : Standing := .unset
  index : Int := -1
  segment : Option Segment := none
  type : Option String := none
  deriving DecidableEq, Repr

namespace Entry

/-- Give an entry the category of a word.  The segment follows the category,
and stays as it was if the category has none. -/
def setCategory (e : Entry) (word : Option String) : Entry :=
  let standing := Standing.ofWord word
  { e with standing := standing, segment := standing.segment?.or e.segment }

def place (e : Entry) : Place := ⟨e.segment, e.index⟩

end Entry

/-!
# Counts
-/

/-- How many entries of each storage have been filed. -/
structure Counts where
  var : Nat := 0
  argument : Nat := 0
  static : Nat := 0
  field : Nat := 0
  deriving DecidableEq, Repr

namespace Counts

def get (counts : Counts) : Storage -> Nat
  | .var => counts.var
  | .argument => counts.argument
  | .static => counts.static
  | .field => counts.field

def bump (counts : Counts) : Storage -> Counts
  | .var => { counts with var := counts.var + 1 }
  | .argument => { counts with argument := counts.argument + 1 }
  | .static => { counts with static := counts.static + 1 }
  | .field => { counts with field := counts.field + 1 }

def toList (counts : Counts) : List Nat :=
  [counts.var, counts.argument, counts.static, counts.field]

theorem get_bump (counts : Counts) (s t : Storage) :
    (counts.bump s).get t = counts.get t + (if t = s then 1 else 0) := by
  cases s <;> cases t <;> rfl

/-- Number an entry with the next index of its storage, if it has one. -/
def number (counts : Counts) (e : Entry) : Entry × Counts :=
  match e.standing with
  | .known (.stored storage) =>
      ({ e with index := counts.get storage }, counts.bump storage)
  | _ => (e, counts)

end Counts

/-!
# Tables
-/

/-- Names bound to what stands for an entry, with the counts of its entries. -/
structure Table (α : Type) where
  bindings : Bindings (Option String) α := {}
  counts : Counts := {}
  deriving DecidableEq, Repr

namespace Table

def get? (table : Table α) (name : Option String) : Option α :=
  table.bindings.get? name

/-- Number an entry and file it under its name. -/
def insert (table : Table Entry) (e : Entry) : Table Entry :=
  let (numbered, counts) := table.counts.number e
  { bindings := table.bindings.set numbered.name numbered, counts := counts }

/-- Count an argument that no entry stands for. -/
def reserveArgument (table : Table α) : Table α :=
  { table with counts := table.counts.bump .argument }

end Table

end Jack
