import Jack.Names.Table

/-!
# Ledgers

A ledger keeps entries that can still be changed, together with one table that
refers to them.  Entries go by their position in the order of creation.  The
table binds a name to a position, so a change to an entry shows in the table,
and an entry stays filed under the name it had when it was inserted.
-/

namespace Jack

structure Ledger where
  entries : List Entry := []
  table : Table Nat := {}

namespace Ledger

/-- Open a new entry; its position is the number of entries before. -/
def create (ledger : Ledger) : Ledger :=
  { ledger with entries := ledger.entries ++ [{}] }

/-- Change the entry at a position. -/
def change (ledger : Ledger) (position : Nat) (f : Entry -> Entry) : Ledger :=
  { ledger with entries := ledger.entries.modify position f }

def setCategory (ledger : Ledger) (position : Nat) (word : Option String) : Ledger :=
  ledger.change position fun e => e.setCategory word

def setName (ledger : Ledger) (position : Nat) (name : Option String) : Ledger :=
  ledger.change position fun e => { e with name := name }

def setType (ledger : Ledger) (position : Nat) (type : Option String) : Ledger :=
  ledger.change position fun e => { e with type := type }

/-- Number the entry at a position and file it under its present name. -/
def insert (ledger : Ledger) (position : Nat) : Ledger :=
  match ledger.entries[position]? with
  | none => ledger
  | some e =>
      let (numbered, counts) := ledger.table.counts.number e
      { entries := ledger.entries.set position numbered
        table :=
          { bindings := ledger.table.bindings.set numbered.name position
            counts := counts } }

/-- Open an entry, fill it in and file it. -/
def declare (ledger : Ledger) (category name type : Option String) : Ledger :=
  let position := ledger.entries.length
  ((((ledger.create).setCategory position category).setName position name).setType
    position type).insert position

/-- The entry filed under a name, as it is now. -/
def get? (ledger : Ledger) (name : Option String) : Option Entry :=
  (ledger.table.get? name).bind fun position => ledger.entries[position]?

/-- The index of the entry filed under a name. -/
def indexOf (ledger : Ledger) (name : Option String) : Except Fault Int :=
  match ledger.get? name with
  | some e => .ok e.index
  | none => .error (.missingKey (.ofName name))

/-- Names with the entries filed under them. -/
def filed (ledger : Ledger) : List (Option String × Entry) :=
  ledger.table.bindings.pairs.filterMap fun (name, position) =>
    ledger.entries[position]?.map fun e => (name, e)

end Ledger

end Jack
