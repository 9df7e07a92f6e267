import Jack.Proofs.Meaning

/-!
# Tables filled by declarations

A declaration files an entry under its name, with the segment of its category, and
numbers it if it is stored.  So in a table that only declarations have filled, a stored
name has a place, and it is the same place for reading and for assigning.
-/

namespace Jack

open Compile

/-!
# Entries
-/

/-- The segment of an entry is that of its category, and an entry in a segment is
numbered. -/
def Entry.IsPlaced (e : Entry) : Prop :=
  e.segment = e.standing.segment? ∧ (e.segment.isSome = true -> exists n : Nat, e.index = n)

namespace Table

/-- The tables that declarations make from an empty one. -/
inductive Filled : Table Entry -> Prop where
  | empty : Filled {}
  | declare {table : Table Entry} (category : Category) (name : String)
      (type : Option String) :
      Filled table -> Filled (table.insert (entryOf category name type))
  | reserve {table : Table Entry} : Filled table -> Filled table.reserveArgument

theorem isPlaced_number (counts : Counts) (category : Category) (name : String)
    (type : Option String) : (counts.number (entryOf category name type)).1.IsPlaced := by
  cases category with
  | stored storage =>
      refine ⟨rfl, ?_⟩
      intro _
      exact ⟨counts.get storage, rfl⟩
  | className =>
      refine ⟨rfl, ?_⟩
      intro h
      cases h
  | subroutine =>
      refine ⟨rfl, ?_⟩
      intro h
      cases h

theorem Filled.isPlaced {table : Table Entry} (h : table.Filled) {name : Option String}
    {e : Entry} (hget : table.get? name = some e) : e.IsPlaced := by
  induction h with
  | empty => cases hget
  | reserve _ ih => exact ih hget
  | declare category declared type hfilled ih =>
      rename_i table
      by_cases hname : name = (table.counts.number (entryOf category declared type)).1.name
      · subst hname
        have hself := Bindings.get?_set_self table.bindings
          (table.counts.number (entryOf category declared type)).1.name
          (table.counts.number (entryOf category declared type)).1
        have hfound : some (table.counts.number (entryOf category declared type)).1 = some e :=
          hself.symm.trans hget
        cases hfound
        exact isPlaced_number table.counts category declared type
      · have hother := Bindings.get?_set_of_ne table.bindings
          (table.counts.number (entryOf category declared type)).1 hname
        exact ih (hother.symm.trans hget)

end Table

/-!
# Scopes
-/

namespace Scope

/-- The names are looked up in two tables that declarations have filled. -/
def Declared (σ : Scope) : Prop :=
  exists locals className table, σ.locals = some locals ∧ σ.className = some className ∧
    σ.classes.get? className = some table ∧ locals.Filled ∧ table.Filled

theorem Declared.isPlaced {σ : Scope} (h : σ.Declared) {name : String} {e : Entry}
    (hentry : σ.entry name = some (some e)) : e.IsPlaced := by
  rcases h with ⟨locals, className, table, hlocals, hclass, htable, hfilled, hfilled'⟩
  unfold entry answer at hentry
  rw [run_entry] at hentry
  simp only [compiler, hlocals] at hentry
  cases hget : locals.get? (some name) with
  | some found =>
      rw [hget] at hentry
      cases hentry
      exact hfilled.isPlaced hget
  | none =>
      rw [hget] at hentry
      simp only [run_classEntry, hclass, Option.bind_some, htable] at hentry
      have hfound : table.get? (some name) = some e := by simpa using hentry
      exact hfilled'.isPlaced hfound

end Scope

/-!
# Places of locations
-/

def Location.place (location : Location) : Place :=
  ⟨some location.storage.segment, location.index⟩

theorem Scope.Declared.exists_location {σ : Scope} (h : σ.Declared) {name : String}
    (hname : σ.IsStored name) :
    exists location, σ.location name = some location ∧
      σ.valuePlace name = some location.place ∧ σ.targetPlace name = some location.place := by
  rcases hname with ⟨e, storage, hentry, hstanding⟩
  have hplaced := h.isPlaced hentry
  have hsegment : e.segment = some storage.segment := by
    rw [hplaced.1, hstanding]
    rfl
  rcases hplaced.2 (by rw [hsegment]; rfl) with ⟨index, hindex⟩
  refine ⟨⟨storage, index⟩, ?_, ?_, ?_⟩
  · unfold Scope.location
    simp [hentry, hstanding, hindex]
  · unfold Scope.valuePlace
    simp [hentry, hstanding, hindex, Standing.segment?, Category.segment?, Location.place]
  · unfold Scope.targetPlace
    simp [hentry, Entry.place, hsegment, hindex, Location.place]

namespace Machine

theorem read_place (m : Machine) (location : Location) :
    m.read location.place = some (m.memory.load location) := by
  rcases location with ⟨storage, index⟩
  cases storage <;> rfl

theorem write_place (m : Machine) (location : Location) (value : Word) :
    m.write location.place value =
      some { m with memory := m.memory.store location value } := by
  rcases location with ⟨storage, index⟩
  cases storage <;> rfl

end Machine

theorem Scope.IsStored.isSome_entry {σ : Scope} {name : String} (h : σ.IsStored name) :
    (σ.entry name).isSome = true := by
  rcases h with ⟨e, _, hentry, _⟩
  rw [hentry]
  rfl

theorem Scope.IsStored.isSome_targetPlace {σ : Scope} {name : String} (h : σ.IsStored name) :
    (σ.targetPlace name).isSome = true := by
  rcases h with ⟨e, _, hentry, _⟩
  unfold Scope.targetPlace
  rw [hentry]
  rfl

namespace Syntax

/-!
# Trees with a meaning can be compiled
-/

mutual

theorem Expr.Plain.resolved {σ : Scope} : forall {e : Expr}, e.Plain σ -> e.Resolved σ
  | .mk _ _, h => ⟨h.1.resolved, h.2.resolved⟩

theorem Operations.Plain.resolved {σ : Scope} :
    forall {rest : Operations}, rest.Plain σ -> rest.Resolved σ
  | .nil, _ => trivial
  | .cons _ _ _, h => ⟨h.1.resolved, h.2.resolved⟩

theorem Term.Plain.resolved {σ : Scope} : forall {t : Term}, t.Plain σ -> t.Resolved σ
  | .integer _, _ => trivial
  | .constant _, _ => trivial
  | .paren inner, h => Expr.Plain.resolved (e := inner) h
  | .unary _ operand, h => Term.Plain.resolved (t := operand) h
  | .var _, h => Scope.IsStored.isSome_entry h
  | .element _ _, h => ⟨h.1.isSome_entry, h.2.resolved⟩

end

mutual

theorem Statement.Plain.resolved {σ : Scope} :
    forall {s : Statement}, s.Plain σ -> s.Resolved σ
  | .assign _ _, h => ⟨h.1.isSome_targetPlace, h.2.resolved⟩
  | .store _ _ _, h => ⟨h.1.isSome_targetPlace, h.2.1.resolved, h.2.2.resolved⟩
  | .leave, _ => trivial
  | .give value, h => Expr.Plain.resolved (e := value) h
  | .ifThen _ _, h => ⟨h.1.resolved, h.2.resolved⟩
  | .ifElse _ _ _, h => ⟨h.1.resolved, h.2.1.resolved, h.2.2.resolved⟩
  | .loop _ _, h => ⟨h.1.resolved, h.2.resolved⟩

theorem Block.Plain.resolved {σ : Scope} :
    forall {block : Block}, block.Plain σ -> block.Resolved σ
  | .nil, _ => trivial
  | .cons _ _, h => ⟨h.1.resolved, h.2.resolved⟩

end

end Syntax
/-!
# A scope at hand

It has the array `a`, the argument `i` and the field `x`, and a method `size`.
-/

def Compiler.inSubroutine (scanner : Scanner) : Compiler :=
  { scanner := scanner
    className := some "A"
    locals := some ((({} : Table Entry).insert
      (entryOf (.stored .var) "a" (some "Array"))).insert
      (entryOf (.stored .argument) "i" (some "int")))
    classes := ({} : Bindings String (Table Entry)).set "A" ((({} : Table Entry).insert
      (entryOf (.stored .field) "x" (some "int"))).insert
      (entryOf .subroutine "size" (some "method"))) }

theorem Compiler.declared_inSubroutine (scanner : Scanner) :
    (Compiler.inSubroutine scanner).scope.Declared := by
  refine ⟨_, "A", _, rfl, rfl, Bindings.get?_set_self _ _ _, ?_, ?_⟩
  · exact .declare _ _ _ (.declare _ _ _ .empty)
  · exact .declare _ _ _ (.declare _ _ _ .empty)

end Jack
