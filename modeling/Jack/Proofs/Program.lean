import Jack.Proofs.Scope

/-!
# The code of classes

Declarations fill the tables that names are looked up in.  Which tables the body of a
subroutine finds is a function of the class and of the tables that were there before,
and so is the code of the class.

The relation `Compiler.Makes` extends `Compiler.Yields` to routines that declare names:
it also says what the tables are afterwards.
-/

namespace Jack

open Compile

theorem Bindings.set_set {κ α : Type} [DecidableEq κ] (b : Bindings κ α) (key : κ)
    (first second : α) : (b.set key first).set key second = b.set key second := by
  simp [Bindings.set, List.filter_filter]

/-!
# Changing tables
-/

namespace Scope

/-- Change the table of the subroutine at hand. -/
def mapLocals (σ : Scope) (f : Table Entry -> Table Entry) : Scope :=
  { σ with locals := σ.locals.map f }

/-- Change the table of the class at hand. -/
def mapClass (σ : Scope) (f : Table Entry -> Table Entry) : Scope :=
  { σ with
    classes :=
      match σ.className with
      | none => σ.classes
      | some name =>
          match σ.classes.get? name with
          | none => σ.classes
          | some table => σ.classes.set name (f table) }

/-- Change the table that names of a storage are filed in. -/
def mapTable (σ : Scope) : Storage -> (Table Entry -> Table Entry) -> Scope
  | .var => σ.mapLocals
  | .argument => σ.mapLocals
  | .static => σ.mapClass
  | .field => σ.mapClass

/-- The class at hand has a table. -/
def HasClass (σ : Scope) : Prop :=
  exists name table, σ.className = some name ∧ σ.classes.get? name = some table

/-- There is a table for names of a storage. -/
def Keeps (σ : Scope) : Storage -> Prop
  | .var => σ.locals.isSome = true
  | .argument => σ.locals.isSome = true
  | .static => σ.HasClass
  | .field => σ.HasClass

theorem mapLocals_mapLocals (σ : Scope) (f g : Table Entry -> Table Entry) :
    (σ.mapLocals f).mapLocals g = σ.mapLocals fun table => g (f table) := by
  simp [mapLocals, Function.comp_def]

theorem mapClass_of_get {σ : Scope} {name : String} {table : Table Entry}
    (hclass : σ.className = some name) (htable : σ.classes.get? name = some table)
    (f : Table Entry -> Table Entry) :
    σ.mapClass f = { σ with classes := σ.classes.set name (f table) } := by
  unfold mapClass
  simp only [hclass, htable]

theorem mapClass_mapClass (σ : Scope) (f g : Table Entry -> Table Entry) :
    (σ.mapClass f).mapClass g = σ.mapClass fun table => g (f table) := by
  cases hclass : σ.className with
  | none => simp [mapClass, hclass]
  | some name =>
      cases htable : σ.classes.get? name with
      | none => simp [mapClass, hclass, htable]
      | some table =>
          have hfirst := mapClass_of_get hclass htable f
          have hname : (σ.mapClass f).className = some name := by
            rw [hfirst]
            exact hclass
          have hget : (σ.mapClass f).classes.get? name = some (f table) := by
            rw [hfirst]
            exact Bindings.get?_set_self _ _ _
          rw [mapClass_of_get hname hget, hfirst, mapClass_of_get hclass htable, Bindings.set_set]

theorem mapTable_mapTable (σ : Scope) (storage : Storage) (f g : Table Entry -> Table Entry) :
    (σ.mapTable storage f).mapTable storage g = σ.mapTable storage fun table => g (f table) := by
  cases storage with
  | var => exact mapLocals_mapLocals σ f g
  | argument => exact mapLocals_mapLocals σ f g
  | static => exact mapClass_mapClass σ f g
  | field => exact mapClass_mapClass σ f g

theorem foldl_mapClass (file : ι -> Table Entry -> Table Entry) (items : List ι)
    (locals : Option (Table Entry)) (classes : Bindings String (Table Entry)) (name : String)
    (table : Table Entry) :
    items.foldl (fun σ item => σ.mapClass (file item))
        (⟨locals, classes.set name table, some name⟩ : Scope) =
      ⟨locals, classes.set name (items.foldl (fun table item => file item table) table),
        some name⟩ := by
  induction items generalizing table with
  | nil => rfl
  | cons item rest ih =>
      rw [List.foldl_cons, mapClass_of_get rfl (Bindings.get?_set_self _ _ _), Bindings.set_set]
      exact ih _

end Scope

/-!
# What a routine makes
-/

/-- What declarations change: the tables of names, the subroutine at hand and the sizes
of the classes. -/
structure Tables where
  scope : Scope
  subroutineName : Option String
  sizes : Bindings String Nat

namespace Tables

/-- Change the table that names of a storage are filed in. -/
def mapTable (t : Tables) (storage : Storage) (f : Table Entry -> Table Entry) : Tables :=
  { t with scope := t.scope.mapTable storage f }

theorem mapTable_mapTable (t : Tables) (storage : Storage) (f g : Table Entry -> Table Entry) :
    (t.mapTable storage f).mapTable storage g = t.mapTable storage fun table => g (f table) := by
  unfold mapTable
  rw [Scope.mapTable_mapTable]

theorem foldl_mapTable (storage : Storage) (file : ι -> Table Entry -> Table Entry)
    (items : List ι) (t : Tables) (f : Table Entry -> Table Entry) :
    items.foldl (fun t item => t.mapTable storage (file item)) (t.mapTable storage f) =
      t.mapTable storage fun table =>
        items.foldl (fun table item => file item table) (f table) := by
  induction items generalizing f with
  | nil => rfl
  | cons item rest ih =>
      rw [List.foldl_cons, mapTable_mapTable]
      exact ih _

theorem mapTable_id {storage : Storage} (h : storage = .var ∨ storage = .argument) (t : Tables) :
    (t.mapTable storage fun table => table) = t := by
  rcases h with rfl | rfl <;> simp [mapTable, Scope.mapTable, Scope.mapLocals]

/-- Where all names go to the table of the subroutine, there may be none of them. -/
theorem foldl_mapLocals {storage : Storage} (h : storage = .var ∨ storage = .argument)
    (file : ι -> Table Entry -> Table Entry) (items : List ι) (t : Tables) :
    items.foldl (fun t item => t.mapTable storage (file item)) t =
      t.mapTable storage fun table => items.foldl (fun table item => file item table) table := by
  have hfold := foldl_mapTable storage file items t fun table => table
  rwa [mapTable_id h] at hfold

/-- A name is declared. -/
def declare (t : Tables) (category : Category) (name : String) (type : Option String) : Tables :=
  match category with
  | .className => { t with scope := { t.scope with className := some name } }
  | .subroutine =>
      { t with
        scope := t.scope.mapClass fun table => table.insert (entryOf .subroutine name type)
        subroutineName := some name }
  | .stored storage =>
      t.mapTable storage fun table => table.insert (entryOf (.stored storage) name type)

/-- The size of the class at hand. -/
def classSize (t : Tables) : Option Nat :=
  t.scope.className.bind t.sizes.get?

end Tables

namespace Compiler

def tables (c : Compiler) : Tables :=
  ⟨c.scope, c.subroutineName, c.sizes⟩

@[simp] theorem scope_tables (c : Compiler) : c.tables.scope = c.scope := rfl

@[simp] theorem subroutineName_tables (c : Compiler) :
    c.tables.subroutineName = c.subroutineName := rfl

@[simp] theorem className_scope (c : Compiler) : c.scope.className = c.className := rfl

def withTables (c : Compiler) (t : Tables) : Compiler :=
  { c with
    locals := t.scope.locals
    classes := t.scope.classes
    className := t.scope.className
    subroutineName := t.subroutineName
    sizes := t.sizes }

/-- From the first compiler to the second, the leaves of the marks were taken, marks,
code and labels were added, and the tables became the given ones. -/
def Makes (c : Compiler) (marks : List Tree.Mark) (code : List Instr) (labels : Nat)
    (t : Tables) (c' : Compiler) : Prop :=
  exists scanner, c.scanner.Takes (Tree.leaves marks) scanner ∧
    c' = (c.extend scanner marks code labels).withTables t

section

variable {c c' c'' : Compiler} {marks marks' : List Tree.Mark} {instrs instrs' : List Instr}
  {drawn drawn' : Nat} {t t' : Tables}

theorem Yields.makes (h : c.Yields marks instrs drawn c') :
    c.Makes marks instrs drawn c.tables c' := by
  rcases h with ⟨s, htakes, rfl⟩
  exact ⟨s, htakes, rfl⟩

theorem makes_withTables (c : Compiler) (t : Tables) : c.Makes [] [] 0 t (c.withTables t) := by
  refine ⟨c.scanner, Scanner.Takes.nil _, ?_⟩
  simp [withTables, extend, Tree.linesFrom, Tree.levels]

theorem Makes.trans (hfirst : c.Makes marks instrs drawn t c')
    (hsecond : c'.Makes marks' instrs' drawn' t' c'') :
    c.Makes (marks ++ marks') (instrs ++ instrs') (drawn + drawn') t' c'' := by
  rcases hfirst with ⟨s, htakes, rfl⟩
  rcases hsecond with ⟨s', htakes', rfl⟩
  refine ⟨s', ?_, ?_⟩
  · rw [Tree.leaves_append]
    exact htakes.append htakes'
  · rw [← extend_extend c s s']
    rfl

theorem Makes.takes (h : c.Makes marks instrs drawn t c') :
    c.scanner.Takes (Tree.leaves marks) c'.scanner := by
  rcases h with ⟨s, htakes, rfl⟩
  exact htakes

theorem Makes.tables (h : c.Makes marks instrs drawn t c') : c'.tables = t := by
  rcases h with ⟨s, htakes, rfl⟩
  rfl

theorem Makes.labels (h : c.Makes marks instrs drawn t c') : c'.labels = c.labels + drawn := by
  rcases h with ⟨s, htakes, rfl⟩
  rfl

theorem Makes.treeOpen (h : c.Makes marks instrs drawn t c') : c'.treeOpen = c.treeOpen := by
  rcases h with ⟨s, htakes, rfl⟩
  rfl

theorem Makes.code (h : c.Makes marks instrs drawn t c') :
    c'.code = c.code ++ instrs.toArray := by
  rcases h with ⟨s, htakes, rfl⟩
  rfl

theorem Makes.depth (h : c.Makes marks instrs drawn t c') :
    c'.depth = c.depth + Tree.levels marks := by
  rcases h with ⟨s, htakes, rfl⟩
  rfl

theorem Makes.tree (h : c.Makes marks instrs drawn t c') :
    c'.tree = c.tree ++ (Tree.linesFrom c.depth marks).toArray := by
  rcases h with ⟨s, htakes, rfl⟩
  rfl

/-- All that is written from the start of the outputs. -/
theorem Makes.written (h : c.Makes marks instrs drawn t c') (hcode : c.code = #[])
    (htree : c.tree = #[]) (hdepth : c.depth = 0) :
    c'.written = (instrs, Tree.linesFrom 0 marks) := by
  simp [Compiler.written, h.code, h.tree, hcode, htree, hdepth]

/-- The tables stay as they are. -/
theorem Makes.yields (hfirst : c.Makes marks instrs drawn t c')
    (hsecond : c'.Yields marks' instrs' drawn' c'') :
    c.Makes (marks ++ marks') (instrs ++ instrs') (drawn + drawn') t c'' := by
  have h := hfirst.trans hsecond.makes
  rwa [hfirst.tables] at h

end

end Compiler

namespace Compile

/-!
# Filing names
-/

theorem run_fileLocally (e : Entry) (c : Compiler) :
    (fileLocally e).run c =
      match c.locals with
      | some table => .ok () { c with locals := some (table.insert e) }
      | none => .error .noTableToExtend c := rfl

theorem run_fileLocally_eq_ok_iff {storage : Storage}
    (hstorage : storage = .var ∨ storage = .argument) {e : Entry} {c c' : Compiler} :
    (fileLocally e).run c = .ok () c' ↔
      c.scope.Keeps storage ∧
        c' = c.withTables (c.tables.mapTable storage fun table => table.insert e) := by
  rw [run_fileLocally]
  cases hlocals : c.locals with
  | none => rcases hstorage with rfl | rfl <;> simp [Scope.Keeps, Compiler.scope, hlocals]
  | some table =>
      rcases hstorage with rfl | rfl <;>
        simp [Scope.Keeps, Compiler.scope, Compiler.withTables, Compiler.tables, Tables.mapTable,
          Scope.mapTable, Scope.mapLocals, hlocals, eq_comm]

theorem run_fileInClass (e : Entry) (c : Compiler) :
    (fileInClass e).run c =
      match c.className with
      | none => .error (.missingKey .absent) c
      | some name =>
          match c.classes.get? name with
          | some table => .ok () { c with classes := c.classes.set name (table.insert e) }
          | none => .error (.missingKey (.text name)) c := rfl

theorem run_fileInClass_eq_ok_iff {e : Entry} {c c' : Compiler} :
    (fileInClass e).run c = .ok () c' ↔
      c.scope.HasClass ∧
        c' = c.withTables
          { c.tables with scope := c.scope.mapClass fun table => table.insert e } := by
  rw [run_fileInClass]
  cases hclass : c.className with
  | none => simp [Scope.HasClass, hclass]
  | some name =>
      cases htable : c.classes.get? name with
      | none => simp [Scope.HasClass, Compiler.scope, hclass, htable]
      | some table =>
          have hscope : c.scope.mapClass (fun table => table.insert e) =
              { c.scope with classes := c.classes.set name (table.insert e) } :=
            Scope.mapClass_of_get hclass htable _
          rw [hscope]
          simp [Scope.HasClass, Compiler.scope, Compiler.withTables, Compiler.tables, hclass,
            htable, eq_comm]

/-!
# Parts of a class
-/

/-- A class up to its last brace. -/
def classFront : CompileM Unit := do
  enter .«class»
  let _ ← takeKeyword [.«class»]
  let name ← declare .className none
  openClass name
  takeSymbol .leftBrace
  let names ← repeatWhile (atKeyword [.static, .field]) classVarDec
  setSize name (total names)
  let _ ← repeatWhile (atKeyword subroutineWords) subroutine
  pure ()

/-- A class with its last brace. -/
def classTree : CompileM Unit := do
  classFront
  takeSymbol .rightBrace
  leave .«class»

theorem classUnit_eq :
    classUnit = (do
      classTree
      closeTree) := by
  simp [classUnit, classTree, classFront]

end Compile

namespace Syntax

/-!
# Tables of declarations
-/

/-- File names of one type. -/
def Names.file (storage : Storage) (names : Names) : Table Entry -> Table Entry :=
  fun table =>
    names.all.foldl
      (fun table name => table.insert (entryOf (.stored storage) name (some names.type.word))) table

def ClassVar.storage (v : ClassVar) : Storage :=
  if v.isStatic then .static else .field

def ClassVar.file (v : ClassVar) : Table Entry -> Table Entry :=
  v.names.file v.storage

def LocalVar.file (v : LocalVar) : Table Entry -> Table Entry :=
  v.names.file .var

def Parameter.file (p : Parameter) : Table Entry -> Table Entry :=
  fun table => table.insert (entryOf (.stored .argument) p.name (some p.type.word))

theorem ClassVar.mapTable_storage (v : ClassVar) (t : Tables) (f : Table Entry -> Table Entry) :
    t.mapTable v.storage f = { t with scope := t.scope.mapClass f } := by
  unfold ClassVar.storage
  cases v.isStatic <;> rfl

theorem foldl_classVars (vars : List ClassVar) (t : Tables) :
    vars.foldl (fun t v => t.mapTable v.storage v.file) t =
      { t with scope := vars.foldl (fun σ v => σ.mapClass v.file) t.scope } := by
  induction vars generalizing t with
  | nil => rfl
  | cons v rest ih => rw [List.foldl_cons, ih, v.mapTable_storage, List.foldl_cons]

/-- How many names are declared in the body. -/
def Body.varCount (body : Body) : Nat :=
  total (body.vars.map fun v => v.names.all.length)

namespace Subroutine

def entry (s : Subroutine) : Entry :=
  entryOf .subroutine s.name (some s.kind.keyword.word)

/-- The table of a subroutine before its names are declared.  In a method the first
argument is the object. -/
def blankTable (s : Subroutine) : Table Entry :=
  if s.kind.keyword = .method then ({} : Table Entry).reserveArgument else {}

/-- The parameters and then the variables of a subroutine are filed. -/
def locals (s : Subroutine) : Table Entry :=
  s.body.vars.foldl (fun table v => v.file table)
    (s.parameters.foldl (fun table p => p.file table) s.blankTable)

end Subroutine

end Syntax

open Syntax

/-- The scope in which the body of a subroutine is compiled.  The subroutine is filed in
its class, and it has a table of its own. -/
def Scope.enter (σ : Scope) (s : Subroutine) : Scope :=
  { σ.mapClass fun table => table.insert s.entry with locals := some s.locals }

/-- The tables with which the body of a subroutine is compiled. -/
def Tables.enter (t : Tables) (s : Subroutine) : Tables :=
  { t with scope := t.scope.enter s, subroutineName := some s.name }

/-- The tables before the parameters and the variables of a subroutine are filed. -/
def Tables.head (t : Tables) (s : Subroutine) : Tables :=
  { t.enter s with scope := { t.scope.enter s with locals := some s.blankTable } }

theorem Tables.enter_eq (t : Tables) (s : Subroutine) :
    t.enter s =
      ((t.head s).mapTable .argument fun table =>
        s.parameters.foldl (fun table p => p.file table) table).mapTable .var fun table =>
          s.body.vars.foldl (fun table v => v.file table) table := rfl

@[simp] theorem Tables.scope_enter (t : Tables) (s : Subroutine) :
    (t.enter s).scope = t.scope.enter s := rfl

@[simp] theorem Tables.classSize_enter (t : Tables) (s : Subroutine) :
    (t.enter s).classSize = t.classSize := rfl

namespace Syntax

/-!
# Code of subroutines
-/

/-- Code at the start of a subroutine, by the type its name is filed with. -/
def prologueCode (size : Nat) (type : Option String) : List Instr :=
  if type = some "constructor" then
    [.pushConstant size, .call "Memory.alloc" 1, .pop (.pointer 0)]
  else if type = some "method" then [.push (.argument 0) none, .pop (.pointer 0)]
  else []

/-- The code of the body of a subroutine in its scope, in a class of a given size. -/
def Body.code (σ : Scope) (name : String) (size label : Nat) (body : Body) : List Instr :=
  .function (qualified σ.className (some name)) body.varCount ::
    (prologueCode size ((σ.entry name).join.bind Entry.type) ++ body.block.code σ label)

def Subroutine.code (σ : Scope) (size label : Nat) (s : Subroutine) : List Instr :=
  s.body.code σ s.name size label

/-- A subroutine with the scope of its body and the first label to draw. -/
structure Placed where
  scope : Scope
  label : Nat
  subroutine : Subroutine

/-- Subroutines that are compiled one after the other. -/
def placeAll : Scope -> Nat -> List Subroutine -> List Placed
  | _, _, [] => []
  | σ, label, s :: rest =>
      ⟨σ.enter s, label, s⟩ :: placeAll (σ.enter s) (label + s.body.block.labels) rest

def Placed.code (size : Nat) (p : Placed) : List Instr :=
  p.subroutine.code p.scope size p.label

/-!
# Code of classes
-/

namespace Class

/-- How many static names and fields there are. -/
def size (unit : Class) : Nat :=
  total (unit.vars.map fun v => v.names.all.length)

/-- The table of the class when its subroutines begin. -/
def varTable (unit : Class) : Table Entry :=
  unit.vars.foldl (fun table v => v.file table) {}

/-- The scope when the subroutines of a class begin. -/
def scope (unit : Class) (σ : Scope) : Scope :=
  ⟨σ.locals, σ.classes.set unit.name unit.varTable, some unit.name⟩

/-- The subroutines of a class that is compiled in a scope, with labels from a given one
on. -/
def placed (unit : Class) (σ : Scope) (label : Nat) : List Placed :=
  placeAll (unit.scope σ) label unit.subroutines

/-- The code of a class is that of its subroutines. -/
def code (unit : Class) (σ : Scope) (label : Nat) : List Instr :=
  (unit.placed σ label).flatMap (Placed.code unit.size)

def labels (unit : Class) : Nat :=
  total (unit.subroutines.map fun s => s.body.block.labels)

/-- The tables when the subroutines of a class begin. -/
def varTables (unit : Class) (t : Tables) : Tables :=
  { t with scope := unit.scope t.scope, sizes := t.sizes.set unit.name unit.size }

/-- The tables after a class. -/
def tables (unit : Class) (t : Tables) : Tables :=
  unit.subroutines.foldl Tables.enter (unit.varTables t)

theorem sizes_foldl_enter (subroutines : List Subroutine) (t : Tables) :
    (subroutines.foldl Tables.enter t).sizes = t.sizes := by
  induction subroutines generalizing t with
  | nil => rfl
  | cons s rest ih => exact ih (t.enter s)

theorem sizes_tables (unit : Class) (t : Tables) :
    (unit.tables t).sizes = t.sizes.set unit.name unit.size :=
  sizes_foldl_enter unit.subroutines (unit.varTables t)

/-- All names in the bodies of a class that have to be looked up can be. -/
def Resolved (unit : Class) (σ : Scope) (label : Nat) : Prop :=
  forall p, p ∈ unit.placed σ label -> p.subroutine.body.block.Resolved p.scope

end Class

end Syntax
end Jack
