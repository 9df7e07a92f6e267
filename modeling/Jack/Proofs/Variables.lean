import Mathlib.Data.List.Nodup
import Jack.Proofs.Declarations
import Jack.Proofs.Resolution

/-!
# Tables of declared variables

The parameters and variables of a subroutine are filed in one table, the fields, the static
names and the subroutines of its class in another.  A name that is filed again loses its
former entry.  So names that are declared once are found where their declarations put them,
unless a subroutine has taken the name.
-/

namespace Jack

open Compile

/-!
# Filing entries one after the other
-/

namespace Table

def insertAll (table : Table Entry) (entries : List Entry) : Table Entry :=
  entries.foldl insert table

theorem insertAll_append (table : Table Entry) (first second : List Entry) :
    table.insertAll (first ++ second) = (table.insertAll first).insertAll second := by
  simp [insertAll]

theorem get?_insert_of_ne (table : Table Entry) {e : Entry} {name : Option String}
    (h : name ≠ e.name) : (table.insert e).get? name = table.get? name := by
  rw [← table.counts.name_number e] at h
  exact Bindings.get?_set_of_ne table.bindings _ h

theorem get?_insertAll_of_not_mem (table : Table Entry) {entries : List Entry}
    {name : Option String} (h : name ∉ entries.map Entry.name) :
    (table.insertAll entries).get? name = table.get? name := by
  induction entries generalizing table with
  | nil => rfl
  | cons e rest ih =>
      rw [List.map_cons, List.mem_cons, not_or] at h
      have hrest : ((table.insert e).insertAll rest).get? name = (table.insert e).get? name :=
        ih _ h.2
      exact hrest.trans (table.get?_insert_of_ne h.1)

/-- A name that is filed has the entry of one of its declarations. -/
theorem exists_get?_insertAll (table : Table Entry) {entries : List Entry}
    {name : Option String} (h : name ∈ entries.map Entry.name) :
    exists e counts, e ∈ entries ∧ e.name = name ∧
      (table.insertAll entries).get? name = some (Counts.number counts e).1 := by
  induction entries generalizing table with
  | nil => cases h
  | cons e rest ih =>
      by_cases hrest : name ∈ rest.map Entry.name
      · rcases ih (table.insert e) hrest with ⟨found, counts, hfound, hname, hget⟩
        exact ⟨found, counts, List.mem_cons_of_mem _ hfound, hname, hget⟩
      · have hname : name = e.name := (List.mem_cons.mp h).resolve_right hrest
        subst hname
        refine ⟨e, table.counts, List.mem_cons_self, rfl, ?_⟩
        have hkept : ((table.insert e).insertAll rest).get? e.name = (table.insert e).get? e.name :=
          get?_insertAll_of_not_mem _ hrest
        exact hkept.trans (table.get?_insert_name e)

end Table

/-- The entry is that of a stored name, with the place of a location. -/
def Entry.IsAt (e : Entry) (location : Location) : Prop :=
  e.standing = .known (.stored location.storage) ∧ e.place = location.place

namespace Syntax

/-!
# Declared names
-/

/-- A name that is declared for a value. -/
structure Declaration where
  storage : Storage
  name : String
  type : String

namespace Declaration

def entry (d : Declaration) : Entry :=
  entryOf (.stored d.storage) d.name (some d.type)

theorem map_name_entry (declarations : List Declaration) :
    (declarations.map entry).map Entry.name = (declarations.map name).map some := by
  rw [List.map_map, List.map_map]
  rfl

/-- The names of one storage. -/
def namesIn (storage : Storage) (declarations : List Declaration) : List String :=
  (declarations.filter fun d => d.storage = storage).map name

theorem namesIn_append (storage : Storage) (first second : List Declaration) :
    namesIn storage (first ++ second) = namesIn storage first ++ namesIn storage second := by
  simp [namesIn]

theorem namesIn_cons_of_eq (d : Declaration) (rest : List Declaration) :
    namesIn d.storage (d :: rest) = d.name :: namesIn d.storage rest := by
  simp [namesIn]

theorem namesIn_cons_of_ne {storage : Storage} {d : Declaration} (h : d.storage ≠ storage)
    (rest : List Declaration) : namesIn storage (d :: rest) = namesIn storage rest := by
  simp [namesIn, h]

/-- Variables with different names are numbered within their storage. -/
theorem get?_insertAll {declarations : List Declaration} (hnodup : (declarations.map name).Nodup)
    {d : Declaration} (hd : d ∈ declarations) (table : Table Entry) :
    (table.insertAll (declarations.map entry)).get? (some d.name) =
      some { d.entry with
        index := (table.counts.get d.storage +
          (namesIn d.storage declarations).idxOf d.name : Nat) } := by
  induction declarations generalizing table with
  | nil => cases hd
  | cons first rest ih =>
      rw [List.map_cons, List.nodup_cons] at hnodup
      show ((table.insert first.entry).insertAll (rest.map entry)).get? (some d.name) = _
      cases hd with
      | head =>
          have hlast : some d.name ∉ (rest.map entry).map Entry.name := by
            rw [map_name_entry]
            simpa using hnodup.1
          rw [Table.get?_insertAll_of_not_mem _ hlast, namesIn_cons_of_eq, List.idxOf_cons_self]
          exact table.get?_insert_name d.entry
      | tail _ hd =>
          have hne : first.name ≠ d.name := fun heq =>
            hnodup.1 (heq ▸ List.mem_map_of_mem hd)
          have hcounts : (table.insert first.entry).counts = table.counts.bump first.storage := rfl
          rw [ih hnodup.2 hd, hcounts, Counts.get_bump]
          by_cases hstorage : first.storage = d.storage
          · rw [if_pos hstorage.symm, ← hstorage, namesIn_cons_of_eq, List.idxOf_cons_ne _ hne,
              Nat.add_right_comm, Nat.add_assoc]
          · rw [if_neg (Ne.symm hstorage), namesIn_cons_of_ne hstorage, Nat.add_zero]

theorem exists_isAt {declarations : List Declaration} (hnodup : (declarations.map name).Nodup)
    {storage : Storage} {name : String} {position : Nat}
    (h : (namesIn storage declarations).idxOf? name = some position) (table : Table Entry) :
    exists e, (table.insertAll (declarations.map entry)).get? (some name) = some e ∧
      e.IsAt ⟨storage, table.counts.get storage + position⟩ := by
  have hmem : name ∈ namesIn storage declarations := by
    by_contra hnot
    rw [List.idxOf?_eq_none_iff.mpr hnot] at h
    cases h
  have hposition : (namesIn storage declarations).idxOf name = position := by
    rw [List.idxOf_eq_getD_idxOf?, h]
    rfl
  rcases List.mem_map.mp hmem with ⟨d, hfiltered, rfl⟩
  rcases List.mem_filter.mp hfiltered with ⟨hd, hstorage⟩
  have hstorage : d.storage = storage := by simpa using hstorage
  subst hstorage
  refine ⟨_, get?_insertAll hnodup hd table, rfl, ?_⟩
  rw [hposition]
  rfl

end Declaration

/-!
# Variables of subroutines
-/

def Names.declarations (storage : Storage) (names : Names) : List Declaration :=
  names.all.map fun name => ⟨storage, name, names.type.word⟩

theorem Names.file_eq (storage : Storage) (names : Names) (table : Table Entry) :
    names.file storage table =
      table.insertAll ((names.declarations storage).map Declaration.entry) := by
  simp only [Names.file, Names.declarations, Table.insertAll, List.map_map, List.foldl_map]
  rfl

theorem Names.map_name_declarations (storage : Storage) (names : Names) :
    (names.declarations storage).map Declaration.name = names.all := by
  simp [Names.declarations, Function.comp_def]

theorem Names.namesIn_declarations (storage : Storage) (names : Names) :
    Declaration.namesIn storage (names.declarations storage) = names.all := by
  simp [Declaration.namesIn, Names.declarations, List.filter_map, Function.comp_def]

theorem Names.namesIn_declarations_of_ne {storage other : Storage} (h : other ≠ storage)
    (names : Names) : Declaration.namesIn storage (names.declarations other) = [] := by
  simp [Declaration.namesIn, Names.declarations, List.filter_map, Function.comp_def, h]

section

variable {ι : Type} (names : ι -> Names) (storage : ι -> Storage)

theorem foldl_file (items : List ι) (table : Table Entry) :
    items.foldl (fun table item => (names item).file (storage item) table) table =
      table.insertAll
        ((items.flatMap fun item => (names item).declarations (storage item)).map
          Declaration.entry) := by
  induction items generalizing table with
  | nil => rfl
  | cons item rest ih =>
      rw [List.foldl_cons, ih, Names.file_eq, List.flatMap_cons, List.map_append,
        Table.insertAll_append]

theorem map_name_flatMap (items : List ι) :
    (items.flatMap fun item => (names item).declarations (storage item)).map Declaration.name =
      items.flatMap fun item => (names item).all := by
  simp [List.map_flatMap, Names.map_name_declarations]

theorem namesIn_flatMap (wanted : Storage) (items : List ι) :
    Declaration.namesIn wanted
        (items.flatMap fun item => (names item).declarations (storage item)) =
      (items.filter fun item => storage item = wanted).flatMap fun item => (names item).all := by
  induction items with
  | nil => rfl
  | cons item rest ih =>
      rw [List.flatMap_cons, Declaration.namesIn_append, ih]
      by_cases hstorage : storage item = wanted
      · subst hstorage
        simp [Names.namesIn_declarations]
      · simp [Names.namesIn_declarations_of_ne hstorage, hstorage]

end

namespace Subroutine

def parameterNames (s : Subroutine) : List String :=
  s.parameters.map Parameter.name

def varNames (s : Subroutine) : List String :=
  s.body.vars.flatMap fun v => v.names.all

/-- How many arguments a subroutine gets: one for each parameter, and its object if it is a
method. -/
def arity (s : Subroutine) : Nat :=
  s.parameters.length + (if s.kind = .method then 1 else 0)

def declarations (s : Subroutine) : List Declaration :=
  s.parameters.map (fun p => ⟨.argument, p.name, p.type.word⟩) ++
    s.body.vars.flatMap fun v => v.names.declarations .var

theorem map_name_declarations (s : Subroutine) :
    s.declarations.map Declaration.name = s.parameterNames ++ s.varNames := by
  rw [declarations, List.map_append, map_name_flatMap LocalVar.names fun _ => .var]
  simp [parameterNames, varNames, Function.comp_def]

theorem namesIn_var (s : Subroutine) : Declaration.namesIn .var s.declarations = s.varNames := by
  rw [declarations, Declaration.namesIn_append, namesIn_flatMap LocalVar.names fun _ => .var]
  simp [Declaration.namesIn, varNames, List.filter_map, Function.comp_def]

theorem namesIn_argument (s : Subroutine) :
    Declaration.namesIn .argument s.declarations = s.parameterNames := by
  rw [declarations, Declaration.namesIn_append, namesIn_flatMap LocalVar.names fun _ => .var]
  simp [Declaration.namesIn, parameterNames, List.filter_map, Function.comp_def]

theorem locals_eq (s : Subroutine) :
    s.locals = s.blankTable.insertAll (s.declarations.map Declaration.entry) := by
  have hvars := foldl_file LocalVar.names (fun _ => .var) s.body.vars
    (s.parameters.foldl (fun table p => p.file table) s.blankTable)
  rw [declarations, List.map_append, Table.insertAll_append]
  refine hvars.trans (congrArg (Table.insertAll · _) ?_)
  simp only [Table.insertAll, List.map_map, List.foldl_map]
  rfl

theorem get?_blankTable (s : Subroutine) (name : Option String) :
    s.blankTable.get? name = none := by
  unfold blankTable
  split <;> rfl

/-- Where a subroutine keeps a name of its own: the declarations are numbered, and so are the
parameters, behind the object of a method. -/
def location (s : Subroutine) (name : String) : Option Location :=
  ((s.varNames.idxOf? name).map fun k => ⟨.var, k⟩).or
    ((s.parameterNames.idxOf? name).map fun k =>
      ⟨.argument, if s.kind = .method then k + 1 else k⟩)

theorem location_eq_none_iff (s : Subroutine) (name : String) :
    s.location name = none ↔ name ∉ s.parameterNames ++ s.varNames := by
  simp [location, and_comm]

theorem get?_locals_of_not_mem {s : Subroutine} {name : String}
    (h : name ∉ s.parameterNames ++ s.varNames) : s.locals.get? (some name) = none := by
  have hnone : some name ∉ (s.declarations.map Declaration.entry).map Entry.name := by
    rw [Declaration.map_name_entry, s.map_name_declarations]
    simpa using h
  rw [locals_eq, Table.get?_insertAll_of_not_mem _ hnone, get?_blankTable]

theorem exists_isAt_locals {s : Subroutine} (hnodup : (s.parameterNames ++ s.varNames).Nodup)
    {name : String} {location : Location} (h : s.location name = some location) :
    exists e, s.locals.get? (some name) = some e ∧ e.IsAt location := by
  rw [← s.map_name_declarations] at hnodup
  rw [locals_eq]
  unfold Subroutine.location at h
  cases hvar : s.varNames.idxOf? name with
  | some k =>
      rw [hvar] at h
      cases h
      rw [← s.namesIn_var] at hvar
      have hcount : s.blankTable.counts.get .var = 0 := by
        unfold blankTable
        split <;> rfl
      have hat := Declaration.exists_isAt hnodup hvar s.blankTable
      rwa [hcount, Nat.zero_add] at hat
  | none =>
      rw [hvar] at h
      rcases Option.map_eq_some_iff.mp h with ⟨k, hparameter, rfl⟩
      rw [← s.namesIn_argument] at hparameter
      have hcount : s.blankTable.counts.get .argument + k =
          if s.kind = .method then k + 1 else k := by
        unfold blankTable
        cases s.kind with
        | method => exact Nat.add_comm 1 k
        | function => exact Nat.zero_add k
        | constructor => exact Nat.zero_add k
      have hat := Declaration.exists_isAt hnodup hparameter s.blankTable
      rwa [hcount] at hat

end Subroutine

/-!
# Variables of classes
-/

namespace Class

def fieldNames (unit : Class) : List String :=
  (unit.vars.filter fun v => !v.isStatic).flatMap fun v => v.names.all

def staticNames (unit : Class) : List String :=
  (unit.vars.filter fun v => v.isStatic).flatMap fun v => v.names.all

def declarations (unit : Class) : List Declaration :=
  unit.vars.flatMap fun v => v.names.declarations v.storage

theorem map_name_declarations (unit : Class) :
    unit.declarations.map Declaration.name = unit.vars.flatMap fun v => v.names.all :=
  map_name_flatMap ClassVar.names ClassVar.storage unit.vars

theorem namesIn_field (unit : Class) :
    Declaration.namesIn .field unit.declarations = unit.fieldNames := by
  rw [declarations, namesIn_flatMap ClassVar.names ClassVar.storage, fieldNames]
  congr 2
  funext v
  unfold ClassVar.storage
  cases v.isStatic <;> rfl

theorem namesIn_static (unit : Class) :
    Declaration.namesIn .static unit.declarations = unit.staticNames := by
  rw [declarations, namesIn_flatMap ClassVar.names ClassVar.storage, staticNames]
  congr 2
  funext v
  unfold ClassVar.storage
  cases v.isStatic <;> rfl

theorem varTable_eq (unit : Class) :
    unit.varTable = ({} : Table Entry).insertAll (unit.declarations.map Declaration.entry) :=
  foldl_file ClassVar.names ClassVar.storage unit.vars {}

/-- Where a class keeps a name of its own. -/
def location (unit : Class) (name : String) : Option Location :=
  ((unit.fieldNames.idxOf? name).map fun k => ⟨.field, k⟩).or
    ((unit.staticNames.idxOf? name).map fun k => ⟨.static, k⟩)

theorem mem_names_iff (unit : Class) (name : String) :
    (name ∈ unit.vars.flatMap fun v => v.names.all) ↔
      name ∈ unit.fieldNames ∨ name ∈ unit.staticNames := by
  simp only [fieldNames, staticNames, List.mem_flatMap, List.mem_filter]
  constructor
  · intro h
    rcases h with ⟨v, hv, hname⟩
    cases hstatic : v.isStatic with
    | false => exact Or.inl ⟨v, ⟨hv, by simp [hstatic]⟩, hname⟩
    | true => exact Or.inr ⟨v, ⟨hv, hstatic⟩, hname⟩
  · intro h
    rcases h with ⟨v, ⟨hv, _⟩, hname⟩ | ⟨v, ⟨hv, _⟩, hname⟩
    · exact ⟨v, hv, hname⟩
    · exact ⟨v, hv, hname⟩

theorem get?_varTable_of_location_none {unit : Class} {name : String}
    (h : unit.location name = none) : unit.varTable.get? (some name) = none := by
  have hnone : some name ∉ (unit.declarations.map Declaration.entry).map Entry.name := by
    rw [Declaration.map_name_entry, unit.map_name_declarations]
    simp only [List.mem_map, Option.some.injEq, exists_eq_right]
    rw [mem_names_iff]
    simpa [location] using h
  rw [varTable_eq, Table.get?_insertAll_of_not_mem _ hnone]
  rfl

theorem exists_isAt_varTable {unit : Class}
    (hnodup : (unit.vars.flatMap fun v => v.names.all).Nodup) {name : String}
    {location : Location} (h : unit.location name = some location) :
    exists e, unit.varTable.get? (some name) = some e ∧ e.IsAt location := by
  rw [← unit.map_name_declarations] at hnodup
  rw [varTable_eq]
  unfold Class.location at h
  cases hfield : unit.fieldNames.idxOf? name with
  | some k =>
      rw [hfield] at h
      cases h
      rw [← unit.namesIn_field] at hfield
      have hat := Declaration.exists_isAt hnodup hfield {}
      rwa [show ({} : Table Entry).counts.get .field + k = k from Nat.zero_add k] at hat
  | none =>
      rw [hfield] at h
      rcases Option.map_eq_some_iff.mp h with ⟨k, hstatic, rfl⟩
      rw [← unit.namesIn_static] at hstatic
      have hat := Declaration.exists_isAt hnodup hstatic {}
      rwa [show ({} : Table Entry).counts.get .static + k = k from Nat.zero_add k] at hat

end Class

/-!
# Tables of bodies
-/

/-- The table of a class when some of its subroutines have begun. -/
def Class.table (unit : Class) (begun : List Subroutine) : Table Entry :=
  unit.varTable.insertAll (begun.map Subroutine.entry)

theorem Class.get?_table_of_not_mem (unit : Class) {begun : List Subroutine} {name : String}
    (h : name ∉ begun.map Subroutine.name) :
    (unit.table begun).get? (some name) = unit.varTable.get? (some name) := by
  apply Table.get?_insertAll_of_not_mem
  intro hmem
  rw [List.map_map] at hmem
  rcases List.mem_map.mp hmem with ⟨s, hs, hname⟩
  cases hname
  exact h (List.mem_map_of_mem hs)

/-- A name that a subroutine has taken is that of a subroutine. -/
theorem Class.exists_get?_table (unit : Class) {begun : List Subroutine} {name : String}
    (h : name ∈ begun.map Subroutine.name) :
    exists s : Subroutine, (unit.table begun).get? (some name) = some s.entry := by
  have hmem : some name ∈ (begun.map Subroutine.entry).map Entry.name := by
    rcases List.mem_map.mp h with ⟨s, hs, rfl⟩
    rw [List.map_map]
    exact List.mem_map.mpr ⟨s, hs, rfl⟩
  rcases unit.varTable.exists_get?_insertAll hmem with ⟨e, counts, he, _, hget⟩
  rcases List.mem_map.mp he with ⟨s, _, rfl⟩
  exact ⟨s, hget⟩

/-- A subroutine that begins is filed in the table of its class. -/
theorem Scope.get?_classes_enter {σ : Scope} {className : String} {table : Table Entry}
    (hname : σ.className = some className) (htable : σ.classes.get? className = some table)
    (s : Subroutine) : (σ.enter s).classes.get? className = some (table.insert s.entry) := by
  show (σ.mapClass _).classes.get? className = _
  rw [Scope.mapClass_of_get hname htable]
  exact Bindings.get?_set_self _ _ _

theorem placeAll_split {σ : Scope} {label : Nat} {subroutines : List Subroutine}
    {before after : List Placed} {p : Placed} {className : String} {table : Table Entry}
    (hname : σ.className = some className) (htable : σ.classes.get? className = some table)
    (h : placeAll σ label subroutines = before ++ p :: after) :
    p.scope.locals = some p.subroutine.locals ∧ p.scope.className = some className ∧
      p.scope.classes.get? className =
        some (table.insertAll
          ((before.map Placed.subroutine ++ [p.subroutine]).map Subroutine.entry)) := by
  induction subroutines generalizing σ label table before with
  | nil => simp [placeAll] at h
  | cons s rest ih =>
      have hentered := Scope.get?_classes_enter hname htable s
      cases before with
      | nil =>
          injection h with hp _
          subst hp
          exact ⟨rfl, hname, hentered⟩
      | cons first before =>
          injection h with hfirst htail
          subst hfirst
          have hrest := ih (σ := σ.enter s) hname hentered htail
          exact hrest

/-- The body of a subroutine finds the names of the subroutine, then those of its class,
where the subroutines up to this one have been filed. -/
theorem Class.entry_of_placed {unit : Class} {σ : Scope} {label : Nat}
    {before after : List Placed} {p : Placed}
    (h : unit.placed σ label = before ++ p :: after) (name : String) :
    p.scope.entry name =
      some ((p.subroutine.locals.get? (some name)).or
        ((unit.table (before.map Placed.subroutine ++ [p.subroutine])).get? (some name))) := by
  rcases placeAll_split rfl (Bindings.get?_set_self _ _ _) h with ⟨hlocals, hname, htable⟩
  exact Scope.entry_of_tables hlocals hname htable name

theorem map_subroutine_placeAll (σ : Scope) (label : Nat) (subroutines : List Subroutine) :
    (placeAll σ label subroutines).map Placed.subroutine = subroutines := by
  induction subroutines generalizing σ label with
  | nil => rfl
  | cons s rest ih => rw [placeAll, List.map_cons, ih]

theorem Class.mem_of_placed {unit : Class} {σ : Scope} {label : Nat}
    {before after : List Placed} {p : Placed} (h : unit.placed σ label = before ++ p :: after) :
    p.subroutine ∈ unit.subroutines := by
  have hsubroutines := map_subroutine_placeAll (unit.scope σ) label unit.subroutines
  rw [← hsubroutines]
  apply List.mem_map_of_mem
  rw [show placeAll (unit.scope σ) label unit.subroutines = before ++ p :: after from h]
  exact List.mem_append_right _ List.mem_cons_self

end Syntax
end Jack
