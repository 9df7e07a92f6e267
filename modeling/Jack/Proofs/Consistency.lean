import Jack.Proofs.Bounds
import Jack.Proofs.Filing.Class
import Jack.Proofs.Jumps

/-!
# Consistent tables

Every table of a compiler is filled by declarations.  The table of a subroutine takes variables
and arguments, and that of a class takes static names, fields and subroutines.  So an entry can
be told from the declaration that it was made by, and the entries of one storage are numbered
apart.  This holds after any requests, and requests that fail halfway are no exception.
-/

namespace Jack

open Compile

/-!
# Consistent tables
-/

namespace Entry

/-- A variable or an argument, with its segment. -/
def IsLocal (e : Entry) : Prop :=
  (e.standing = .known (.stored .var) ∧ e.segment = some .«local») ∨
    (e.standing = .known (.stored .argument) ∧ e.segment = some .argument)

/-- A field or a static name with its segment, or a subroutine, which has no segment and no
index. -/
def IsOfClass (e : Entry) : Prop :=
  (e.standing = .known (.stored .field) ∧ e.segment = some .this) ∨
    (e.standing = .known (.stored .static) ∧ e.segment = some .static) ∨
      (e.standing = .known .subroutine ∧ e.segment = none ∧ e.index = -1)

end Entry

/-- The entries of a table are filed under their names, and each of them is of a given form.
Stored entries are numbered below the count of their storage, none of them like another one.
The type of an entry is a kind of subroutine exactly if the entry is that of a subroutine. -/
structure Table.Consistent (Fits : Entry -> Prop) (table : Table Entry) : Prop where
  name : forall name e, table.get? name = some e -> e.name = name
  fits : forall name e, table.get? name = some e -> Fits e
  index : forall name e storage, table.get? name = some e ->
    e.standing = .known (.stored storage) -> 0 ≤ e.index ∧ e.index < table.counts.get storage
  distinct : forall name name' e e' storage, table.get? name = some e ->
    table.get? name' = some e' -> e.standing = .known (.stored storage) ->
    e'.standing = .known (.stored storage) -> name ≠ name' -> e.index ≠ e'.index
  type : forall name e, table.get? name = some e ->
    (NamesKind e.type ↔ e.standing = .known .subroutine)

/-- The table of the subroutine at hand and those of all classes are consistent. -/
structure Compiler.Consistent (c : Compiler) : Prop where
  locals : forall table, c.locals = some table -> table.Consistent Entry.IsLocal
  classes : forall name table, c.classes.get? name = some table ->
    table.Consistent Entry.IsOfClass

/-!
# Tables filled by some declarations
-/

namespace Table

/-- The index of an entry differs from that of the next one to be filed. -/
theorem Filled.index_ne {table : Table Entry} (h : table.Filled) {name : Option String}
    {e : Entry} {storage : Storage} (hget : table.get? name = some e)
    (hstanding : e.standing = .known (.stored storage)) :
    e.index ≠ table.counts.get storage := by
  rcases h.index_lt hget hstanding with ⟨n, hindex, hlt⟩
  omega

/-- Entries of one storage are numbered apart. -/
theorem Filled.index_ne_of_ne {table : Table Entry} (h : table.Filled)
    {name name' : Option String} {e e' : Entry} {storage : Storage}
    (hget : table.get? name = some e) (hget' : table.get? name' = some e')
    (hstanding : e.standing = .known (.stored storage))
    (hstanding' : e'.standing = .known (.stored storage)) (hne : name ≠ name') :
    e.index ≠ e'.index := by
  induction h with
  | empty => cases hget
  | reserve _ ih => exact ih hget hget'
  | declare category declared type hfilled ih =>
      rename_i table
      have hself := table.get?_insert_name (entryOf category declared type)
      have hother := fun {key : Option String} (hkey : key ≠ some declared) =>
        table.get?_insert_of_ne (e := entryOf category declared type) hkey
      -- an entry that is stored as well gets the next index of the storage
      have hnew : forall {filed : Entry},
          (table.insert (entryOf category declared type)).get? (some declared) = some filed ->
          filed.standing = .known (.stored storage) ->
          filed.index = table.counts.get storage := by
        intro filed hfiled hstored
        cases Option.some.inj (hself.symm.trans hfiled)
        cases category with
        | stored found =>
            cases hstored
            rfl
        | className => cases hstored
        | subroutine => cases hstored
      by_cases hname : name = some declared
      · subst hname
        rw [hother hne.symm] at hget'
        rw [hnew hget hstanding]
        exact (hfilled.index_ne hget' hstanding').symm
      · rw [hother hname] at hget
        by_cases hname' : name' = some declared
        · subst hname'
          rw [hnew hget' hstanding']
          exact hfilled.index_ne hget hstanding
        · rw [hother hname'] at hget'
          exact ih hget hget'

/-- The tables that some declarations make from an empty one. -/
inductive FilledBy (Allowed : Category -> Option String -> Prop) : Table Entry -> Prop where
  | empty : FilledBy Allowed {}
  | declare {table : Table Entry} {category : Category} {type : Option String} (name : String) :
      Allowed category type -> FilledBy Allowed table ->
      FilledBy Allowed (table.insert (entryOf category name type))
  | reserve {table : Table Entry} : FilledBy Allowed table -> FilledBy Allowed table.reserveArgument

section

variable {Allowed : Category -> Option String -> Prop} {table : Table Entry}

theorem FilledBy.filled (h : table.FilledBy Allowed) : table.Filled := by
  induction h with
  | empty => exact .empty
  | declare name _ _ ih => exact ih.declare _ name _
  | reserve _ ih => exact ih.reserve

/-- What is found under a name was declared with the name. -/
theorem FilledBy.exists_declaration (h : table.FilledBy Allowed) {name : Option String} {e : Entry}
    (hget : table.get? name = some e) :
    exists category declared type counts, Allowed category type ∧ name = some declared ∧
      e = (Counts.number counts (entryOf category declared type)).1 := by
  induction h with
  | empty => cases hget
  | reserve _ ih => exact ih hget
  | declare declared hallowed _ ih =>
      rename_i table category type _
      by_cases hname : name = some declared
      · subst hname
        have hself := table.get?_insert_name (entryOf category declared type)
        refine ⟨category, declared, type, table.counts, hallowed, rfl, ?_⟩
        exact Option.some.inj (hget.symm.trans hself)
      · rw [table.get?_insert_of_ne (e := entryOf category declared type) hname] at hget
        exact ih hget

theorem FilledBy.consistent (h : table.FilledBy Allowed) {Fits : Entry -> Prop}
    (htype : forall category type, Allowed category type ->
      (NamesKind type ↔ category = .subroutine))
    (hfits : forall category name type counts, Allowed category type ->
      Fits (Counts.number counts (entryOf category name type)).1) : table.Consistent Fits := by
  constructor
  · intro name e hget
    rcases h.exists_declaration hget with ⟨_, _, _, counts, _, rfl, rfl⟩
    exact counts.name_number _
  · intro name e hget
    rcases h.exists_declaration hget with ⟨_, _, _, _, hallowed, _, rfl⟩
    exact hfits _ _ _ _ hallowed
  · intro name e storage hget hstanding
    rcases h.filled.index_lt hget hstanding with ⟨n, hindex, hlt⟩
    omega
  · intro name name' e e' storage hget hget' hstanding hstanding' hne
    exact h.filled.index_ne_of_ne hget hget' hstanding hstanding' hne
  · intro name e hget
    rcases h.exists_declaration hget with ⟨category, _, type, _, hallowed, _, rfl⟩
    cases category with
    | stored storage => simpa [Counts.number, entryOf] using htype _ _ hallowed
    | className => simpa [Counts.number, entryOf] using htype _ _ hallowed
    | subroutine => simpa [Counts.number, entryOf] using htype _ _ hallowed

end

end Table

/-!
# What the tables take
-/

/-- A declaration for the table of a subroutine. -/
def IsLocalDeclaration (category : Category) (type : Option String) : Prop :=
  (category = .stored .var ∨ category = .stored .argument) ∧
    (NamesKind type ↔ category = .subroutine)

/-- A declaration for the table of a class. -/
def IsClassDeclaration (category : Category) (type : Option String) : Prop :=
  (category = .stored .static ∨ category = .stored .field ∨ category = .subroutine) ∧
    (NamesKind type ↔ category = .subroutine)

theorem Entry.isLocal_of_declaration {category : Category} {type : Option String}
    (h : IsLocalDeclaration category type) (name : String) (counts : Counts) :
    (counts.number (entryOf category name type)).1.IsLocal := by
  rcases h.1 with rfl | rfl
  · exact Or.inl ⟨rfl, rfl⟩
  · exact Or.inr ⟨rfl, rfl⟩

theorem Entry.isOfClass_of_declaration {category : Category} {type : Option String}
    (h : IsClassDeclaration category type) (name : String) (counts : Counts) :
    (counts.number (entryOf category name type)).1.IsOfClass := by
  rcases h.1 with rfl | rfl | rfl
  · exact Or.inr (Or.inl ⟨rfl, rfl⟩)
  · exact Or.inl ⟨rfl, rfl⟩
  · exact Or.inr (Or.inr ⟨rfl, rfl, rfl⟩)

namespace Tables

/-- All tables are filled by the declarations that belong there. -/
structure Orderly (t : Tables) : Prop where
  locals : forall table, t.scope.locals = some table -> table.FilledBy IsLocalDeclaration
  classes : forall name table, t.scope.classes.get? name = some table ->
    table.FilledBy IsClassDeclaration

section

variable {t : Tables} {f : Table Entry -> Table Entry}

theorem Orderly.mapLocals (h : t.Orderly)
    (hf : forall table : Table Entry, table.FilledBy IsLocalDeclaration ->
      (f table).FilledBy IsLocalDeclaration) :
    Orderly { t with scope := t.scope.mapLocals f } := by
  constructor
  · intro table htable
    rcases Option.map_eq_some_iff.mp htable with ⟨former, hformer, rfl⟩
    exact hf former (h.locals former hformer)
  · exact h.classes

theorem Orderly.setClass (h : t.Orderly) {table : Table Entry}
    (htable : table.FilledBy IsClassDeclaration) (owner : String) :
    Orderly { t with scope := { t.scope with classes := t.scope.classes.set owner table } } := by
  constructor
  · exact h.locals
  · intro name found hfound
    have hget : (t.scope.classes.set owner table).get? name = some found := hfound
    by_cases hname : name = owner
    · subst hname
      rw [Bindings.get?_set_self] at hget
      cases hget
      exact htable
    · rw [Bindings.get?_set_of_ne _ _ hname] at hget
      exact h.classes name found hget

theorem Orderly.mapClass (h : t.Orderly)
    (hf : forall table : Table Entry, table.FilledBy IsClassDeclaration ->
      (f table).FilledBy IsClassDeclaration) :
    Orderly { t with scope := t.scope.mapClass f } := by
  by_cases hclass : t.scope.HasClass
  · rcases hclass with ⟨name, table, hname, htable⟩
    rw [Scope.mapClass_of_get hname htable]
    exact h.setClass (hf table (h.classes name table htable)) name
  · rwa [Scope.mapClass_of_not_hasClass hclass]

theorem Orderly.declare (h : t.Orderly) {category : Category} {type : Option String}
    (hcategory : category ≠ .className) (htype : NamesKind type ↔ category = .subroutine)
    (name : String) : (t.declare category name type).Orderly := by
  rcases category with (_ | _ | _ | _) | _ | _
  · exact h.mapLocals fun _ hfilled => hfilled.declare name ⟨Or.inl rfl, htype⟩
  · exact h.mapLocals fun _ hfilled => hfilled.declare name ⟨Or.inr rfl, htype⟩
  · exact h.mapClass fun _ hfilled => hfilled.declare name ⟨Or.inl rfl, htype⟩
  · exact h.mapClass fun _ hfilled => hfilled.declare name ⟨Or.inr (Or.inl rfl), htype⟩
  · exact absurd rfl hcategory
  · have hfiled := h.mapClass fun _ hfilled =>
      hfilled.declare name (⟨Or.inr (Or.inr rfl), htype⟩ : IsClassDeclaration .subroutine type)
    exact ⟨hfiled.locals, hfiled.classes⟩

end

section

variable {owner : String} {t t' : Tables}

theorem Change.orderly (hchange : t.Change owner t') (h : t.Orderly) : t'.Orderly := by
  cases hchange with
  | openClass => exact h.setClass .empty owner
  | openLocals =>
      constructor
      · intro table htable
        cases htable
        exact .empty
      · exact h.classes
  | reserveObject => exact h.mapLocals fun _ hfilled => hfilled.reserve
  | setSize => exact ⟨h.locals, h.classes⟩
  | declare name hcategory htype => exact h.declare hcategory htype name

theorem Evolves.orderly (hevolves : t.Evolves owner t') (h : t.Orderly) : t'.Orderly := by
  induction hevolves with
  | refl => exact h
  | tail _ hchange ih => exact hchange.orderly ih

end

end Tables

/-!
# Requests
-/

namespace Compiler

/-- The tables are filled as they should be, and they will be. -/
structure Orderly (c : Compiler) : Prop where
  named : c.scanner.Named
  tables : c.tables.Orderly

theorem Orderly.consistent {c : Compiler} (h : c.Orderly) : c.Consistent := by
  constructor
  · intro table htable
    exact (h.tables.locals table htable).consistent (fun _ _ hallowed => hallowed.2)
      fun _ name _ counts hallowed => Entry.isLocal_of_declaration hallowed name counts
  · intro name table htable
    exact (h.tables.classes name table htable).consistent (fun _ _ hallowed => hallowed.2)
      fun _ name _ counts hallowed => Entry.isOfClass_of_declaration hallowed name counts

theorem orderly_empty : ({} : Compiler).Orderly := by
  refine ⟨⟨?_, ?_⟩, ⟨?_, ?_⟩⟩
  · intro name hcurrent
    cases hcurrent
  · intro name hnext
    cases hnext
  · intro table htable
    cases htable
  · intro name table htable
    cases htable

theorem Orderly.after_load {c : Compiler} (h : c.Orderly) (text : String) :
    (c.after (Compile.load text)).Orderly := by
  rcases c.after_load_cases text with hsame | ⟨s, hnamed, hstarted | hstopped⟩
  · rwa [hsame]
  · rw [hstarted]
    exact ⟨hnamed, ⟨h.tables.locals, h.tables.classes⟩⟩
  · rw [hstopped]
    exact ⟨hnamed, h.tables⟩

theorem Orderly.after_classUnit {c : Compiler} (h : c.Orderly) :
    (c.after Compile.classUnit).Orderly := by
  rcases filed_classUnit h.named with ⟨hnamed, hsame | ⟨owner, s, _, hevolves⟩⟩
  · refine ⟨hnamed, ?_⟩
    rw [hsame]
    exact h.tables
  · exact ⟨hnamed, hevolves.orderly ⟨h.tables.locals, h.tables.classes⟩⟩

theorem Orderly.serve {c : Compiler} (h : c.Orderly) (requests : List Request) :
    (c.serve requests).2.Orderly := by
  induction requests generalizing c with
  | nil => exact h
  | cons request rest ih =>
      cases request with
      | load text => exact ih (h.after_load text)
      | compile => exact ih h.after_classUnit

end Compiler

/-- After any requests to a new compiler, whether they succeed or not, the table of the
subroutine at hand and the tables of all classes are consistent. -/
theorem tables_consistent (requests : List Request) :
    (({} : Compiler).serve requests).2.Consistent :=
  (Compiler.orderly_empty.serve requests).consistent

end Jack
