import Jack.Proofs.Braces
import Jack.Proofs.Completeness
import Jack.Proofs.TreeInjectivity
import Jack.Proofs.Variables

/-!
# Accesses to variables

The code of a subroutine accesses its variables in the order of their occurrences in the
body, each at the location that its declaration gives it.  Only a name that the subroutine
does not declare itself, and that a subroutine of the class up to this one has taken, is
lost: no value is pushed for it, and an assignment to it goes nowhere.
-/

namespace Jack

open Compile

/-!
# Accesses of code
-/

inductive Access where
  | push (place : Place)
  | pop (place : Place)
  deriving DecidableEq, Repr

/-- Places where the code keeps constants and addresses, and no variable. -/
def Place.isScratch (place : Place) : Bool :=
  place.segment ∈ [some .constant, some .pointer, some .temp, some .that]

@[simp] theorem Place.isScratch_constant (n : Nat) : (Place.constant n).isScratch = true := rfl

@[simp] theorem Place.isScratch_pointer (n : Nat) : (Place.pointer n).isScratch = true := rfl

@[simp] theorem Place.isScratch_temp (n : Nat) : (Place.temp n).isScratch = true := rfl

@[simp] theorem Place.isScratch_that (n : Nat) : (Place.that n).isScratch = true := rfl

theorem Place.isScratch_segment (storage : Storage) (index : Int) :
    (⟨some storage.segment, index⟩ : Place).isScratch = false := by
  cases storage <;> rfl

def Instr.access? : Instr -> Option Access
  | .push place _ => if place.isScratch then none else some (.push place)
  | .pop place => if place.isScratch then none else some (.pop place)
  | _ => none

/-- The accesses to variables, in the order of the code. -/
def accesses (code : List Instr) : List Access :=
  code.filterMap Instr.access?

@[simp] theorem accesses_nil : accesses [] = [] := rfl

@[simp] theorem accesses_append (first second : List Instr) :
    accesses (first ++ second) = accesses first ++ accesses second := by
  simp [accesses]

@[simp] theorem accesses_cons (instr : Instr) (rest : List Instr) :
    accesses (instr :: rest) = instr.access?.toList ++ accesses rest := by
  cases h : instr.access? <;> simp [accesses, h]

namespace Syntax

/-!
# Occurrences in trees
-/

/-- A name where its value is used, where it is the array or the object that a statement is
about, or where it is assigned. -/
inductive Occurrence where
  | value (name : String)
  | base (name : String)
  | target (name : String)
  deriving DecidableEq, Repr

mutual

/-- The names in an expression, in the order in which they are evaluated. -/
def Expr.occurrences : Expr -> List Occurrence
  | .mk first rest => first.occurrences ++ rest.occurrences

def Operations.occurrences : Operations -> List Occurrence
  | .nil => []
  | .cons _ operand rest => operand.occurrences ++ rest.occurrences

def Term.occurrences : Term -> List Occurrence
  | .integer _ => []
  | .string _ => []
  | .constant _ => []
  | .paren inner => inner.occurrences
  | .unary _ operand => operand.occurrences
  | .var name => [.value name]
  | .element name index => .value name :: index.occurrences
  | .call name arguments => .value name :: arguments.occurrences
  | .callOn owner _ arguments => .value owner :: arguments.occurrences

def Arguments.occurrences : Arguments -> List Occurrence
  | .nil => []
  | .cons first rest => first.occurrences ++ rest.occurrences

end

mutual

def Statement.occurrences : Statement -> List Occurrence
  | .assign name value => value.occurrences ++ [.target name]
  | .store name index value => index.occurrences ++ .base name :: value.occurrences
  | .call _ arguments => arguments.occurrences
  | .callOn owner _ arguments => .base owner :: arguments.occurrences
  | .leave => []
  | .give value => value.occurrences
  | .ifThen condition body => condition.occurrences ++ body.occurrences
  | .ifElse condition body other =>
      condition.occurrences ++ (body.occurrences ++ other.occurrences)
  | .loop condition body => condition.occurrences ++ body.occurrences

def Block.occurrences : Block -> List Occurrence
  | .nil => []
  | .cons first rest => first.occurrences ++ rest.occurrences

end

end Syntax

open Syntax

/-!
# Accesses in a scope
-/

/-- The access of an occurrence, by the places that names have in a scope. -/
def Scope.accessesOf (σ : Scope) : Occurrence -> List Access
  | .value name => ((σ.valuePlace name).map Access.push).toList
  | .base name => ((σ.targetPlace name).map Access.push).toList
  | .target name => ((σ.targetPlace name).map Access.pop).toList

/-- The entry of a variable or of a subroutine. -/
def Entry.IsOrdinary (e : Entry) : Prop :=
  e.standing ≠ .known .className ∧ e.place.isScratch = false

/-- All names that have an entry are variables and subroutines. -/
def Scope.Ordinary (σ : Scope) : Prop :=
  forall name e, σ.entry name = some (some e) -> e.IsOrdinary

theorem Scope.accesses_nameCode (σ : Scope) (name : String) :
    accesses (σ.nameCode name) = σ.accessesOf (.value name) := by
  simp only [nameCode, accessesOf]
  cases hplace : σ.valuePlace name with
  | none => rfl
  | some place =>
      have hscratch : place.isScratch = false := by
        unfold valuePlace at hplace
        rcases Option.bind_eq_some_iff.mp hplace with ⟨e, _, hsegment⟩
        rcases Option.map_eq_some_iff.mp hsegment with ⟨segment, hsegment, rfl⟩
        cases hstanding : e.standing with
        | unset => simp [hstanding, Standing.segment?] at hsegment
        | unknown => simp [hstanding, Standing.segment?] at hsegment
        | known category =>
            rw [hstanding] at hsegment
            cases category with
            | stored storage =>
                cases hsegment
                exact Place.isScratch_segment storage e.index
            | className => cases hsegment
            | subroutine => cases hsegment
      simp [Instr.access?, hscratch]

section

variable {σ : Scope}

theorem Scope.Ordinary.isScratch_targetPlace (h : σ.Ordinary) {name : String} {place : Place}
    (hplace : σ.targetPlace name = some place) : place.isScratch = false := by
  unfold targetPlace at hplace
  rcases Option.map_eq_some_iff.mp hplace with ⟨e, hentry, rfl⟩
  exact (h name e (Option.join_eq_some_iff.mp hentry)).2

theorem Scope.Ordinary.accesses_base (h : σ.Ordinary) (name : String) (remark : Option String) :
    accesses ((σ.targetPlace name).map fun place => Instr.push place remark).toList =
      σ.accessesOf (.base name) := by
  simp only [accessesOf]
  cases hplace : σ.targetPlace name with
  | none => rfl
  | some place => simp [Instr.access?, h.isScratch_targetPlace hplace]

theorem Scope.Ordinary.accesses_target (h : σ.Ordinary) (name : String) :
    accesses ((σ.targetPlace name).map Instr.pop).toList = σ.accessesOf (.target name) := by
  simp only [accessesOf]
  cases hplace : σ.targetPlace name with
  | none => rfl
  | some place => simp [Instr.access?, h.isScratch_targetPlace hplace]

/-- A call statement on a name is made on what is assigned under the name. -/
theorem Scope.Ordinary.object_receiver (h : σ.Ordinary) (owner : String) :
    (receiver owner (σ.entry owner).join).2 = σ.targetPlace owner := by
  unfold targetPlace
  cases hentry : (σ.entry owner).join with
  | none => rfl
  | some e =>
      have hordinary := h owner e (Option.join_eq_some_iff.mp hentry)
      simp [receiver, hordinary.1]

end

namespace Syntax

theorem accesses_stringCode (text : String) : accesses (stringCode text) = [] := by
  unfold accesses
  rw [List.filterMap_eq_nil_iff]
  intro instr hinstr
  simp only [stringCode, List.mem_cons, List.mem_flatMap, List.not_mem_nil, or_false] at hinstr
  rcases hinstr with rfl | rfl | ⟨_, _, rfl | rfl⟩ <;> rfl

theorem Binary.access?_code (op : Binary) : op.code.access? = none := by
  cases op <;> rfl

theorem Unary.access?_code (op : Unary) : op.code.access? = none := by
  cases op <;> rfl

theorem Constant.accesses_code (value : Constant) : accesses value.code = [] := by
  cases value <;> rfl

theorem accesses_elementCode : accesses elementCode = [] := rfl

mutual

theorem Expr.accesses_code (σ : Scope) :
    forall e : Expr, accesses (e.code σ) = e.occurrences.flatMap σ.accessesOf
  | .mk first rest => by
      rw [Expr.code, accesses_append, Term.accesses_code σ first, Operations.accesses_code σ rest,
        Expr.occurrences, List.flatMap_append]

theorem Operations.accesses_code (σ : Scope) :
    forall rest : Operations, accesses (rest.code σ) = rest.occurrences.flatMap σ.accessesOf
  | .nil => by
      rw [Operations.code, Operations.occurrences]
      rfl
  | .cons op operand rest => by
      rw [Operations.code, accesses_append, accesses_cons, op.access?_code,
        Term.accesses_code σ operand, Operations.accesses_code σ rest, Operations.occurrences,
        List.flatMap_append]
      rfl

theorem Term.accesses_code (σ : Scope) :
    forall t : Term, accesses (t.code σ) = t.occurrences.flatMap σ.accessesOf
  | .integer digits => by
      rw [Term.code, Term.occurrences]
      rfl
  | .string text => by
      rw [Term.code, Term.occurrences, accesses_stringCode]
      rfl
  | .constant value => by
      rw [Term.code, Term.occurrences, value.accesses_code]
      rfl
  | .paren inner => by
      rw [Term.code, Term.occurrences, Expr.accesses_code σ inner]
  | .unary op operand => by
      rw [Term.code, Term.occurrences, accesses_append, accesses_cons, op.access?_code,
        Term.accesses_code σ operand]
      exact List.append_nil _
  | .var name => by
      rw [Term.code, Term.occurrences, σ.accesses_nameCode, List.flatMap_singleton]
  | .element name index => by
      rw [Term.code, Term.occurrences, accesses_append, accesses_append, σ.accesses_nameCode,
        Expr.accesses_code σ index, accesses_elementCode, List.append_nil, List.flatMap_cons]
  | .call name arguments => by
      rw [Term.code, Term.occurrences, accesses_append, accesses_append, σ.accesses_nameCode,
        Arguments.accesses_code σ arguments, List.flatMap_cons]
      exact congrArg _ (List.append_nil _)
  | .callOn owner name arguments => by
      rw [Term.code, Term.occurrences, accesses_append, accesses_append, σ.accesses_nameCode,
        Arguments.accesses_code σ arguments, List.flatMap_cons]
      exact congrArg _ (List.append_nil _)

theorem Arguments.accesses_code (σ : Scope) :
    forall arguments : Arguments,
      accesses (arguments.code σ) = arguments.occurrences.flatMap σ.accessesOf
  | .nil => by
      rw [Arguments.code, Arguments.occurrences]
      rfl
  | .cons first rest => by
      rw [Arguments.code, accesses_append, Expr.accesses_code σ first,
        Arguments.accesses_code σ rest, Arguments.occurrences, List.flatMap_append]

end

theorem accesses_callCode (σ : Scope) (subroutine : String) (object : Option Place)
    (arguments : Arguments) :
    accesses (callCode σ subroutine object arguments) =
      accesses (receiverCode object) ++ arguments.occurrences.flatMap σ.accessesOf := by
  rw [callCode, accesses_append, accesses_append, arguments.accesses_code σ]
  exact congrArg _ (List.append_nil _)

/-!
The code of a statement accesses the names of the statement.  Labels and jumps between the
parts access nothing.
-/

mutual

theorem Statement.accesses_code {σ : Scope} (h : σ.Ordinary) :
    forall (s : Statement) (label : Nat),
      accesses (s.code σ label) = s.occurrences.flatMap σ.accessesOf
  | .assign name value, label => by
      rw [Statement.code, Statement.occurrences, accesses_append, value.accesses_code σ,
        h.accesses_target, List.flatMap_append, List.flatMap_singleton]
  | .store name index value, label => by
      simp [Statement.code, Statement.occurrences, index.accesses_code σ, value.accesses_code σ,
        h.accesses_base, storeCode, Instr.access?]
  | .call name arguments, label => by
      rw [Statement.code, Statement.occurrences, accesses_callCode]
      rfl
  | .callOn owner name arguments, label => by
      rw [Statement.code, Statement.occurrences, accesses_callCode, h.object_receiver,
        receiverCode, h.accesses_base, List.flatMap_cons]
  | .leave, label => by
      rw [Statement.code, Statement.occurrences]
      rfl
  | .give value, label => by
      simp [Statement.code, Statement.occurrences, value.accesses_code σ, Instr.access?]
  | .ifThen condition body, label => by
      simp [Statement.code, Statement.occurrences, condition.accesses_code σ,
        Block.accesses_code h body, Instr.access?]
  | .ifElse condition body other, label => by
      simp [Statement.code, Statement.occurrences, condition.accesses_code σ,
        Block.accesses_code h body, Block.accesses_code h other, Instr.access?]
  | .loop condition body, label => by
      simp [Statement.code, Statement.occurrences, condition.accesses_code σ,
        Block.accesses_code h body, Instr.access?]

theorem Block.accesses_code {σ : Scope} (h : σ.Ordinary) :
    forall (block : Block) (label : Nat),
      accesses (block.code σ label) = block.occurrences.flatMap σ.accessesOf
  | .nil, label => by
      rw [Block.code, Block.occurrences]
      rfl
  | .cons first rest, label => by
      rw [Block.code, accesses_append, Statement.accesses_code h first,
        Block.accesses_code h rest, Block.occurrences, List.flatMap_append]

end

end Syntax

/-!
# Ordinary tables
-/

def Table.Ordinary (table : Table Entry) : Prop :=
  forall name e, table.get? name = some e -> e.IsOrdinary

theorem Table.Ordinary.insertAll {table : Table Entry} (h : table.Ordinary)
    {entries : List Entry}
    (hentries : forall e, e ∈ entries -> forall counts : Counts, (counts.number e).1.IsOrdinary) :
    (table.insertAll entries).Ordinary := by
  intro name e hget
  by_cases hmem : name ∈ entries.map Entry.name
  · rcases table.exists_get?_insertAll hmem with ⟨found, counts, hfound, _, hfiled⟩
    rw [hfiled] at hget
    cases hget
    exact hentries found hfound counts
  · rw [table.get?_insertAll_of_not_mem hmem] at hget
    exact h name e hget

namespace Syntax

theorem Declaration.ordinary_insertAll {table : Table Entry} (h : table.Ordinary)
    (declarations : List Declaration) :
    (table.insertAll (declarations.map Declaration.entry)).Ordinary := by
  apply h.insertAll
  intro e he counts
  rcases List.mem_map.mp he with ⟨d, _, rfl⟩
  exact ⟨by simp [Declaration.entry, entryOf, Counts.number],
    Place.isScratch_segment d.storage (counts.get d.storage)⟩

theorem Subroutine.ordinary_locals (s : Subroutine) : s.locals.Ordinary := by
  rw [s.locals_eq]
  apply Declaration.ordinary_insertAll
  intro name e hget
  rw [s.get?_blankTable] at hget
  cases hget

theorem Class.ordinary_table (unit : Class) (begun : List Subroutine) :
    (unit.table begun).Ordinary := by
  unfold Class.table
  rw [unit.varTable_eq]
  apply Table.Ordinary.insertAll
  · apply Declaration.ordinary_insertAll
    intro name e hget
    cases hget
  · intro e he counts
    rcases List.mem_map.mp he with ⟨s, _, rfl⟩
    exact ⟨by simp [Subroutine.entry, entryOf, Counts.number], rfl⟩

theorem Class.ordinary_of_placed {unit : Class} {σ : Scope} {label : Nat}
    {before after : List Placed} {p : Placed}
    (h : unit.placed σ label = before ++ p :: after) : p.scope.Ordinary := by
  intro name e hentry
  rw [Class.entry_of_placed h, Option.some.injEq, Option.or_eq_some_iff] at hentry
  rcases hentry with hlocal | ⟨_, hclass⟩
  · exact p.subroutine.ordinary_locals _ e hlocal
  · exact unit.ordinary_table _ _ e hclass

end Syntax

/-!
# Locations of names
-/

/-- The place of a name that is filed for a subroutine. -/
def Place.nowhere : Place := ⟨none, -1⟩

theorem Scope.places_of_isAt {σ : Scope} {name : String} {e : Entry} {location : Location}
    (hentry : σ.entry name = some (some e)) (h : e.IsAt location) :
    σ.valuePlace name = some location.place ∧ σ.targetPlace name = some location.place := by
  have hplace := h.2
  unfold Entry.place Location.place at hplace
  injection hplace with _ hindex
  constructor
  · simp [Scope.valuePlace, hentry, h.1, Standing.segment?, Category.segment?, Location.place,
      hindex]
  · simp [Scope.targetPlace, hentry, h.2]

theorem Scope.places_of_subroutine {σ : Scope} {name : String} {s : Subroutine}
    (hentry : σ.entry name = some (some s.entry)) :
    σ.valuePlace name = none ∧ σ.targetPlace name = some Place.nowhere := by
  constructor
  · simp [Scope.valuePlace, hentry, Subroutine.entry, entryOf, Standing.segment?,
      Category.segment?]
  · simp [Scope.targetPlace, hentry]
    rfl

theorem Scope.places_of_none {σ : Scope} {name : String} (hentry : σ.entry name = some none) :
    σ.valuePlace name = none ∧ σ.targetPlace name = none := by
  constructor
  · simp [Scope.valuePlace, hentry]
  · simp [Scope.targetPlace, hentry]

namespace Syntax

/-- No name is declared twice for a value of the class, nor for one of a subroutine. -/
def Class.DistinctNames (unit : Class) : Prop :=
  (unit.vars.flatMap fun v => v.names.all).Nodup ∧
    forall s, s ∈ unit.subroutines -> (s.parameterNames ++ s.varNames).Nodup

instance (unit : Class) : Decidable unit.DistinctNames :=
  inferInstanceAs (Decidable (_ ∧ forall s, s ∈ unit.subroutines -> _))

/-- Where a name is declared that occurs in a subroutine. -/
def Class.locate (unit : Class) (s : Subroutine) (name : String) : Option Location :=
  (s.location name).or (unit.location name)

/-- The name belongs to a subroutine that has begun, and this one does not declare it. -/
def Subroutine.Loses (s : Subroutine) (begun : List Subroutine) (name : String) : Prop :=
  s.location name = none ∧ name ∈ begun.map Subroutine.name

instance (s : Subroutine) (begun : List Subroutine) (name : String) :
    Decidable (s.Loses begun name) :=
  inferInstanceAs (Decidable (_ ∧ _))

/-- The access of an occurrence, by the declarations of the class and the subroutine. -/
def Class.accessesOf (unit : Class) (s : Subroutine) (begun : List Subroutine) :
    Occurrence -> List Access
  | .value name =>
      if s.Loses begun name then []
      else ((unit.locate s name).map fun location => Access.push location.place).toList
  | .base name =>
      if s.Loses begun name then [.push .nowhere]
      else ((unit.locate s name).map fun location => Access.push location.place).toList
  | .target name =>
      if s.Loses begun name then [.pop .nowhere]
      else ((unit.locate s name).map fun location => Access.pop location.place).toList

section

variable {unit : Class} {σ : Scope} {label : Nat} {before after : List Placed} {p : Placed}

theorem Class.places_of_placed (hdistinct : unit.DistinctNames)
    (h : unit.placed σ label = before ++ p :: after) {begun : List Subroutine}
    (hbegun : begun = before.map Placed.subroutine ++ [p.subroutine]) (name : String) :
    p.scope.valuePlace name =
        (if p.subroutine.Loses begun name then none
          else (unit.locate p.subroutine name).map Location.place) ∧
      p.scope.targetPlace name =
        (if p.subroutine.Loses begun name then some .nowhere
          else (unit.locate p.subroutine name).map Location.place) := by
  have hentry := Class.entry_of_placed h name
  rw [← hbegun] at hentry
  by_cases hloses : p.subroutine.Loses begun name
  · rw [if_pos hloses, if_pos hloses]
    have hnot := (p.subroutine.location_eq_none_iff name).mp hloses.1
    rcases unit.exists_get?_table hloses.2 with ⟨s, hget⟩
    rw [Subroutine.get?_locals_of_not_mem hnot, Option.none_or, hget] at hentry
    exact Scope.places_of_subroutine hentry
  · rw [if_neg hloses, if_neg hloses, Class.locate]
    cases hlocal : p.subroutine.location name with
    | some location =>
        have hnodup := hdistinct.2 _ (Class.mem_of_placed h)
        rcases Subroutine.exists_isAt_locals hnodup hlocal with ⟨e, hget, hat⟩
        rw [hget, Option.some_or] at hentry
        exact Scope.places_of_isAt hentry hat
    | none =>
        have hnot := (p.subroutine.location_eq_none_iff name).mp hlocal
        have hfree : name ∉ begun.map Subroutine.name := fun hmem => hloses ⟨hlocal, hmem⟩
        rw [Subroutine.get?_locals_of_not_mem hnot, Option.none_or,
          unit.get?_table_of_not_mem hfree] at hentry
        rw [Option.none_or]
        cases hclass : unit.location name with
        | some location =>
            rcases Class.exists_isAt_varTable hdistinct.1 hclass with ⟨e, hget, hat⟩
            rw [hget] at hentry
            exact Scope.places_of_isAt hentry hat
        | none =>
            rw [Class.get?_varTable_of_location_none hclass] at hentry
            exact Scope.places_of_none hentry

theorem Class.accessesOf_placed (hdistinct : unit.DistinctNames)
    (h : unit.placed σ label = before ++ p :: after) (occurrence : Occurrence) :
    p.scope.accessesOf occurrence =
      unit.accessesOf p.subroutine (before.map Placed.subroutine ++ [p.subroutine])
        occurrence := by
  have hplaces := Class.places_of_placed hdistinct h rfl
  cases occurrence with
  | value name =>
      simp only [Scope.accessesOf, Class.accessesOf, (hplaces name).1]
      split <;> simp [Function.comp_def]
  | base name =>
      simp only [Scope.accessesOf, Class.accessesOf, (hplaces name).2]
      split <;> simp [Function.comp_def]
  | target name =>
      simp only [Scope.accessesOf, Class.accessesOf, (hplaces name).2]
      split <;> simp [Function.comp_def]

end

end Syntax

/-- An accepted source holds a class, whose code is that of its subroutines.  If its names
are distinct, the body of every subroutine accesses its variables in the order of their
occurrences: each at the location where it is declared, unless the name belongs to the class
and a subroutine up to this one has taken it. -/
theorem variables_accessed_where_declared {c : Compiler} {text : String}
    (h : (c.compile text).fault = none) :
    exists unit : Syntax.Class, unit.WrittenIn (tokenize text).1 ∧
      (c.compile text).written =
        some ((unit.placed c.scope c.labels).flatMap (Placed.code unit.size),
          Tree.linesFrom 0 unit.marks) ∧
      (unit.DistinctNames ->
        forall before p after, unit.placed c.scope c.labels = before ++ p :: after ->
          accesses (p.subroutine.body.block.code p.scope p.label) =
            p.subroutine.body.block.occurrences.flatMap
              (unit.accessesOf p.subroutine
                (before.map Placed.subroutine ++ [p.subroutine]))) := by
  rcases Compiler.exists_written_of_compile h with ⟨unit, htokens, hwritten⟩
  refine ⟨unit, htokens, hwritten, ?_⟩
  intro hdistinct before p after hplaced
  rw [Block.accesses_code (Class.ordinary_of_placed hplaced)]
  congr 1
  funext occurrence
  exact Class.accessesOf_placed hdistinct hplaced occurrence

theorem variables_accessed_of_counter :
    (({} : Compiler).compile Syntax.Class.counter.text).fault = none ∧
      Syntax.Class.counter.DistinctNames ∧
      forall before p after,
        Syntax.Class.counter.placed ({} : Compiler).scope ({} : Compiler).labels =
            before ++ p :: after ->
          accesses (p.subroutine.body.block.code p.scope p.label) =
            p.subroutine.body.block.occurrences.flatMap
              (Syntax.Class.counter.accessesOf p.subroutine
                (before.map Placed.subroutine ++ [p.subroutine])) := by
  have htokens := Token.tokenize_print Syntax.Class.isLexeme_counter
  rcases Compiler.compile_of_resolved htokens Syntax.Class.clear_counter.resolved with
    ⟨hfault, hcounter⟩
  rcases variables_accessed_where_declared hfault with ⟨unit, _, hunit, haccesses⟩
  -- the class that was found has the tree that was written
  have hwritten := Option.some.inj (hunit.symm.trans hcounter)
  have hclass := Class.eq_of_lines (congrArg Prod.snd hwritten)
  subst hclass
  have hdistinct : Syntax.Class.counter.DistinctNames := by decide
  exact ⟨hfault, hdistinct, haccesses hdistinct⟩

/-- A class with a method that has the name of a field. -/
def Syntax.Class.masked : Syntax.Class where
  name := "A"
  vars := [⟨false, ⟨.int, "x", []⟩⟩]
  subroutines := [⟨.method, some .int, "x", [], ⟨[], .cons (.give (.mk (.var "x") .nil)) .nil⟩⟩]

def maskedText : String :=
  "class A \x7b field int x; method int x() \x7b return x; \x7d \x7d"

/-- The method returns the field, but no code pushes it. -/
theorem field_lost_to_method :
    (tokenize maskedText).1 = Syntax.Class.masked.tokens ∧
      Syntax.Class.masked.DistinctNames ∧
      (forall s, s ∈ Syntax.Class.masked.subroutines ->
        s.body.block.occurrences = [.value "x"] ∧
          Syntax.Class.masked.locate s "x" = some ⟨.field, 0⟩) ∧
      (({} : Compiler).compile maskedText).fault = none ∧
      (({} : Compiler).compile maskedText).written.map Prod.fst =
        some [.function "A.x" 0, .push (.argument 0) none, .pop (.pointer 0), .ret] := by
  decide +kernel

end Jack
