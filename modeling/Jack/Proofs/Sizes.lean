import Jack.Proofs.Bounds

/-!
# Sizes of objects

The declarations of a class are counted twice.  The table of the class has one count for its
fields and one for its static names.  The size of its objects is one sum over both, and this sum
is what a constructor gets memory for.  So an object has one word too many for each static name
of its class.
-/

namespace Jack

namespace Syntax

/-!
# Tables after a class
-/

theorem get?_classes_foldl_enter {t : Tables} {className : String} {table : Table Entry}
    (hname : t.scope.className = some className)
    (htable : t.scope.classes.get? className = some table) (subroutines : List Subroutine) :
    (subroutines.foldl Tables.enter t).scope.classes.get? className =
      some (table.insertAll (subroutines.map Subroutine.entry)) := by
  induction subroutines generalizing t table with
  | nil => exact htable
  | cons s rest ih =>
      have hentered := Scope.get?_classes_enter hname htable s
      exact ih (t := t.enter s) hname hentered

/-- After a class, its table has the variables of the class and all of its subroutines. -/
theorem Class.get?_classes_tables (unit : Class) (t : Tables) :
    (unit.tables t).scope.classes.get? unit.name = some (unit.table unit.subroutines) :=
  get?_classes_foldl_enter rfl (Bindings.get?_set_self _ _ _) unit.subroutines

end Syntax

open Syntax

theorem Compiler.exists_table_of_compile {c : Compiler} {text : String}
    (h : (c.compile text).fault = none) :
    exists unit : Syntax.Class, unit.WrittenIn (tokenize text).1 ∧
      (c.compile text).written =
        some ((unit.placed c.scope c.labels).flatMap (Placed.block unit.name unit.size),
          Tree.linesFrom 0 unit.marks) ∧
      (c.compile text).compiler.classes.get? unit.name =
        some (unit.table unit.subroutines) := by
  rcases exists_tables_of_compile h with ⟨unit, s, htokens, _, hwritten, htables⟩
  rw [Class.code_eq_blocks htokens] at hwritten
  refine ⟨unit, htokens, hwritten, ?_⟩
  rw [← unit.get?_classes_tables (c.started s).tables, ← htables]
  rfl

/-- After an accepted class, the counts of its table are the numbers of its fields and of its
static names.  A constructor gets memory for as many words as there are fields and static names
together, unless a parameter or a variable has the name of the constructor.  So it gets one word
for each field if and only if the class has no static names. -/
theorem constructors_allocate_fields_and_statics {c : Compiler} {text : String}
    (h : (c.compile text).fault = none) :
    exists (unit : Syntax.Class) (table : Table Entry), unit.WrittenIn (tokenize text).1 ∧
      (unit.placed c.scope c.labels).map Placed.subroutine = unit.subroutines ∧
      (c.compile text).written =
        some ((unit.placed c.scope c.labels).flatMap (Placed.block unit.name unit.size),
          Tree.linesFrom 0 unit.marks) ∧
      (c.compile text).compiler.classes.get? unit.name = some table ∧
      table.counts.get .field = unit.fieldNames.length ∧
      table.counts.get .static = unit.staticNames.length ∧
      forall p, p ∈ unit.placed c.scope c.labels -> p.subroutine.kind = .constructor ->
        p.subroutine.name ∉ p.subroutine.parameterNames ++ p.subroutine.varNames ->
        exists words : Nat,
          [.pushConstant words, .call "Memory.alloc" 1, .pop (.pointer 0)] <+:
              (p.block unit.name unit.size).tail ∧
            words = unit.fieldNames.length + unit.staticNames.length ∧
            (words = table.counts.get .field ↔ unit.staticNames = []) := by
  rcases Compiler.exists_table_of_compile h with ⟨unit, htokens, hwritten, htable⟩
  have hfields := unit.get_counts_table unit.subroutines .field
  have hstatics := unit.get_counts_table unit.subroutines .static
  refine ⟨unit, _, htokens, map_subroutine_placeAll _ _ _, hwritten, htable, hfields, hstatics, ?_⟩
  intro p _ hkind hname
  refine ⟨unit.size, Placed.alloc_prefix_of_constructor hkind hname _ _, unit.size_eq, ?_⟩
  rw [hfields, Class.room, unit.size_eq, Nat.add_eq_left, List.length_eq_zero_iff]

/-- With two fields and a static name, the constructor gets memory for three words. -/
theorem account_allocates_three_words :
    (({} : Compiler).compile Syntax.Class.account.text).fault = none ∧
      Syntax.Class.account.fieldNames = ["balance", "limit"] ∧
      Syntax.Class.account.staticNames = ["opened"] ∧
      (exists table : Table Entry,
        (({} : Compiler).compile Syntax.Class.account.text).compiler.classes.get? "Account" =
            some table ∧
          table.counts.get .field = 2 ∧ table.counts.get .static = 1) ∧
      exists p, p ∈ Syntax.Class.account.placed ({} : Compiler).scope ({} : Compiler).labels ∧
        p.subroutine.kind = .constructor ∧
        [.pushConstant 3, .call "Memory.alloc" 1, .pop (.pointer 0)] <+:
          (p.block "Account" 3).tail := by
  have htokens := Token.tokenize_print Syntax.Class.isLexeme_account
  rcases Compiler.compile_of_resolved htokens Syntax.Class.clear_account.resolved with
    ⟨hfault, haccount⟩
  rcases constructors_allocate_fields_and_statics hfault with
    ⟨unit, table, _, hplaced, hunit, htable, hfields, hstatics, hwords⟩
  cases Class.eq_of_written hunit haccount
  have hmem : Syntax.Class.account.subroutines.head (by decide) ∈
      (Syntax.Class.account.placed ({} : Compiler).scope ({} : Compiler).labels).map
        Placed.subroutine := by
    rw [hplaced]
    exact List.head_mem _
  rcases List.mem_map.mp hmem with ⟨p, hp, hconstructor⟩
  have hkind : p.subroutine.kind = .constructor := by rw [hconstructor]; rfl
  have hname : p.subroutine.name ∉ p.subroutine.parameterNames ++ p.subroutine.varNames := by
    rw [hconstructor]
    decide
  rcases hwords p hp hkind hname with ⟨words, hprefix, hsum, _⟩
  subst hsum
  exact ⟨hfault, by decide, by decide, ⟨table, htable, hfields, hstatics⟩, p, hp, hkind, hprefix⟩

/-- A class with a static name and no fields. -/
def Syntax.Class.fieldless : Syntax.Class where
  name := "A"
  vars := [⟨true, ⟨.int, "s", []⟩⟩]
  subroutines :=
    [⟨.constructor, some (.named "A"), "new", [],
      ⟨[], .cons (.give (.mk (.constant .this) .nil)) .nil⟩⟩]

def fieldlessText : String :=
  "class A \x7b static int s; constructor A new() \x7b return this; \x7d \x7d"

/-- The constructor gets a word for an object that has no fields. -/
theorem fieldless_object_gets_word :
    (tokenize fieldlessText).1 = Syntax.Class.fieldless.tokens ∧
      Syntax.Class.fieldless.fieldNames = [] ∧
      (({} : Compiler).compile fieldlessText).fault = none ∧
      ((({} : Compiler).compile fieldlessText).compiler.classes.get? "A").map
          (fun table => table.counts.get .field) = some 0 ∧
      (({} : Compiler).compile fieldlessText).written.map Prod.fst =
        some [.function "A.new" 0, .pushConstant 1, .call "Memory.alloc" 1, .pop (.pointer 0),
          .push (.pointer 0) none, .ret] := by
  decide +kernel

end Jack
