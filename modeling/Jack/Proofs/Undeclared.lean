import Jack.Proofs.Locations

/-!
# Names without a declaration

Only the names that are assigned to have to be found.  A variable in an expression may have
any name: without a declaration no code is written for it, and the operand is missing.  So
a class that is accepted stays accepted when other names stand for its variables.
-/

namespace Jack

open Compile

namespace Syntax

/-!
# Outlines

The outline of a tree has one name for all variables in its expressions, alone or with an
index.  Trees with the same outline differ in nothing but the names of variables.
-/

mutual

def Expr.outline : Expr -> Expr
  | .mk first rest => .mk first.outline rest.outline

def Operations.outline : Operations -> Operations
  | .nil => .nil
  | .cons op operand rest => .cons op operand.outline rest.outline

def Term.outline : Term -> Term
  | .integer digits => .integer digits
  | .string text => .string text
  | .constant value => .constant value
  | .paren inner => .paren inner.outline
  | .unary op operand => .unary op operand.outline
  | .var _ => .var ""
  | .element _ index => .element "" index.outline
  | .call name arguments => .call name arguments.outline
  | .callOn owner name arguments => .callOn owner name arguments.outline

def Arguments.outline : Arguments -> Arguments
  | .nil => .nil
  | .cons first rest => .cons first.outline rest.outline

end

mutual

def Statement.outline : Statement -> Statement
  | .assign name value => .assign name value.outline
  | .store name index value => .store name index.outline value.outline
  | .call name arguments => .call name arguments.outline
  | .callOn owner name arguments => .callOn owner name arguments.outline
  | .leave => .leave
  | .give value => .give value.outline
  | .ifThen condition body => .ifThen condition.outline body.outline
  | .ifElse condition body other => .ifElse condition.outline body.outline other.outline
  | .loop condition body => .loop condition.outline body.outline

def Block.outline : Block -> Block
  | .nil => .nil
  | .cons first rest => .cons first.outline rest.outline

end

def Subroutine.outline (s : Subroutine) : Subroutine :=
  { s with body := { s.body with block := s.body.block.outline } }

def Class.outline (unit : Class) : Class :=
  { unit with subroutines := unit.subroutines.map Subroutine.outline }

def Placed.outline (p : Placed) : Placed :=
  { p with subroutine := p.subroutine.outline }

/-!
Where every look-up gives an answer, the names of variables do not matter.
-/

mutual

theorem Expr.resolved_outline {σ : Scope} (hentry : forall name, (σ.entry name).isSome = true) :
    forall e : Expr, e.outline.Resolved σ ↔ e.Resolved σ
  | .mk first rest =>
      and_congr (Term.resolved_outline hentry first) (Operations.resolved_outline hentry rest)

theorem Operations.resolved_outline {σ : Scope}
    (hentry : forall name, (σ.entry name).isSome = true) :
    forall rest : Operations, rest.outline.Resolved σ ↔ rest.Resolved σ
  | .nil => Iff.rfl
  | .cons _ operand rest =>
      and_congr (Term.resolved_outline hentry operand) (Operations.resolved_outline hentry rest)

theorem Term.resolved_outline {σ : Scope} (hentry : forall name, (σ.entry name).isSome = true) :
    forall t : Term, t.outline.Resolved σ ↔ t.Resolved σ
  | .integer _ => Iff.rfl
  | .string _ => Iff.rfl
  | .constant _ => Iff.rfl
  | .paren inner => Expr.resolved_outline hentry inner
  | .unary _ operand => Term.resolved_outline hentry operand
  | .var name => iff_of_true (hentry "") (hentry name)
  | .element name index =>
      and_congr (iff_of_true (hentry "") (hentry name)) (Expr.resolved_outline hentry index)
  | .call _ arguments => and_congr_right' (Arguments.resolved_outline hentry arguments)
  | .callOn _ _ arguments =>
      and_congr_right' (and_congr_right' (Arguments.resolved_outline hentry arguments))

theorem Arguments.resolved_outline {σ : Scope}
    (hentry : forall name, (σ.entry name).isSome = true) :
    forall arguments : Arguments, arguments.outline.Resolved σ ↔ arguments.Resolved σ
  | .nil => Iff.rfl
  | .cons first rest =>
      and_congr (Expr.resolved_outline hentry first) (Arguments.resolved_outline hentry rest)

end

mutual

theorem Statement.resolved_outline {σ : Scope}
    (hentry : forall name, (σ.entry name).isSome = true) :
    forall s : Statement, s.outline.Resolved σ ↔ s.Resolved σ
  | .assign _ value => and_congr_right' (value.resolved_outline hentry)
  | .store _ index value =>
      and_congr_right' (and_congr (index.resolved_outline hentry) (value.resolved_outline hentry))
  | .call _ arguments => arguments.resolved_outline hentry
  | .callOn _ _ arguments => and_congr_right' (arguments.resolved_outline hentry)
  | .leave => Iff.rfl
  | .give value => value.resolved_outline hentry
  | .ifThen condition body =>
      and_congr (condition.resolved_outline hentry) (Block.resolved_outline hentry body)
  | .ifElse condition body other =>
      and_congr (condition.resolved_outline hentry)
        (and_congr (Block.resolved_outline hentry body) (Block.resolved_outline hentry other))
  | .loop condition body =>
      and_congr (condition.resolved_outline hentry) (Block.resolved_outline hentry body)

theorem Block.resolved_outline {σ : Scope} (hentry : forall name, (σ.entry name).isSome = true) :
    forall block : Block, block.outline.Resolved σ ↔ block.Resolved σ
  | .nil => Iff.rfl
  | .cons first rest =>
      and_congr (Statement.resolved_outline hentry first) (Block.resolved_outline hentry rest)

end

mutual

theorem Statement.labels_outline : forall s : Statement, s.outline.labels = s.labels
  | .assign _ _ => rfl
  | .store _ _ _ => rfl
  | .call _ _ => rfl
  | .callOn _ _ _ => rfl
  | .leave => rfl
  | .give _ => rfl
  | .ifThen _ body => congrArg (3 + ·) (Block.labels_outline body)
  | .ifElse _ body other =>
      congrArg (3 + ·) (congrArg₂ (· + ·) (Block.labels_outline body) (Block.labels_outline other))
  | .loop _ body => congrArg (2 + ·) (Block.labels_outline body)

theorem Block.labels_outline : forall block : Block, block.outline.labels = block.labels
  | .nil => rfl
  | .cons first rest =>
      congrArg₂ (· + ·) (Statement.labels_outline first) (Block.labels_outline rest)

end

theorem placeAll_outline (σ : Scope) (label : Nat) (subroutines : List Subroutine) :
    placeAll σ label (subroutines.map Subroutine.outline) =
      (placeAll σ label subroutines).map Placed.outline := by
  induction subroutines generalizing σ label with
  | nil => rfl
  | cons s rest ih =>
      have hlabels : s.outline.body.block.labels = s.body.block.labels :=
        s.body.block.labels_outline
      rw [List.map_cons, placeAll, placeAll, List.map_cons, hlabels]
      exact congrArg₂ List.cons rfl (ih (σ.enter s) _)

theorem Class.resolved_outline (unit : Class) (σ : Scope) (label : Nat) :
    unit.outline.Resolved σ label ↔ unit.Resolved σ label := by
  have hplaced : unit.outline.placed σ label = (unit.placed σ label).map Placed.outline :=
    placeAll_outline (unit.scope σ) label unit.subroutines
  unfold Class.Resolved
  rw [hplaced, List.forall_mem_map]
  refine forall₂_congr fun p hp => ?_
  rcases hasTables_of_mem_placeAll (unit.hasClass_scope σ) hp with ⟨hlocals, hclass⟩
  exact Block.resolved_outline (Scope.isSome_entry hlocals hclass) p.subroutine.body.block

/-!
# Names that have to be found
-/

mutual

theorem Statement.isSome_targetPlace {σ : Scope} : forall s : Statement, s.Resolved σ ->
    forall name, name ∈ s.targets -> (σ.targetPlace name).isSome = true
  | .assign name _, h, found, hfound => by
      rw [Statement.targets, List.mem_singleton] at hfound
      exact hfound ▸ h.1
  | .store name _ _, h, found, hfound => by
      rw [Statement.targets, List.mem_singleton] at hfound
      exact hfound ▸ h.1
  | .ifThen _ body, h, found, hfound => Block.isSome_targetPlace body h.2 found hfound
  | .ifElse _ body other, h, found, hfound => by
      rw [Statement.targets, List.mem_append] at hfound
      rcases hfound with hbody | hother
      · exact Block.isSome_targetPlace body h.2.1 found hbody
      · exact Block.isSome_targetPlace other h.2.2 found hother
  | .loop _ body, h, found, hfound => Block.isSome_targetPlace body h.2 found hfound

theorem Block.isSome_targetPlace {σ : Scope} : forall block : Block, block.Resolved σ ->
    forall name, name ∈ block.targets -> (σ.targetPlace name).isSome = true
  | .cons first rest, h, found, hfound => by
      rw [Block.targets, List.mem_append] at hfound
      rcases hfound with hfirst | hrest
      · exact Statement.isSome_targetPlace first h.1 found hfirst
      · exact Block.isSome_targetPlace rest h.2 found hrest

end

theorem Declaration.exists_stored_insertAll {declarations : List Declaration} {name : String}
    (h : name ∈ declarations.map Declaration.name) (table : Table Entry) :
    exists e storage,
      (table.insertAll (declarations.map Declaration.entry)).get? (some name) = some e ∧
        e.standing = .known (.stored storage) := by
  have hmem : some name ∈ (declarations.map Declaration.entry).map Entry.name := by
    rw [map_name_entry]
    exact List.mem_map_of_mem h
  rcases table.exists_get?_insertAll hmem with ⟨e, counts, he, _, hget⟩
  rcases List.mem_map.mp he with ⟨d, _, rfl⟩
  exact ⟨_, d.storage, hget, rfl⟩

theorem Subroutine.exists_stored_locals {s : Subroutine} {name : String}
    (h : s.location name ≠ none) :
    exists e storage,
      s.locals.get? (some name) = some e ∧ e.standing = .known (.stored storage) := by
  rw [s.locals_eq]
  apply Declaration.exists_stored_insertAll
  rw [s.map_name_declarations]
  exact Decidable.not_not.mp (mt (s.location_eq_none_iff name).mpr h)

theorem Class.exists_stored_varTable {unit : Class} {name : String}
    (h : unit.location name ≠ none) :
    exists e storage,
      unit.varTable.get? (some name) = some e ∧ e.standing = .known (.stored storage) := by
  rw [unit.varTable_eq]
  apply Declaration.exists_stored_insertAll
  rw [unit.map_name_declarations, unit.mem_names_iff]
  by_contra hnot
  exact h (by simpa [Class.location] using hnot)

section

variable {unit : Class} {σ : Scope} {label : Nat} {before after : List Placed} {p : Placed}

theorem Class.Resolved.of_placed (hresolved : unit.Resolved σ label)
    (h : unit.placed σ label = before ++ p :: after) :
    p.subroutine.body.block.Resolved p.scope := by
  apply hresolved
  rw [h]
  exact List.mem_append_right _ List.mem_cons_self

/-- What the body of a subroutine finds under a name: a variable if the name is declared,
unless a subroutine has taken it, and otherwise such a subroutine or nothing. -/
theorem Class.entry_cases (h : unit.placed σ label = before ++ p :: after) {begun : List Subroutine}
    (hbegun : begun = before.map Placed.subroutine ++ [p.subroutine]) (name : String) :
    (exists e storage, p.scope.entry name = some (some e) ∧
        e.standing = .known (.stored storage) ∧ unit.locate p.subroutine name ≠ none ∧
        ¬ p.subroutine.Loses begun name) ∨
      (exists s : Subroutine, p.scope.entry name = some (some s.entry) ∧
        p.subroutine.Loses begun name) ∨
      (p.scope.entry name = some none ∧ unit.locate p.subroutine name = none ∧
        name ∉ begun.map Subroutine.name) := by
  have hentry := Class.entry_of_placed h name
  rw [← hbegun] at hentry
  -- names of the subroutine go first, then the subroutines that have begun
  by_cases hlocal : p.subroutine.location name = none
  · rw [Subroutine.get?_locals_of_not_mem ((p.subroutine.location_eq_none_iff name).mp hlocal),
      Option.none_or] at hentry
    by_cases htaken : name ∈ begun.map Subroutine.name
    · rcases unit.exists_get?_table htaken with ⟨s, hget⟩
      exact Or.inr (Or.inl ⟨s, hentry.trans (congrArg some hget), hlocal, htaken⟩)
    · rw [unit.get?_table_of_not_mem htaken] at hentry
      by_cases hclass : unit.location name = none
      · rw [Class.get?_varTable_of_location_none hclass] at hentry
        refine Or.inr (Or.inr ⟨hentry, ?_, htaken⟩)
        rw [Class.locate, hlocal, hclass]
        rfl
      · rcases Class.exists_stored_varTable hclass with ⟨e, storage, hget, hstanding⟩
        rw [hget] at hentry
        refine Or.inl ⟨e, storage, hentry, hstanding, ?_, fun hloses => htaken hloses.2⟩
        rw [Class.locate, hlocal, Option.none_or]
        exact hclass
  · rcases Subroutine.exists_stored_locals hlocal with ⟨e, storage, hget, hstanding⟩
    rw [hget, Option.some_or] at hentry
    refine Or.inl ⟨e, storage, hentry, hstanding, ?_, fun hloses => hlocal hloses.1⟩
    rw [Class.locate, Ne, Option.or_eq_none_iff]
    exact fun hnone => hlocal hnone.1

theorem Class.isStored_of_placed (h : unit.placed σ label = before ++ p :: after)
    {begun : List Subroutine} (hbegun : begun = before.map Placed.subroutine ++ [p.subroutine])
    (name : String) :
    p.scope.IsStored name ↔
      unit.locate p.subroutine name ≠ none ∧ ¬ p.subroutine.Loses begun name := by
  rcases Class.entry_cases h hbegun name with
    ⟨e, storage, hentry, hstanding, hlocate, hkept⟩ | ⟨s, hentry, hloses⟩ | ⟨hentry, hlocate, _⟩
  · exact iff_of_true ⟨e, storage, hentry, hstanding⟩ ⟨hlocate, hkept⟩
  · refine iff_of_false ?_ fun hfound => hfound.2 hloses
    rintro ⟨e, storage, hfound, hstanding⟩
    rw [hentry] at hfound
    cases hfound
    cases hstanding
  · refine iff_of_false ?_ fun hfound => hfound.1 hlocate
    rintro ⟨e, storage, hfound, _⟩
    rw [hentry] at hfound
    cases hfound

theorem Class.known_of_placed (h : unit.placed σ label = before ++ p :: after)
    {begun : List Subroutine} (hbegun : begun = before.map Placed.subroutine ++ [p.subroutine])
    (name : String) :
    p.scope.Known name ↔
      unit.locate p.subroutine name ≠ none ∨ name ∈ begun.map Subroutine.name := by
  unfold Scope.Known
  rcases Class.entry_cases h hbegun name with
    ⟨e, storage, hentry, _, hlocate, _⟩ | ⟨s, hentry, hloses⟩ | ⟨hentry, hlocate, hfree⟩
  · rw [hentry]
    exact iff_of_true rfl (Or.inl hlocate)
  · rw [hentry]
    exact iff_of_true rfl (Or.inr hloses.2)
  · rw [hentry]
    exact iff_of_false Bool.false_ne_true fun hfound => hfound.elim (absurd hlocate) hfree

end

end Syntax

theorem Scope.accessesOf_value_eq_nil_iff (σ : Scope) (name : String) :
    σ.accessesOf (.value name) = [] ↔ ¬ σ.IsStored name := by
  rw [← σ.isSome_valuePlace_iff]
  simp only [accessesOf]
  cases σ.valuePlace name with
  | none => simp
  | some place => simp

open Syntax

/-- In an accepted class a name is assigned to only if it is declared, or if it is the name of a
subroutine that has begun.  The names in expressions are not checked.  The body of a
subroutine accesses its names in order, and no access is written for a name without a
declaration, nor for one that is lost to a subroutine.  Any other class that differs in the
names of variables in expressions only is accepted as well. -/
theorem variables_unchecked_in_expressions {c : Compiler} {text : String}
    (h : (c.compile text).fault = none) :
    exists unit : Syntax.Class, unit.WrittenIn (tokenize text).1 ∧
      (c.compile text).written =
        some ((unit.placed c.scope c.labels).flatMap (Placed.code unit.size),
          Tree.linesFrom 0 unit.marks) ∧
      (forall before p after begun, unit.placed c.scope c.labels = before ++ p :: after ->
        begun = before.map Placed.subroutine ++ [p.subroutine] ->
        (forall name, name ∈ p.subroutine.body.block.targets ->
          unit.locate p.subroutine name ≠ none ∨ name ∈ begun.map Subroutine.name) ∧
        accesses (p.subroutine.body.block.code p.scope p.label) =
          p.subroutine.body.block.occurrences.flatMap p.scope.accessesOf ∧
        forall name, p.scope.accessesOf (.value name) = [] ↔
          unit.locate p.subroutine name = none ∨ p.subroutine.Loses begun name) ∧
      forall other : Syntax.Class, other.outline = unit.outline ->
        forall otherText, tokenize otherText = (other.tokens, none) ->
          (c.compile otherText).fault = none := by
  rcases Compiler.exists_resolved_of_compile h with ⟨unit, htokens, hresolved, hwritten, _⟩
  refine ⟨unit, htokens, hwritten, ?_, ?_⟩
  · intro before p after begun hplaced hbegun
    refine ⟨?_, Block.accesses_code (Class.ordinary_of_placed hplaced) _ _, ?_⟩
    · intro name hname
      have htarget := Block.isSome_targetPlace _ (hresolved.of_placed hplaced) name hname
      rw [Scope.targetPlace, Option.isSome_map] at htarget
      exact (Class.known_of_placed hplaced hbegun name).mp htarget
    · intro name
      rw [Scope.accessesOf_value_eq_nil_iff, Class.isStored_of_placed hplaced hbegun,
        not_and_or, not_not, not_not]
  · intro other houtline otherText htext
    have hother : other.Resolved c.scope c.labels := by
      rw [← other.resolved_outline, houtline, unit.resolved_outline]
      exact hresolved
    exact (Compiler.compile_of_resolved htext hother).1

theorem variables_unchecked_of_counter :
    (({} : Compiler).compile Syntax.Class.counter.text).fault = none ∧
      (forall before p after begun,
        Syntax.Class.counter.placed ({} : Compiler).scope ({} : Compiler).labels =
            before ++ p :: after ->
          begun = before.map Placed.subroutine ++ [p.subroutine] ->
          forall name, p.scope.accessesOf (.value name) = [] ↔
            Syntax.Class.counter.locate p.subroutine name = none ∨
              p.subroutine.Loses begun name) ∧
      forall other : Syntax.Class, other.outline = Syntax.Class.counter.outline ->
        forall otherText, tokenize otherText = (other.tokens, none) ->
          (({} : Compiler).compile otherText).fault = none := by
  have htokens := Token.tokenize_print Syntax.Class.isLexeme_counter
  rcases Compiler.compile_of_resolved htokens Syntax.Class.clear_counter.resolved with
    ⟨hfault, hcounter⟩
  rcases variables_unchecked_in_expressions hfault with ⟨unit, _, hunit, hnames, hothers⟩
  cases Class.eq_of_written hunit hcounter
  refine ⟨hfault, ?_, hothers⟩
  intro before p after begun hplaced hbegun
  exact (hnames before p after begun hplaced hbegun).2.2

/-- A class with a function that returns a name without a declaration. -/
def Syntax.Class.undeclared : Syntax.Class where
  name := "A"
  vars := []
  subroutines := [⟨.function, some .int, "f", [], ⟨[], .cons (.give (.mk (.var "x") .nil)) .nil⟩⟩]

def undeclaredText : String :=
  "class A \x7b function int f() \x7b return x; \x7d \x7d"

/-- The function returns, but no code pushes a value. -/
theorem undeclared_name_accepted :
    (tokenize undeclaredText).1 = Syntax.Class.undeclared.tokens ∧
      (forall s, s ∈ Syntax.Class.undeclared.subroutines ->
        s.body.block.occurrences = [.value "x"] ∧
          Syntax.Class.undeclared.locate s "x" = none) ∧
      (({} : Compiler).compile undeclaredText).fault = none ∧
      (({} : Compiler).compile undeclaredText).written.map Prod.fst =
        some [.function "A.f" 0, .ret] := by
  decide +kernel

end Jack
