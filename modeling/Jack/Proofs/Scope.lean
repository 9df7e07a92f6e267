import Jack.Proofs.Steps

/-!
# Scopes and the code of trees

What a name means depends on the tables of the compiler alone.  Such a scope does
not change while expressions and statements are compiled, so the code of a tree
can be given as a function of the tree, the scope and the first label to draw.
-/

namespace Jack

open Compile

/-!
# Scopes
-/

/-- The tables that names are looked up in. -/
structure Scope where
  locals : Option (Table Entry)
  classes : Bindings String (Table Entry)
  className : Option String

def Compiler.scope (c : Compiler) : Scope :=
  ⟨c.locals, c.classes, c.className⟩

theorem Compiler.Yields.scope {c c' : Compiler} {marks : List Tree.Mark}
    {code : List Instr} {labels : Nat} (h : c.Yields marks code labels c') :
    c'.scope = c.scope := by
  rcases h with ⟨s, _, rfl⟩
  rfl

namespace Scope

/-- A compiler that has nothing but the scope. -/
def compiler (σ : Scope) : Compiler :=
  { locals := σ.locals, classes := σ.classes, className := σ.className }

/-- What a step gives that only asks for names; nothing if it fails. -/
def answer (σ : Scope) (step : CompileM α) : Option α :=
  match step.run σ.compiler with
  | .ok a _ => some a
  | .error _ _ => none

/-- The step depends on the scope only, and it changes nothing. -/
def Asks (step : CompileM α) : Prop :=
  forall c a c', step.run c = .ok a c' ↔ c' = c ∧ c.scope.answer step = some a

theorem asks_pure (a : α) : Asks (pure a) := by
  intro c b c'
  constructor
  · intro h
    cases h
    exact ⟨rfl, rfl⟩
  · intro h
    rcases h with ⟨rfl, h⟩
    cases h
    rfl

theorem asks_throw (fault : Fault) : Asks (throw fault : CompileM α) := by
  intro c a c'
  constructor
  · intro h
    cases h
  · intro h
    rcases h with ⟨_, h⟩
    cases h

theorem answer_bind_eq_some_iff {first : CompileM α} {second : α -> CompileM β}
    (hfirst : Asks first) {σ : Scope} {b : β} :
    σ.answer (first >>= second) = some b ↔
      exists a, σ.answer first = some a ∧ σ.answer (second a) = some b := by
  unfold answer
  rw [EStateM.run_bind]
  cases hrun : first.run σ.compiler with
  | ok a d =>
      rcases (hfirst _ _ _).mp hrun with ⟨rfl, _⟩
      simp
  | error fault d => simp

theorem Asks.bind {first : CompileM α} {second : α -> CompileM β}
    (hfirst : Asks first) (hsecond : forall a, Asks (second a)) :
    Asks (first >>= second) := by
  intro c b c'
  rw [answer_bind_eq_some_iff hfirst, run_bind_eq_ok_iff]
  constructor
  · intro h
    rcases h with ⟨a, d, hrun, hrest⟩
    rcases (hfirst _ _ _).mp hrun with ⟨rfl, ha⟩
    rcases (hsecond a _ _ _).mp hrest with ⟨rfl, hb⟩
    exact ⟨rfl, a, ha, hb⟩
  · intro h
    rcases h with ⟨rfl, a, ha, hb⟩
    exact ⟨a, c', (hfirst _ _ _).mpr ⟨rfl, ha⟩, (hsecond a _ _ _).mpr ⟨rfl, hb⟩⟩

theorem run_classEntry (name className : Option String) (c : Compiler) :
    ( classEntry? name className).run c =
      match className.bind c.classes.get? with
      | some table => .ok (table.get? name) c
      | none => .error (.missingKey (.ofName className)) c := rfl

theorem run_entry (name : Option String) (c : Compiler) :
    ( entry? name).run c =
      match c.locals with
      | none => .error .noTableToSearch c
      | some table =>
          match table.get? name with
          | some e => .ok (some e) c
          | none => ( classEntry? name c.className).run c := rfl

theorem run_classSize (c : Compiler) :
    classSize.run c =
      match c.className.bind c.sizes.get? with
      | some size => .ok size c
      | none => .error (.missingKey (.ofName c.className)) c := rfl

theorem asks_classEntry (name className : Option String) :
    Asks ( classEntry? name className) := by
  intro c a c'
  unfold answer
  rw [run_classEntry, run_classEntry]
  simp only [compiler, Compiler.scope]
  cases className.bind c.classes.get? with
  | none => simp
  | some table =>
      constructor
      · intro h
        cases h
        exact ⟨rfl, rfl⟩
      · intro h
        rcases h with ⟨rfl, h⟩
        cases h
        rfl

theorem asks_entry (name : Option String) : Asks ( entry? name) := by
  intro c a c'
  have hclass := asks_classEntry name c.className c a c'
  unfold answer at hclass ⊢
  rw [run_entry, run_entry]
  simp only [compiler, Compiler.scope] at hclass ⊢
  cases hlocals : c.locals with
  | none => simp
  | some table =>
      cases hget : table.get? name with
      | none => simpa [hget, hlocals] using hclass
      | some e =>
          simp only [hget]
          constructor
          · intro h
            cases h
            exact ⟨rfl, rfl⟩
          · intro h
            rcases h with ⟨rfl, h⟩
            cases h
            rfl

theorem asks_subroutineEntry (receiver subroutine : Option String) :
    Asks ( subroutineEntry? receiver subroutine) := by
  unfold subroutineEntry?
  apply Asks.bind (asks_entry subroutine)
  intro found
  cases found with
  | some e => exact asks_pure _
  | none =>
      apply Asks.bind (asks_entry receiver)
      intro holder
      cases holder with
      | some e => exact asks_classEntry _ _
      | none => exact asks_pure _

theorem asks_typeOf (e : Option Entry) : Asks (typeOf e) := by
  cases e with
  | some e => exact asks_pure _
  | none => exact asks_throw _

theorem asks_callTarget (name subroutine : String) :
    Asks (callTarget name subroutine) := by
  unfold callTarget
  apply Asks.bind (asks_subroutineEntry _ _)
  intro found
  cases found with
  | none => exact asks_pure _
  | some e =>
      show Asks (if e.type = some "method" then _ else _)
      split
      · apply Asks.bind (asks_entry _)
        intro holder
        apply Asks.bind (asks_typeOf holder)
        intro type
        exact asks_pure _
      · exact asks_pure _

/-!
# Names in a scope
-/

/-- The entry that a name has, if any.  There is no answer without tables. -/
def entry (σ : Scope) (name : String) : Option (Option Entry) :=
  σ.answer ( entry? (some name))

/-- The entry of a subroutine that is called on a name. -/
def subroutineEntry (σ : Scope) (owner name : String) : Option (Option Entry) :=
  σ.answer ( subroutineEntry? (some owner) (some name))

/-- What a call on a name is qualified with, and how many arguments it has beside
the listed ones. -/
def target (σ : Scope) (owner name : String) : Option (Option String × Nat) :=
  σ.answer (callTarget owner name)

/-- The place where a name keeps its value, if it has one. -/
def valuePlace (σ : Scope) (name : String) : Option Place :=
  (σ.entry name).join.bind fun e =>
    e.standing.segment?.map fun segment => ⟨some segment, e.index⟩

/-- The place that an assignment to a name goes to. -/
def targetPlace (σ : Scope) (name : String) : Option Place :=
  (σ.entry name).join.map Entry.place

/-- The name is declared for a value. -/
def IsStored (σ : Scope) (name : String) : Prop :=
  exists e storage, σ.entry name = some (some e) ∧ e.standing = .known (.stored storage)

theorem isSome_valuePlace_iff (σ : Scope) (name : String) :
    (σ.valuePlace name).isSome = true ↔ σ.IsStored name := by
  unfold valuePlace IsStored
  cases hentry : σ.entry name with
  | none => simp
  | some found =>
      cases found with
      | none => simp
      | some e =>
          cases hstanding : e.standing with
          | unset => simp [Standing.segment?, hstanding]
          | unknown => simp [Standing.segment?, hstanding]
          | known category =>
              cases category <;> simp [Standing.segment?, Category.segment?, hstanding]

instance (σ : Scope) (name : String) : Decidable (σ.IsStored name) :=
  decidable_of_iff _ (σ.isSome_valuePlace_iff name)

/-- Push the value of a name that has one. -/
def nameCode (σ : Scope) (name : String) : List Instr :=
  ((σ.valuePlace name).map fun place => Instr.push place (some name)).toList

end Scope

namespace Syntax

/-!
# Code of expressions
-/

/-- From the base and the index of an array to the value of the element. -/
def elementCode : List Instr :=
  [.operate .add, .pop (.pointer 1), .push (.that 0) none]

mutual

def Expr.code (σ : Scope) : Expr -> List Instr
  | .mk first rest => first.code σ ++ rest.code σ

def Operations.code (σ : Scope) : Operations -> List Instr
  | .nil => []
  | .cons op operand rest => operand.code σ ++ op.code :: rest.code σ

def Term.code (σ : Scope) : Term -> List Instr
  | .integer digits => [.pushConstant (Token.integerValue digits)]
  | .string text => stringCode (Text.escape text)
  | .constant value => value.code
  | .paren inner => inner.code σ
  | .unary op operand => operand.code σ ++ [op.code]
  | .var name => σ.nameCode name
  | .element name index => σ.nameCode name ++ (index.code σ ++ elementCode)
  | .call name arguments =>
      σ.nameCode name ++ (arguments.code σ ++ [.call name arguments.count])
  | .callOn owner name arguments =>
      let target := (σ.target owner name).getD (some owner, 0)
      σ.nameCode owner ++ (arguments.code σ ++
        [.call (qualified target.1 (some name)) (arguments.count + target.2)])

def Arguments.code (σ : Scope) : Arguments -> List Instr
  | .nil => []
  | .cons first rest => first.code σ ++ rest.code σ

end

/-!
All names of a tree that have to be looked up can be.  Where a class has no table,
the look-up fails, and the tree cannot be compiled.
-/

mutual

def Expr.Resolved (σ : Scope) : Expr -> Prop
  | .mk first rest => first.Resolved σ ∧ rest.Resolved σ

def Operations.Resolved (σ : Scope) : Operations -> Prop
  | .nil => True
  | .cons _ operand rest => operand.Resolved σ ∧ rest.Resolved σ

def Term.Resolved (σ : Scope) : Term -> Prop
  | .integer _ => True
  | .string _ => True
  | .constant _ => True
  | .paren inner => inner.Resolved σ
  | .unary _ operand => operand.Resolved σ
  | .var name => (σ.entry name).isSome
  | .element name index => (σ.entry name).isSome ∧ index.Resolved σ
  | .call name arguments => (σ.entry name).isSome ∧ arguments.Resolved σ
  | .callOn owner name arguments =>
      (σ.entry owner).isSome ∧ (σ.target owner name).isSome ∧ arguments.Resolved σ

def Arguments.Resolved (σ : Scope) : Arguments -> Prop
  | .nil => True
  | .cons first rest => first.Resolved σ ∧ rest.Resolved σ

end

/-!
# Code of statements
-/

/-- Code that pushes the object of a call, if there is one. -/
def receiverCode (object : Option Place) : List Instr :=
  (object.map fun place => Instr.push place (some "Pushing callee")).toList

/-- A call as a statement, whose value is dropped. -/
def callCode (σ : Scope) (subroutine : String) (object : Option Place)
    (arguments : Arguments) : List Instr :=
  receiverCode object ++ (arguments.code σ ++
    [.call subroutine (arguments.count + (if object.isSome then 1 else 0)), .pop (.temp 0)])

mutual

/-- How many labels a statement draws. -/
def Statement.labels : Statement -> Nat
  | .assign _ _ => 0
  | .store _ _ _ => 0
  | .call _ _ => 0
  | .callOn _ _ _ => 0
  | .leave => 0
  | .give _ => 0
  | .ifThen _ body => 3 + body.labels
  | .ifElse _ body other => 3 + (body.labels + other.labels)
  | .loop _ body => 2 + body.labels

def Block.labels : Block -> Nat
  | .nil => 0
  | .cons first rest => first.labels + rest.labels

end

mutual

/-- The code of a statement that draws its labels from a given one on. -/
def Statement.code (σ : Scope) (label : Nat) : Statement -> List Instr
  | .assign name value => value.code σ ++ ((σ.targetPlace name).map Instr.pop).toList
  | .store name index value =>
      index.code σ ++
        (((σ.targetPlace name).map fun place => Instr.push place none).toList ++
          .operate .add :: (value.code σ ++ storeCode))
  | .call name arguments =>
      callCode σ (qualified σ.className (some name)) (some (.pointer 0)) arguments
  | .callOn owner name arguments =>
      let receiver := receiver owner (σ.entry owner).join
      callCode σ (qualified receiver.1 (some name)) receiver.2 arguments
  | .leave => [.pushConstant 0, .ret]
  | .give value => value.code σ ++ [.ret]
  | .ifThen condition body =>
      condition.code σ ++ (.ifGoto label :: .goto (label + 1) :: .label label ::
        (body.code σ (label + 3) ++
          [.goto (label + 2), .label (label + 1), .label (label + 2)]))
  | .ifElse condition body other =>
      condition.code σ ++ (.ifGoto label :: .goto (label + 1) :: .label label ::
        (body.code σ (label + 3) ++ .goto (label + 2) :: .label (label + 1) ::
          (other.code σ (label + 3 + body.labels) ++ [.label (label + 2)])))
  | .loop condition body =>
      .label label :: (condition.code σ ++ (.operate .not :: .ifGoto (label + 1) ::
        (body.code σ (label + 2) ++ [.goto label, .label (label + 1)])))

def Block.code (σ : Scope) (label : Nat) : Block -> List Instr
  | .nil => []
  | .cons first rest => first.code σ label ++ rest.code σ (label + first.labels)

end

mutual

/-- All names of a statement that have to be looked up can be, and the names that
are assigned to have an entry. -/
def Statement.Resolved (σ : Scope) : Statement -> Prop
  | .assign name value => (σ.targetPlace name).isSome ∧ value.Resolved σ
  | .store name index value =>
      (σ.targetPlace name).isSome ∧ index.Resolved σ ∧ value.Resolved σ
  | .call _ arguments => arguments.Resolved σ
  | .callOn owner _ arguments => (σ.entry owner).isSome ∧ arguments.Resolved σ
  | .leave => True
  | .give value => value.Resolved σ
  | .ifThen condition body => condition.Resolved σ ∧ body.Resolved σ
  | .ifElse condition body other =>
      condition.Resolved σ ∧ body.Resolved σ ∧ other.Resolved σ
  | .loop condition body => condition.Resolved σ ∧ body.Resolved σ

def Block.Resolved (σ : Scope) : Block -> Prop
  | .nil => True
  | .cons first rest => first.Resolved σ ∧ rest.Resolved σ

end

end Syntax
end Jack
