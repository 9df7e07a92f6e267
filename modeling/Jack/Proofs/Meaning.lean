import Jack.Proofs.Machine
import Jack.Proofs.Scope

/-!
# The meaning of expressions and statements

Values are words.  An expression has a value in a memory: its operators apply from left
to right, without precedence, and arithmetic drops what goes beyond sixteen bits.  A
statement changes the memory, and it goes on or returns a value.

Names stand for locations.  Strings and calls are given no meaning here.
-/

namespace Jack

/-!
# Locations
-/

structure Location where
  storage : Storage
  index : Nat
  deriving DecidableEq, Repr

namespace Memory

def fieldAddress (memory : Memory) (index : Nat) : Word :=
  memory.this + BitVec.ofNat 16 index

def load (memory : Memory) (location : Location) : Word :=
  match location.storage with
  | .var => memory.locals location.index
  | .argument => memory.arguments location.index
  | .static => memory.statics location.index
  | .field => memory.heap (memory.fieldAddress location.index)

/-- The word of the heap at an address is replaced. -/
def storeHeap (memory : Memory) (address value : Word) : Memory :=
  { memory with heap := Function.update memory.heap address value }

def store (memory : Memory) (location : Location) (value : Word) : Memory :=
  match location.storage with
  | .var => { memory with locals := Function.update memory.locals location.index value }
  | .argument =>
      { memory with arguments := Function.update memory.arguments location.index value }
  | .static => { memory with statics := Function.update memory.statics location.index value }
  | .field => memory.storeHeap (memory.fieldAddress location.index) value

end Memory

/-- The location of an element of an array, from the base of the array. -/
def elementAddress (base index : Word) : Word :=
  Word.wrap (base.toInt + index.toInt)

/-- The location that a name is declared for. -/
def Scope.location (σ : Scope) (name : String) : Option Location :=
  (σ.entry name).join.bind fun e =>
    match e.standing with
    | .known (.stored storage) => some ⟨storage, e.index.toNat⟩
    | _ => none

namespace Syntax

/-!
# Operators
-/

/-- The value of a binary operation.  How words are divided is given. -/
def Binary.value (divide : Word -> Word -> Option Word) : Binary -> Word -> Word -> Option Word
  | .add, x, y => some (Word.wrap (x.toInt + y.toInt))
  | .sub, x, y => some (Word.wrap (x.toInt - y.toInt))
  | .multiply, x, y => some (Word.wrap (x.toInt * y.toInt))
  | .divide, x, y => divide x y
  | .and, x, y => some (x &&& y)
  | .or, x, y => some (x ||| y)
  | .less, x, y => some (Word.truth (decide (x.toInt < y.toInt)))
  | .greater, x, y => some (Word.truth (decide (y.toInt < x.toInt)))
  | .equal, x, y => some (Word.truth (decide (x = y)))

def Unary.value : Unary -> Word -> Word
  | .negate, x => Word.wrap (-x.toInt)
  | .invert, x => ~~~x

def Constant.value (memory : Memory) : Constant -> Word
  | .true => Word.truth Bool.true
  | .false => Word.truth Bool.false
  | .null => Word.wrap 0
  | .this => memory.this

/-!
# Expressions
-/

section

variable (locate : String -> Option Location) (divide : Word -> Word -> Option Word)
  (memory : Memory)

mutual

def Expr.value : Expr -> Option Word
  | .mk first rest => (first.value).bind fun x => rest.valueFrom x

/-- The operations are applied to a value from left to right. -/
def Operations.valueFrom (x : Word) : Operations -> Option Word
  | .nil => some x
  | .cons op operand rest =>
      (operand.value).bind fun y => (op.value divide x y).bind fun z => rest.valueFrom z

def Term.value : Term -> Option Word
  | .integer digits => some (Word.wrap (Token.integerValue digits))
  | .string _ => none
  | .constant value => some (value.value memory)
  | .paren inner => inner.value
  | .unary op operand => (operand.value).map op.value
  | .var name => (locate name).map memory.load
  | .element name index =>
      (locate name).bind fun location =>
        (index.value).map fun i => memory.heap (elementAddress (memory.load location) i)
  | .call _ _ => none
  | .callOn _ _ _ => none

end

end

/-!
# Statements
-/

/-- How statements end: the next one follows, or a value is returned. -/
inductive Ending where
  | finished (memory : Memory)
  | returned (value : Word) (memory : Memory)

/-- A condition is a truth value.  If it is another word, a branch is taken, but a loop
is left. -/
def Branches (value : Word) : Prop := value ≠ Word.truth false

def Continues (value : Word) : Prop := value = Word.truth true

instance (value : Word) : Decidable (Branches value) :=
  inferInstanceAs (Decidable (value ≠ Word.truth false))

instance (value : Word) : Decidable (Continues value) :=
  inferInstanceAs (Decidable (value = Word.truth true))

theorem branches_truth_iff (b : Bool) : Branches (Word.truth b) ↔ Continues (Word.truth b) := by
  cases b <;> simp [Branches, Continues, Word.truth, Word.wrap]

mutual

/-- A statement that is run in a memory comes to an ending. -/
inductive Statement.Runs (locate : String -> Option Location)
    (divide : Word -> Word -> Option Word) : Statement -> Memory -> Ending -> Prop where
  | assign {name : String} {value : Expr} {memory : Memory} {location : Location} {v : Word} :
      locate name = some location -> value.value locate divide memory = some v ->
      Statement.Runs locate divide (.assign name value) memory
        (.finished (memory.store location v))
  | store {name : String} {index value : Expr} {memory : Memory} {location : Location}
      {i v : Word} :
      locate name = some location -> index.value locate divide memory = some i ->
      value.value locate divide memory = some v ->
      Statement.Runs locate divide (.store name index value) memory
        (.finished (memory.storeHeap (elementAddress (memory.load location) i) v))
  | leave {memory : Memory} :
      Statement.Runs locate divide .leave memory (.returned (Word.wrap 0) memory)
  | give {value : Expr} {memory : Memory} {v : Word} :
      value.value locate divide memory = some v ->
      Statement.Runs locate divide (.give value) memory (.returned v memory)
  | ifThenTaken {condition : Expr} {body : Block} {memory : Memory} {v : Word}
      {ending : Ending} :
      condition.value locate divide memory = some v -> Branches v ->
      Block.Runs locate divide body memory ending ->
      Statement.Runs locate divide (.ifThen condition body) memory ending
  | ifThenSkipped {condition : Expr} {body : Block} {memory : Memory} {v : Word} :
      condition.value locate divide memory = some v -> ¬ Branches v ->
      Statement.Runs locate divide (.ifThen condition body) memory (.finished memory)
  | ifElseTaken {condition : Expr} {body other : Block} {memory : Memory} {v : Word}
      {ending : Ending} :
      condition.value locate divide memory = some v -> Branches v ->
      Block.Runs locate divide body memory ending ->
      Statement.Runs locate divide (.ifElse condition body other) memory ending
  | ifElseOther {condition : Expr} {body other : Block} {memory : Memory} {v : Word}
      {ending : Ending} :
      condition.value locate divide memory = some v -> ¬ Branches v ->
      Block.Runs locate divide other memory ending ->
      Statement.Runs locate divide (.ifElse condition body other) memory ending
  | loopLeft {condition : Expr} {body : Block} {memory : Memory} {v : Word} :
      condition.value locate divide memory = some v -> ¬ Continues v ->
      Statement.Runs locate divide (.loop condition body) memory (.finished memory)
  | loopReturned {condition : Expr} {body : Block} {memory memory' : Memory} {v w : Word} :
      condition.value locate divide memory = some v -> Continues v ->
      Block.Runs locate divide body memory (.returned w memory') ->
      Statement.Runs locate divide (.loop condition body) memory (.returned w memory')
  | loopAgain {condition : Expr} {body : Block} {memory memory' : Memory} {v : Word}
      {ending : Ending} :
      condition.value locate divide memory = some v -> Continues v ->
      Block.Runs locate divide body memory (.finished memory') ->
      Statement.Runs locate divide (.loop condition body) memory' ending ->
      Statement.Runs locate divide (.loop condition body) memory ending

inductive Block.Runs (locate : String -> Option Location)
    (divide : Word -> Word -> Option Word) : Block -> Memory -> Ending -> Prop where
  | nil {memory : Memory} : Block.Runs locate divide .nil memory (.finished memory)
  | returned {first : Statement} {rest : Block} {memory memory' : Memory} {v : Word} :
      Statement.Runs locate divide first memory (.returned v memory') ->
      Block.Runs locate divide (.cons first rest) memory (.returned v memory')
  | cons {first : Statement} {rest : Block} {memory memory' : Memory} {ending : Ending} :
      Statement.Runs locate divide first memory (.finished memory') ->
      Block.Runs locate divide rest memory' ending ->
      Block.Runs locate divide (.cons first rest) memory ending

end

/-!
# Trees that have a meaning

They have no strings and no calls, and their names are declared for values.
-/

mutual

def Expr.Plain (σ : Scope) : Expr -> Prop
  | .mk first rest => first.Plain σ ∧ rest.Plain σ

def Operations.Plain (σ : Scope) : Operations -> Prop
  | .nil => True
  | .cons _ operand rest => operand.Plain σ ∧ rest.Plain σ

def Term.Plain (σ : Scope) : Term -> Prop
  | .integer _ => True
  | .string _ => False
  | .constant _ => True
  | .paren inner => inner.Plain σ
  | .unary _ operand => operand.Plain σ
  | .var name => σ.IsStored name
  | .element name index => σ.IsStored name ∧ index.Plain σ
  | .call _ _ => False
  | .callOn _ _ _ => False

end

mutual

def Statement.Plain (σ : Scope) : Statement -> Prop
  | .assign name value => σ.IsStored name ∧ value.Plain σ
  | .store name index value => σ.IsStored name ∧ index.Plain σ ∧ value.Plain σ
  | .call _ _ => False
  | .callOn _ _ _ => False
  | .leave => True
  | .give value => value.Plain σ
  | .ifThen condition body => condition.Plain σ ∧ body.Plain σ
  | .ifElse condition body other => condition.Plain σ ∧ body.Plain σ ∧ other.Plain σ
  | .loop condition body => condition.Plain σ ∧ body.Plain σ

def Block.Plain (σ : Scope) : Block -> Prop
  | .nil => True
  | .cons first rest => first.Plain σ ∧ rest.Plain σ

end

end Syntax
end Jack
