import Mathlib.Logic.Function.Basic
import Mathlib.Logic.Relation
import Jack.Vm.Instr

/-!
# The virtual machine

The machine that runs the commands of one subroutine.  It has a stack of words, the
segments that the subroutine can reach, and a heap.  The subroutines it calls are
given by a library: a call takes its arguments from the stack, leaves a result there,
and changes at most what all subroutines share.

Commands without jumps are executed one after the other.  A program is run from a
position, and a jump goes to the first label of its number.
-/

namespace Jack

/-!
# Words and memory
-/

abbrev Word := BitVec 16

namespace Word

/-- The sixteen lowest bits of an integer. -/
def wrap (n : Int) : Word := BitVec.ofInt 16 n

/-- All bits are set in a true word, and none in a false one. -/
def truth (b : Bool) : Word := if b then wrap (-1) else wrap 0

end Word

/-- What the values of a subroutine are kept in.  The fields of the object at hand are
on the heap, from the word `this` on. -/
structure Memory where
  locals : Nat -> Word
  arguments : Nat -> Word
  statics : Nat -> Word
  this : Word
  heap : Word -> Word

/-- What all subroutines can change. -/
structure Shared where
  statics : Nat -> Word
  heap : Word -> Word
  temp : Nat -> Word

/-- The subroutines that can be called. -/
structure Library where
  /-- The value of a subroutine on some arguments, if it returns, and what becomes of the
  shared state. -/
  result : String -> List Word -> Shared -> Option (Word × Shared)

structure Machine where
  stack : List Word
  memory : Memory
  /-- Where the segment `that` begins. -/
  that : Word
  temp : Nat -> Word

namespace Machine

/-!
# Places
-/

def read (m : Machine) (place : Place) : Option Word :=
  match place.segment, place.index with
  | some .constant, .ofNat i => some (BitVec.ofNat 16 i)
  | some .«local», .ofNat i => some (m.memory.locals i)
  | some .argument, .ofNat i => some (m.memory.arguments i)
  | some .static, .ofNat i => some (m.memory.statics i)
  | some .this, .ofNat i => some (m.memory.heap (m.memory.this + BitVec.ofNat 16 i))
  | some .that, .ofNat i => some (m.memory.heap (m.that + BitVec.ofNat 16 i))
  | some .pointer, .ofNat 0 => some m.memory.this
  | some .pointer, .ofNat 1 => some m.that
  | some .temp, .ofNat i => some (m.temp i)
  | _, _ => none

/-- Constants cannot be written. -/
def write (m : Machine) (place : Place) (value : Word) : Option Machine :=
  match place.segment, place.index with
  | some .«local», .ofNat i =>
      some { m with memory.locals := Function.update m.memory.locals i value }
  | some .argument, .ofNat i =>
      some { m with memory.arguments := Function.update m.memory.arguments i value }
  | some .static, .ofNat i =>
      some { m with memory.statics := Function.update m.memory.statics i value }
  | some .this, .ofNat i =>
      let address := m.memory.this + BitVec.ofNat 16 i
      some { m with memory.heap := Function.update m.memory.heap address value }
  | some .that, .ofNat i =>
      let address := m.that + BitVec.ofNat 16 i
      some { m with memory.heap := Function.update m.memory.heap address value }
  | some .pointer, .ofNat 0 => some { m with memory.this := value }
  | some .pointer, .ofNat 1 => some { m with that := value }
  | some .temp, .ofNat i => some { m with temp := Function.update m.temp i value }
  | _, _ => none

@[simp] theorem read_constant (m : Machine) (n : Nat) :
    m.read (.constant n) = some (BitVec.ofNat 16 n) := rfl

@[simp] theorem read_this (m : Machine) : m.read (.pointer 0) = some m.memory.this := rfl

@[simp] theorem read_temp (m : Machine) (n : Nat) : m.read (.temp n) = some (m.temp n) := rfl

@[simp] theorem read_that_zero (m : Machine) :
    m.read (.that 0) = some (m.memory.heap m.that) := by
  show some (m.memory.heap (m.that + 0#16)) = _
  rw [BitVec.add_zero]

@[simp] theorem write_pointer_one (m : Machine) (value : Word) :
    m.write (.pointer 1) value = some { m with that := value } := rfl

@[simp] theorem write_temp (m : Machine) (n : Nat) (value : Word) :
    m.write (.temp n) value = some { m with temp := Function.update m.temp n value } := rfl

@[simp] theorem write_that_zero (m : Machine) (value : Word) :
    m.write (.that 0) value =
      some { m with memory.heap := Function.update m.memory.heap m.that value } := by
  show some { m with memory.heap := Function.update m.memory.heap (m.that + 0#16) value } = _
  rw [BitVec.add_zero]

/-!
# Commands without jumps
-/

/-- The stack after an operation; the second operand is on top. -/
def operate : Operation -> List Word -> Option (List Word)
  | .neg, x :: rest => some ((-x) :: rest)
  | .not, x :: rest => some ((~~~x) :: rest)
  | .add, y :: x :: rest => some ((x + y) :: rest)
  | .sub, y :: x :: rest => some ((x - y) :: rest)
  | .and, y :: x :: rest => some ((x &&& y) :: rest)
  | .or, y :: x :: rest => some ((x ||| y) :: rest)
  | .eq, y :: x :: rest => some ((if x = y then BitVec.allOnes 16 else 0) :: rest)
  | .gt, y :: x :: rest => some ((if y.slt x then BitVec.allOnes 16 else 0) :: rest)
  | .lt, y :: x :: rest => some ((if x.slt y then BitVec.allOnes 16 else 0) :: rest)
  | _, _ => none

def shared (m : Machine) : Shared :=
  ⟨m.memory.statics, m.memory.heap, m.temp⟩

/-- The arguments of a call are on top of the stack, the last one uppermost. -/
def call (library : Library) (m : Machine) (name : String) (count : Nat) : Option Machine :=
  if count ≤ m.stack.length then
    match library.result name (m.stack.take count).reverse m.shared with
    | some (value, shared) =>
        some
          { stack := value :: m.stack.drop count
            memory := { m.memory with statics := shared.statics, heap := shared.heap }
            that := m.that
            temp := shared.temp }
    | none => none
  else none

def execute (library : Library) (m : Machine) : Instr -> Option Machine
  | .push place _ => (m.read place).map fun value => { m with stack := value :: m.stack }
  | .pop place =>
      match m.stack with
      | [] => none
      | value :: rest => { m with stack := rest }.write place value
  | .operate operation =>
      (operate operation m.stack).map fun stack => { m with stack := stack }
  | .call name count => m.call library name count
  | _ => none

def executeAll (library : Library) : Machine -> List Instr -> Option Machine
  | m, [] => some m
  | m, instr :: rest => (m.execute library instr).bind fun m' => m'.executeAll library rest

theorem executeAll_append (library : Library) (m : Machine) (first second : List Instr) :
    m.executeAll library (first ++ second) =
      (m.executeAll library first).bind fun m' => m'.executeAll library second := by
  induction first generalizing m with
  | nil => rfl
  | cons instr rest ih =>
      rw [List.cons_append, executeAll, executeAll]
      cases m.execute library instr with
      | none => rfl
      | some m' => exact ih m'

end Machine

/-!
# Runs of a program
-/

/-- A machine at a position of its program. -/
structure Config where
  position : Nat
  machine : Machine

/-- Where a program defines a label first. -/
def labelPosition (program : List Instr) (label : Nat) : Option Nat :=
  program.findIdx? fun instr => decide (instr = .label label)

namespace Config

/-- One step of a run.  There is none behind the last command, nor from a return. -/
def next (library : Library) (program : List Instr) (s : Config) : Option Config :=
  match program[s.position]? with
  | none => none
  | some .ret => none
  | some (.label _) => some ⟨s.position + 1, s.machine⟩
  | some (.goto label) =>
      (labelPosition program label).map fun position => ⟨position, s.machine⟩
  | some (.ifGoto label) =>
      match s.machine.stack with
      | [] => none
      | value :: rest =>
          if value = 0 then some ⟨s.position + 1, { s.machine with stack := rest }⟩
          else
            (labelPosition program label).map fun position =>
              ⟨position, { s.machine with stack := rest }⟩
  | some instr =>
      (s.machine.execute library instr).map fun machine => ⟨s.position + 1, machine⟩

/-- A run leads from one configuration to another. -/
def Reaches (library : Library) (program : List Instr) : Config -> Config -> Prop :=
  Relation.ReflTransGen fun s t => s.next library program = some t

theorem Reaches.refl {library : Library} {program : List Instr} (s : Config) :
    Reaches library program s s :=
  Relation.ReflTransGen.refl

theorem Reaches.of_eq {library : Library} {program : List Instr} {position position' : Nat}
    (h : position = position') (m : Machine) :
    Reaches library program ⟨position, m⟩ ⟨position', m⟩ := by
  rw [h]
  exact Reaches.refl _

theorem Reaches.trans {library : Library} {program : List Instr} {s t u : Config}
    (hfirst : Reaches library program s t) (hsecond : Reaches library program t u) :
    Reaches library program s u :=
  Relation.ReflTransGen.trans hfirst hsecond

theorem Reaches.step {library : Library} {program : List Instr} {s t u : Config}
    (hstep : s.next library program = some t) (hrest : Reaches library program t u) :
    Reaches library program s u :=
  Relation.ReflTransGen.head hstep hrest

/-- A run leads from one configuration to another by commands between two positions alone. -/
def Through (library : Library) (program : List Instr) (low high : Nat) :
    Config -> Config -> Prop :=
  Relation.ReflTransGen fun s t =>
    low ≤ s.position ∧ s.position < high ∧ s.next library program = some t

namespace Through

variable {library : Library} {program : List Instr} {low high : Nat} {s t u : Config}

theorem refl (s : Config) : Through library program low high s s :=
  Relation.ReflTransGen.refl

theorem trans (hfirst : Through library program low high s t)
    (hsecond : Through library program low high t u) : Through library program low high s u :=
  Relation.ReflTransGen.trans hfirst hsecond

theorem step {position : Nat} {m : Machine}
    (hnext : next library program ⟨position, m⟩ = some t) (hlow : low ≤ position)
    (hhigh : position < high) (hrest : Through library program low high t u) :
    Through library program low high ⟨position, m⟩ u :=
  Relation.ReflTransGen.head ⟨hlow, hhigh, hnext⟩ hrest

theorem reaches (h : Through library program low high s t) : Reaches library program s t := by
  induction h with
  | refl => exact Reaches.refl _
  | tail _ hstep ih => exact Relation.ReflTransGen.tail ih hstep.2.2

end Through

end Config

/-!
# Code within a program
-/

/-- The code stands in the program at a position, and the labels it defines are found
there. -/
def Located (program : List Instr) (position : Nat) (code : List Instr) : Prop :=
  forall i instr, code[i]? = some instr -> program[position + i]? = some instr ∧
    forall label, instr = .label label -> labelPosition program label = some (position + i)

namespace Located

variable {program : List Instr} {position : Nat}

theorem left {first second : List Instr} (h : Located program position (first ++ second)) :
    Located program position first := by
  intro i instr hi
  apply h i instr
  rw [List.getElem?_append_left (List.getElem?_eq_some_iff.mp hi).1]
  exact hi

theorem right {first second : List Instr} (h : Located program position (first ++ second)) :
    Located program (position + first.length) second := by
  intro i instr hi
  have hshift : (first ++ second)[first.length + i]? = some instr := by
    rw [List.getElem?_append_right (Nat.le_add_right _ _), Nat.add_sub_cancel_left]
    exact hi
  have hboth := h (first.length + i) instr hshift
  rw [Nat.add_assoc]
  exact hboth

theorem tail {instr : Instr} {rest : List Instr}
    (h : Located program position (instr :: rest)) : Located program (position + 1) rest := by
  have happend : Located program position ([instr] ++ rest) := h
  exact happend.right

theorem head {instr : Instr} {rest : List Instr}
    (h : Located program position (instr :: rest)) : program[position]? = some instr :=
  (h 0 instr rfl).1

theorem label {number : Nat} {rest : List Instr}
    (h : Located program position (.label number :: rest)) :
    labelPosition program number = some position :=
  (h 0 (.label number) rfl).2 number rfl

end Located

namespace Config

variable {library : Library} {program : List Instr} {position : Nat} {m m' : Machine}

/-- A command that can be executed is the next step of a run. -/
theorem next_of_execute {instr : Instr} (hinstr : program[position]? = some instr)
    (h : m.execute library instr = some m') :
    next library program ⟨position, m⟩ = some ⟨position + 1, m'⟩ := by
  unfold next
  simp only [hinstr]
  cases instr with
  | push place remark => simp only [h, Option.map_some]
  | pop place => simp only [h, Option.map_some]
  | operate operation => simp only [h, Option.map_some]
  | call name count => simp only [h, Option.map_some]
  | label number => cases h
  | goto number => cases h
  | ifGoto number => cases h
  | function name locals => cases h
  | ret => cases h

theorem through_executeAll {code : List Instr} {low high : Nat}
    (hcode : Located program position code) (h : m.executeAll library code = some m')
    (hlow : low ≤ position) (hhigh : position + code.length ≤ high) :
    Through library program low high ⟨position, m⟩ ⟨position + code.length, m'⟩ := by
  induction code generalizing position m with
  | nil =>
      cases h
      exact Through.refl _
  | cons instr rest ih =>
      rcases Option.bind_eq_some_iff.mp h with ⟨m1, hfirst, hrest⟩
      rw [List.length_cons] at hhigh
      have htail := ih hcode.tail hrest (by omega) (by omega)
      rw [List.length_cons, Nat.add_comm rest.length, ← Nat.add_assoc]
      exact Through.step (next_of_execute hcode.head hfirst) hlow (by omega) htail

theorem reaches_executeAll {code : List Instr} (hcode : Located program position code)
    (h : m.executeAll library code = some m') :
    Reaches library program ⟨position, m⟩ ⟨position + code.length, m'⟩ :=
  (through_executeAll hcode h (Nat.le_refl _) (Nat.le_refl _)).reaches

theorem next_label {number : Nat} {rest : List Instr}
    (hcode : Located program position (.label number :: rest)) :
    next library program ⟨position, m⟩ = some ⟨position + 1, m⟩ := by
  unfold next
  simp only [hcode.head]

theorem next_goto {number target : Nat} {rest : List Instr}
    (hcode : Located program position (.goto number :: rest))
    (htarget : labelPosition program number = some target) :
    next library program ⟨position, m⟩ = some ⟨target, m⟩ := by
  unfold next
  simp only [hcode.head, htarget, Option.map_some]

theorem next_ifGoto_taken {number target : Nat} {rest : List Instr} {value : Word}
    {stack : List Word} (hcode : Located program position (.ifGoto number :: rest))
    (htarget : labelPosition program number = some target)
    (hstack : m.stack = value :: stack) (hvalue : value ≠ 0) :
    next library program ⟨position, m⟩ = some ⟨target, { m with stack := stack }⟩ := by
  unfold next
  simp only [hcode.head, hstack, htarget, Option.map_some, if_neg hvalue]

theorem next_ifGoto_passed {number : Nat} {rest : List Instr} {stack : List Word}
    (hcode : Located program position (.ifGoto number :: rest))
    (hstack : m.stack = 0 :: stack) :
    next library program ⟨position, m⟩ =
      some ⟨position + 1, { m with stack := stack }⟩ := by
  unfold next
  simp only [hcode.head, hstack, if_true]

end Config

end Jack
