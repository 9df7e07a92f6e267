import Jack.Proofs.Acceptance.Statement
import Jack.Proofs.Declarations
import Jack.Proofs.Recognition.Statement
import Jack.Proofs.TreeInjectivity

/-!
# The height of the stack

Code is scanned for the number of values it leaves on the stack.  What is compiled from
statements never takes a value that it has not pushed: the stack is empty between
statements, and so at every label and every jump, provided that the names in terms are
used for what they are declared for.
-/

namespace Jack

open Compile Syntax

/-!
# Scanning code
-/

namespace Instr

/-- How many values a command takes from the stack. -/
def taken : Instr -> Nat
  | .push _ _ => 0
  | .pop _ => 1
  | .operate .neg => 1
  | .operate .not => 1
  | .operate _ => 2
  | .label _ => 0
  | .goto _ => 0
  | .ifGoto _ => 1
  | .function _ _ => 0
  | .call _ arguments => arguments
  | .ret => 1

/-- How many values a command leaves in their place. -/
def given : Instr -> Nat
  | .push _ _ => 1
  | .operate _ => 1
  | .call _ _ => 1
  | _ => 0

/-- The height of the stack after a command, if the command finds what it takes.  A
return takes the only value there is. -/
def heightAfter (height : Nat) : Instr -> Option Nat
  | .ret => if height = 1 then some 0 else none
  | instr => if instr.taken ≤ height then some (height - instr.taken + instr.given) else none

/-- The stack is empty where labels and jumps stand; a condition is the only value. -/
def Meets (height : Nat) : Instr -> Prop
  | .label _ => height = 0
  | .goto _ => height = 0
  | .ifGoto _ => height = 1
  | _ => True

end Instr

def heightAfter (height : Nat) : List Instr -> Option Nat
  | [] => some height
  | instr :: rest => (instr.heightAfter height).bind fun next => heightAfter next rest

/-- The code can be run on an empty stack.  All commands find what they take, the stack
is empty at the labels, at the jumps and behind the conditional ones, and in the end. -/
structure KeepsStack (code : List Instr) : Prop where
  ends : heightAfter 0 code = some 0
  labels : forall before number after, code = before ++ .label number :: after ->
    heightAfter 0 before = some 0
  gotos : forall before number after, code = before ++ .goto number :: after ->
    heightAfter 0 before = some 0
  branches : forall before number after, code = before ++ .ifGoto number :: after ->
    heightAfter 0 (before ++ [.ifGoto number]) = some 0

theorem heightAfter_append (height : Nat) (first second : List Instr) :
    heightAfter height (first ++ second) =
      (heightAfter height first).bind fun next => heightAfter next second := by
  induction first generalizing height with
  | nil => rfl
  | cons instr rest ih =>
      rw [List.cons_append, heightAfter, heightAfter, Option.bind_assoc]
      congr 1
      funext next
      exact ih next

/-!
# Code between two heights
-/

/-- The code takes the stack from one height to another, and its labels and jumps meet
an empty stack. -/
inductive Carries : Nat -> List Instr -> Nat -> Prop where
  | nil (height : Nat) : Carries height [] height
  | cons {height next final : Nat} {instr : Instr} {rest : List Instr} :
      instr.heightAfter height = some next -> instr.Meets height ->
      Carries next rest final -> Carries height (instr :: rest) final

namespace Carries

theorem append {height middle final : Nat} {first second : List Instr}
    (hfirst : Carries height first middle) (hsecond : Carries middle second final) :
    Carries height (first ++ second) final := by
  induction hfirst with
  | nil height => exact hsecond
  | cons hnext hmeets _ ih => exact .cons hnext hmeets (ih hsecond)

theorem heightAfter_eq {height final : Nat} {code : List Instr}
    (h : Carries height code final) : heightAfter height code = some final := by
  induction h with
  | nil height => rfl
  | cons hnext _ _ ih =>
      rw [heightAfter, hnext]
      exact ih

/-- Every command meets the height that the code before it leaves. -/
theorem exists_meets {height final : Nat} {instr : Instr} {before after : List Instr}
    (h : Carries height (before ++ instr :: after) final) :
    exists middle, heightAfter height before = some middle ∧ instr.Meets middle := by
  induction before generalizing height with
  | nil =>
      cases h with
      | cons _ hmeets _ => exact ⟨height, rfl, hmeets⟩
  | cons first rest ih =>
      cases h with
      | cons hnext _ hrest =>
          rcases ih hrest with ⟨middle, hmiddle, hmeets⟩
          refine ⟨middle, ?_, hmeets⟩
          rw [heightAfter, hnext]
          exact hmiddle

theorem keepsStack {code : List Instr} (h : Carries 0 code 0) : KeepsStack code := by
  constructor
  case ends => exact h.heightAfter_eq
  case labels =>
    intro before number after hcode
    rw [hcode] at h
    rcases h.exists_meets with ⟨middle, hmiddle, rfl⟩
    exact hmiddle
  case gotos =>
    intro before number after hcode
    rw [hcode] at h
    rcases h.exists_meets with ⟨middle, hmiddle, rfl⟩
    exact hmiddle
  case branches =>
    intro before number after hcode
    rw [hcode] at h
    rcases h.exists_meets with ⟨middle, hmiddle, rfl⟩
    rw [heightAfter_append, hmiddle]
    rfl

/-!
One rule for each kind of command, with the height that the command finds.
-/

section

variable {height final : Nat} {rest : List Instr}

/-- A command other than a return takes its values from the top of the stack. -/
theorem command (height : Nat) (instr : Instr) (hreturn : instr ≠ .ret)
    (hmeets : instr.Meets (height + instr.taken))
    (h : Carries (height + instr.given) rest final) :
    Carries (height + instr.taken) (instr :: rest) final := by
  have hnext : instr.heightAfter (height + instr.taken) =
      some (height + instr.taken - instr.taken + instr.given) := by
    cases instr with
    | ret => exact absurd rfl hreturn
    | _ => simp [Instr.heightAfter]
  rw [Nat.add_sub_cancel] at hnext
  exact .cons hnext hmeets h

theorem push {place : Place} {remark : Option String} (h : Carries (height + 1) rest final) :
    Carries height (.push place remark :: rest) final :=
  command height (.push place remark) nofun trivial h

theorem pop {place : Place} (h : Carries height rest final) :
    Carries (height + 1) (.pop place :: rest) final :=
  command height (.pop place) nofun trivial h

theorem call (height count : Nat) {name : String} (h : Carries (height + 1) rest final) :
    Carries (height + count) (.call name count :: rest) final :=
  command height (.call name count) nofun trivial h

theorem label {number : Nat} (h : Carries 0 rest final) :
    Carries 0 (.label number :: rest) final :=
  command 0 (.label number) nofun rfl h

theorem goto {number : Nat} (h : Carries 0 rest final) :
    Carries 0 (.goto number :: rest) final :=
  command 0 (.goto number) nofun rfl h

theorem ifGoto {number : Nat} (h : Carries 0 rest final) :
    Carries 1 (.ifGoto number :: rest) final :=
  command 0 (.ifGoto number) nofun rfl h

theorem ret (h : Carries 0 rest final) : Carries 1 (.ret :: rest) final :=
  .cons rfl trivial h

end

end Carries

/-!
# Code of expressions
-/

namespace Scope

/-- The subroutine that is called on a name is a method. -/
def CallsMethod (σ : Scope) (owner name : String) : Prop :=
  exists e, σ.subroutineEntry owner name = some (some e) ∧ e.type = some "method"

instance (σ : Scope) (owner name : String) : Decidable (σ.CallsMethod owner name) :=
  decidable_of_iff ((σ.subroutineEntry owner name).join.bind Entry.type = some "method") (by
    unfold CallsMethod
    rcases σ.subroutineEntry owner name with _ | _ | e <;> simp)

/-- A call has an argument beside the listed ones just if it calls a method. -/
theorem target_count {σ : Scope} {owner name : String} {callee : Option String × Nat}
    (h : σ.target owner name = some callee) :
    (σ.CallsMethod owner name ∧ callee.2 = 1) ∨ (¬ σ.CallsMethod owner name ∧ callee.2 = 0) := by
  unfold target callTarget at h
  rcases (answer_bind_eq_some_iff (asks_subroutineEntry _ _)).mp h with ⟨found, hfound, hrest⟩
  have hentry : σ.subroutineEntry owner name = some found := hfound
  cases found with
  | none =>
      right
      cases hrest
      refine ⟨?_, rfl⟩
      intro hmethod
      rcases hmethod with ⟨e, he, _⟩
      rw [hentry] at he
      cases he
  | some e =>
      by_cases htype : e.type = some "method"
      · left
        refine ⟨⟨e, hentry, htype⟩, ?_⟩
        simp only [htype, if_true] at hrest
        rcases (answer_bind_eq_some_iff (asks_entry _)).mp hrest with ⟨holder, _, hrest⟩
        rcases (answer_bind_eq_some_iff (asks_typeOf holder)).mp hrest with ⟨type, _, hrest⟩
        cases hrest
        rfl
      · right
        simp only [htype, if_false] at hrest
        cases hrest
        refine ⟨?_, rfl⟩
        intro hmethod
        rcases hmethod with ⟨e', he', htype'⟩
        rw [hentry] at he'
        cases he'
        exact htype htype'

theorem carries_nameCode {σ : Scope} {name : String} (h : σ.IsStored name) (height : Nat) :
    Carries height (σ.nameCode name) (height + 1) := by
  rcases Option.isSome_iff_exists.mp ((σ.isSome_valuePlace_iff name).mpr h) with ⟨place, hplace⟩
  rw [nameCode, hplace]
  exact .push (.nil _)

theorem nameCode_eq_nil {σ : Scope} {name : String} (h : ¬ σ.IsStored name) :
    σ.nameCode name = [] := by
  rw [← σ.isSome_valuePlace_iff name, Bool.not_eq_true, Option.isSome_eq_false_iff,
    Option.isNone_iff_eq_none] at h
  rw [nameCode, h]
  rfl

end Scope

namespace Syntax

/-!
The names in terms are used for what they are declared for.  A name on its own has a
value, a name that is called has none, and a name that a subroutine is called on has one
just if the subroutine is a method.
-/

mutual

def Expr.NamesFit (σ : Scope) : Expr -> Prop
  | .mk first rest => first.NamesFit σ ∧ rest.NamesFit σ

def Operations.NamesFit (σ : Scope) : Operations -> Prop
  | .nil => True
  | .cons _ operand rest => operand.NamesFit σ ∧ rest.NamesFit σ

def Term.NamesFit (σ : Scope) : Term -> Prop
  | .integer _ => True
  | .string _ => True
  | .constant _ => True
  | .paren inner => inner.NamesFit σ
  | .unary _ operand => operand.NamesFit σ
  | .var name => σ.IsStored name
  | .element name index => σ.IsStored name ∧ index.NamesFit σ
  | .call name arguments => ¬ σ.IsStored name ∧ arguments.NamesFit σ
  | .callOn owner name arguments =>
      (σ.IsStored owner ↔ σ.CallsMethod owner name) ∧ arguments.NamesFit σ

def Arguments.NamesFit (σ : Scope) : Arguments -> Prop
  | .nil => True
  | .cons first rest => first.NamesFit σ ∧ rest.NamesFit σ

end

theorem carries_stringCode (text : String) (height : Nat) :
    Carries height (stringCode text) (height + 1) := by
  have hcharacters : forall characters : List Char,
      Carries (height + 1)
        (characters.flatMap fun c => [.pushConstant c.toNat, .call "String.appendChar" 2])
        (height + 1) := by
    intro characters
    induction characters with
    | nil => exact .nil _
    | cons c rest ih =>
        rw [List.flatMap_cons, List.cons_append, List.cons_append, List.nil_append]
        exact .push (.call height 2 ih)
  exact .push (.call height 1 (hcharacters _))

theorem Binary.carries_code (op : Binary) (height : Nat) :
    Carries (height + 2) [op.code] (height + 1) := by
  have htaken : op.code.taken = 2 := by cases op <;> rfl
  have hgiven : op.code.given = 1 := by cases op <;> rfl
  have hreturn : op.code ≠ .ret := by cases op <;> nofun
  have hmeets : op.code.Meets (height + op.code.taken) := by cases op <;> trivial
  have hcode := Carries.command height op.code hreturn hmeets (.nil _)
  rwa [htaken, hgiven] at hcode

theorem Unary.carries_code (op : Unary) (height : Nat) :
    Carries (height + 1) [op.code] (height + 1) := by
  cases op with
  | negate => exact .command height (.operate .neg) nofun trivial (.nil _)
  | invert => exact .command height (.operate .not) nofun trivial (.nil _)

theorem Constant.carries_code (value : Constant) (height : Nat) :
    Carries height value.code (height + 1) := by
  cases value with
  | «true» => exact .push (.command height (.operate .not) nofun trivial (.nil _))
  | _ => exact .push (.nil _)

theorem carries_elementCode (height : Nat) :
    Carries (height + 2) elementCode (height + 1) :=
  .command height (.operate .add) nofun trivial (.pop (.push (.nil _)))

/-- The receiver and the arguments of a call, with the extra one if there is one. -/
theorem carries_callOn {σ : Scope} {owner name : String} {arguments : List Instr}
    {count : Nat} (hresolved : (σ.target owner name).isSome)
    (hfit : σ.IsStored owner ↔ σ.CallsMethod owner name) (height : Nat)
    (harguments : forall height, Carries height arguments (height + count)) :
    Carries height
      (σ.nameCode owner ++ (arguments ++
        [.call (qualified ((σ.target owner name).getD (some owner, 0)).1 (some name))
          (count + ((σ.target owner name).getD (some owner, 0)).2)])) (height + 1) := by
  rcases Option.isSome_iff_exists.mp hresolved with ⟨callee, hcallee⟩
  rw [hcallee, Option.getD_some]
  rcases Scope.target_count hcallee with ⟨hmethod, hcount⟩ | ⟨hmethod, hcount⟩
  · rw [hcount]
    apply (Scope.carries_nameCode (hfit.mpr hmethod) height).append
    apply (harguments (height + 1)).append
    have hheight : height + 1 + count = height + (count + 1) := by omega
    rw [hheight]
    exact .call height _ (.nil _)
  · rw [hcount, Scope.nameCode_eq_nil (fun hstored => hmethod (hfit.mp hstored))]
    apply (harguments height).append
    exact .call height _ (.nil _)

mutual

theorem Expr.carries {σ : Scope} (height : Nat) : forall e : Expr, e.Resolved σ ->
    e.NamesFit σ -> Carries height (e.code σ) (height + 1)
  | .mk first rest, hresolved, hfit => by
      rw [Expr.code]
      exact (Term.carries height first hresolved.1 hfit.1).append
        (Operations.carries height rest hresolved.2 hfit.2)

theorem Operations.carries {σ : Scope} (height : Nat) : forall rest : Operations,
    rest.Resolved σ -> rest.NamesFit σ -> Carries (height + 1) (rest.code σ) (height + 1)
  | .nil, _, _ => by
      rw [Operations.code]
      exact .nil _
  | .cons op operand rest, hresolved, hfit => by
      rw [Operations.code]
      apply (Term.carries (height + 1) operand hresolved.1 hfit.1).append
      exact (op.carries_code height).append (Operations.carries height rest hresolved.2 hfit.2)

theorem Term.carries {σ : Scope} (height : Nat) : forall t : Term, t.Resolved σ ->
    t.NamesFit σ -> Carries height (t.code σ) (height + 1)
  | .integer digits, _, _ => by
      rw [Term.code]
      exact .push (.nil _)
  | .string text, _, _ => by
      rw [Term.code]
      exact carries_stringCode _ height
  | .constant value, _, _ => by
      rw [Term.code]
      exact value.carries_code height
  | .paren inner, hresolved, hfit => by
      rw [Term.code]
      exact Expr.carries height inner hresolved hfit
  | .unary op operand, hresolved, hfit => by
      rw [Term.code]
      exact (Term.carries height operand hresolved hfit).append (op.carries_code height)
  | .var name, _, hfit => by
      rw [Term.code]
      exact Scope.carries_nameCode hfit height
  | .element name index, hresolved, hfit => by
      rw [Term.code]
      apply (Scope.carries_nameCode hfit.1 height).append
      apply (Expr.carries (height + 1) index hresolved.2 hfit.2).append
      exact carries_elementCode height
  | .call name arguments, hresolved, hfit => by
      rw [Term.code, Scope.nameCode_eq_nil hfit.1]
      apply (Arguments.carries height arguments hresolved.2 hfit.2).append
      exact .call height _ (.nil _)
  | .callOn owner name arguments, hresolved, hfit => by
      rw [Term.code]
      apply carries_callOn hresolved.2.1 hfit.1
      intro height
      exact Arguments.carries height arguments hresolved.2.2 hfit.2

theorem Arguments.carries {σ : Scope} (height : Nat) : forall arguments : Arguments,
    arguments.Resolved σ -> arguments.NamesFit σ ->
    Carries height (arguments.code σ) (height + arguments.count)
  | .nil, _, _ => by
      rw [Arguments.code]
      exact .nil _
  | .cons first rest, hresolved, hfit => by
      have hrest := Arguments.carries (height + 1) rest hresolved.2 hfit.2
      rw [Arguments.code, Arguments.count, Nat.add_comm rest.count 1, ← Nat.add_assoc]
      exact (Expr.carries height first hresolved.1 hfit.1).append hrest

end

/-!
# Code of statements
-/

mutual

def Statement.NamesFit (σ : Scope) : Statement -> Prop
  | .assign _ value => value.NamesFit σ
  | .store _ index value => index.NamesFit σ ∧ value.NamesFit σ
  | .call _ arguments => arguments.NamesFit σ
  | .callOn _ _ arguments => arguments.NamesFit σ
  | .leave => True
  | .give value => value.NamesFit σ
  | .ifThen condition body => condition.NamesFit σ ∧ body.NamesFit σ
  | .ifElse condition body other => condition.NamesFit σ ∧ body.NamesFit σ ∧ other.NamesFit σ
  | .loop condition body => condition.NamesFit σ ∧ body.NamesFit σ

def Block.NamesFit (σ : Scope) : Block -> Prop
  | .nil => True
  | .cons first rest => first.NamesFit σ ∧ rest.NamesFit σ

end

/-- The object of a call counts as an argument just if it is pushed. -/
theorem carries_callCode {σ : Scope} {arguments : Arguments} (hresolved : arguments.Resolved σ)
    (hfit : arguments.NamesFit σ) (subroutine : String) (object : Option Place) :
    Carries 0 (callCode σ subroutine object arguments) 0 := by
  unfold callCode
  cases object with
  | none =>
      apply (Arguments.carries 0 arguments hresolved hfit).append
      exact .call 0 _ (.pop (.nil _))
  | some place =>
      apply Carries.push
      apply (Arguments.carries 1 arguments hresolved hfit).append
      have hheight : 1 + arguments.count = 0 + (arguments.count + 1) := by omega
      rw [hheight]
      exact .call 0 _ (.pop (.nil _))

mutual

theorem Statement.carries {σ : Scope} : forall (s : Statement) (label : Nat),
    s.Resolved σ -> s.NamesFit σ -> Carries 0 (s.code σ label) 0
  | .assign name value, label, hresolved, hfit => by
      rcases Option.isSome_iff_exists.mp hresolved.1 with ⟨place, hplace⟩
      rw [Statement.code, hplace]
      exact (value.carries 0 hresolved.2 hfit).append (.pop (.nil _))
  | .store name index value, label, hresolved, hfit => by
      rcases Option.isSome_iff_exists.mp hresolved.1 with ⟨place, hplace⟩
      rw [Statement.code, hplace]
      apply (index.carries 0 hresolved.2.1 hfit.1).append
      apply Carries.push
      apply Carries.command 0 (.operate .add) nofun trivial
      apply (value.carries 1 hresolved.2.2 hfit.2).append
      exact .pop (.pop (.push (.pop (.nil _))))
  | .call name arguments, label, hresolved, hfit => by
      rw [Statement.code]
      exact carries_callCode hresolved hfit _ _
  | .callOn owner name arguments, label, hresolved, hfit => by
      rw [Statement.code]
      exact carries_callCode hresolved.2 hfit _ _
  | .leave, label, _, _ => by
      rw [Statement.code]
      exact .push (.ret (.nil _))
  | .give value, label, hresolved, hfit => by
      rw [Statement.code]
      exact (value.carries 0 hresolved hfit).append (.ret (.nil _))
  | .ifThen condition body, label, hresolved, hfit => by
      rw [Statement.code]
      apply (condition.carries 0 hresolved.1 hfit.1).append
      apply Carries.ifGoto
      apply Carries.goto
      apply Carries.label
      apply (Block.carries body (label + 3) hresolved.2 hfit.2).append
      exact .goto (.label (.label (.nil _)))
  | .ifElse condition body other, label, hresolved, hfit => by
      rw [Statement.code]
      apply (condition.carries 0 hresolved.1 hfit.1).append
      apply Carries.ifGoto
      apply Carries.goto
      apply Carries.label
      apply (Block.carries body (label + 3) hresolved.2.1 hfit.2.1).append
      apply Carries.goto
      apply Carries.label
      apply (Block.carries other (label + 3 + body.labels) hresolved.2.2 hfit.2.2).append
      exact .label (.nil _)
  | .loop condition body, label, hresolved, hfit => by
      rw [Statement.code]
      apply Carries.label
      apply (condition.carries 0 hresolved.1 hfit.1).append
      apply Carries.command 0 (.operate .not) nofun trivial
      apply Carries.ifGoto
      apply (Block.carries body (label + 2) hresolved.2 hfit.2).append
      exact .goto (.label (.nil _))

theorem Block.carries {σ : Scope} : forall (block : Block) (label : Nat),
    block.Resolved σ -> block.NamesFit σ -> Carries 0 (block.code σ label) 0
  | .nil, label, _, _ => by
      rw [Block.code]
      exact .nil _
  | .cons first rest, label, hresolved, hfit => by
      rw [Block.code]
      exact (Statement.carries first label hresolved.1 hfit.1).append
        (Block.carries rest (label + first.labels) hresolved.2 hfit.2)

end

end Syntax

/-!
# Compiled statements
-/

/-- The tree of a block is what one compiler has written and the other has not. -/
def Compiler.Wrote (c : Compiler) (block : Block) (c' : Compiler) : Prop :=
  c'.tree = c.tree ++ (Tree.linesFrom c.depth block.marks).toArray

theorem Compiler.Wrote.unique {c c' : Compiler} {block other : Block}
    (h : c.Wrote block c') (hother : c.Wrote other c') : block = other := by
  unfold Compiler.Wrote at h hother
  rw [h, Array.append_right_inj] at hother
  have hlines := List.toArray_inj hother
  apply Block.marks_injective
  rw [← Tree.map_mark_linesFrom c.depth block.marks, hlines, Tree.map_mark_linesFrom]

/-- Statements that are compiled have one tree.  If the names in its terms fit, then the
code that was added keeps the stack. -/
theorem statements_keep_stack {c c' : Compiler} (hrun : statements.run c = .ok () c') :
    exists block code, c.Wrote block c' ∧ (forall other, c.Wrote other c' -> other = block) ∧
      c'.code.toList = c.code.toList ++ code ∧
      (block.NamesFit c.scope -> KeepsStack code) := by
  rcases statements_reads hrun with ⟨block, hresolved, hyields⟩
  have hwrote : c.Wrote block c' := hyields.tree
  refine ⟨block, block.code c.scope c.labels, hwrote, ?_, ?_, ?_⟩
  · intro other hother
    exact hother.unique hwrote
  · rw [hyields.code]
    simp
  · intro hfit
    exact (Block.carries block c.labels hresolved hfit).keepsStack

/-!
# Calls at hand

A loop with calls of functions, of a subroutine of the class and of a method, and with a
text.
-/

def printSizes : Block :=
  .cons
    (.loop
      (.mk (.var "i") (.cons .less (.callOn "Math" "max" (.cons (.mk (.var "x") .nil)
        (.cons (.mk (.integer "3") .nil) .nil))) .nil))
      (.cons
        (.callOn "Output" "printString" (.cons (.mk (.string "a<b") .nil) .nil))
        (.cons
          (.store "a" (.mk (.var "i") .nil)
            (.mk (.callOn "a" "size" .nil) (.cons .sub (.call "g" (.cons (.mk (.var "i") .nil)
              .nil)) .nil)))
          (.cons (.call "advance" .nil) .nil))))
    (.cons (.callOn "a" "dispose" .nil) (.cons .leave .nil))

def printSizesScanner : Scanner :=
  { rest :=
      ("i < Math.max(x, 3)) \x7b do Output.printString(\"a<b\"); " ++
        "let a[i] = a.size() - g(i); do advance(); \x7d do a.dispose(); return; \x7d").toList
    current := some (.keyword .while)
    next := some (.symbol .leftParen) }

theorem statements_keep_stack_of_calls :
    exists c' code, statements.run (Compiler.inSubroutine printSizesScanner) = .ok () c' ∧
      c'.code.toList = code ∧ KeepsStack code := by
  have hresolved : printSizes.Resolved (Compiler.inSubroutine printSizesScanner).scope := by
    simp only [printSizes, Block.Resolved, Statement.Resolved, Expr.Resolved,
      Operations.Resolved, Term.Resolved, Arguments.Resolved]
    decide +kernel
  have hfit : printSizes.NamesFit (Compiler.inSubroutine printSizesScanner).scope := by
    simp only [printSizes, Block.NamesFit, Statement.NamesFit, Expr.NamesFit,
      Operations.NamesFit, Term.NamesFit, Arguments.NamesFit]
    decide +kernel
  have hshows : printSizesScanner.Shows
      (Tree.leaves printSizes.marks ++ [.symbol .rightBrace]) := by
    refine ⟨_, _, rfl, rfl, Prod.ext ?_ (Option.isNone_iff_eq_none.mp ?_)⟩
    · decide +kernel
    · decide +kernel
  have hends := endsBlock_symbol .rightBrace []
  rcases accepts_block hresolved hends (List.cons_ne_nil _ _)
    (Compiler.inSubroutine printSizesScanner) ⟨rfl, rfl, rfl, hshows⟩ with ⟨c', hrun, hyields⟩
  rcases statements_keep_stack hrun with ⟨block, code, _, hunique, hcode, hkeeps⟩
  have hblock : printSizes = block := hunique printSizes hyields.tree
  rw [← hblock] at hkeeps
  exact ⟨c', code, hrun, hcode, hkeeps hfit⟩

end Jack
