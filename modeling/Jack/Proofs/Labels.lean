import Mathlib.Data.List.Nodup
import Jack.Proofs.Machine
import Jack.Proofs.Scope

/-!
# Labels of compiled code

Code that draws its labels from a given number on defines only labels that it has
drawn, and each of them at most once.  So every jump within a program finds the label
where the code defines it.
-/

namespace Jack

/-- The labels that code defines, in their order. -/
def definedLabels (code : List Instr) : List Nat :=
  code.filterMap fun
    | .label number => some number
    | _ => none

@[simp] theorem definedLabels_append (first second : List Instr) :
    definedLabels (first ++ second) = definedLabels first ++ definedLabels second := by
  simp [definedLabels]

@[simp] theorem definedLabels_nil : definedLabels [] = [] := rfl

@[simp] theorem definedLabels_label (number : Nat) (rest : List Instr) :
    definedLabels (.label number :: rest) = number :: definedLabels rest := rfl

@[simp] theorem definedLabels_goto (number : Nat) (rest : List Instr) :
    definedLabels (.goto number :: rest) = definedLabels rest := rfl

@[simp] theorem definedLabels_ifGoto (number : Nat) (rest : List Instr) :
    definedLabels (.ifGoto number :: rest) = definedLabels rest := rfl

@[simp] theorem definedLabels_operate (op : Operation) (rest : List Instr) :
    definedLabels (.operate op :: rest) = definedLabels rest := rfl

theorem definedLabels_cons_eq_nil {instr : Instr} {rest : List Instr}
    (h : definedLabels (instr :: rest) = []) :
    definedLabels [instr] = [] ∧ definedLabels rest = [] := by
  apply List.append_eq_nil_iff.mp
  rw [← definedLabels_append]
  exact h

theorem mem_definedLabels {number : Nat} {code : List Instr} :
    number ∈ definedLabels code ↔ .label number ∈ code := by
  induction code with
  | nil => simp
  | cons instr rest ih =>
      cases instr with
      | label found => simp [ih]
      | _ => simpa [definedLabels] using ih

theorem labelPosition_append {number : Nat} {before after : List Instr}
    (h : .label number ∉ before) :
    labelPosition (before ++ .label number :: after) number = some before.length := by
  unfold labelPosition
  induction before with
  | nil => simp [List.findIdx?_cons]
  | cons instr rest ih =>
      have hne : instr ≠ .label number := fun heq => h (by simp [heq])
      have hrest : .label number ∉ rest := fun hmem => h (List.mem_cons_of_mem _ hmem)
      rw [List.cons_append, List.findIdx?_cons, decide_eq_false hne, ih hrest]
      rfl

/-- Code whose labels are pairwise different is located where it stands, if no label of
it is defined before. -/
theorem located_of_nodup {before code after : List Instr} (hnodup : (definedLabels code).Nodup)
    (hbefore : forall number, number ∈ definedLabels code -> .label number ∉ before) :
    Located (before ++ code ++ after) before.length code := by
  intro i instr hi
  rcases List.getElem?_eq_some_iff.mp hi with ⟨hlt, hget⟩
  have hsplit : code = code.take i ++ instr :: code.drop (i + 1) := by
    rw [← hget, ← List.drop_eq_getElem_cons hlt, List.take_append_drop]
  have hposition : (before ++ code.take i).length = before.length + i := by
    rw [List.length_append, List.length_take, Nat.min_eq_left (Nat.le_of_lt hlt)]
  have hprogram : before ++ code ++ after =
      (before ++ code.take i) ++ instr :: (code.drop (i + 1) ++ after) := by
    conv_lhs => rw [hsplit]
    simp
  constructor
  · rw [hprogram, ← hposition]
    simp
  · intro number hlabel
    subst hlabel
    rw [hprogram, ← hposition]
    apply labelPosition_append
    rw [hsplit] at hnodup hbefore
    rw [definedLabels_append, definedLabels_label] at hnodup
    intro hmem
    rcases List.mem_append.mp hmem with hin | hin
    · exact hbefore number (by simp) hin
    · exact (List.nodup_append.mp hnodup).2.2 number (mem_definedLabels.mpr hin) number
        List.mem_cons_self rfl

/-- Neither the definition of a label nor a jump nor the start of a function. -/
def Instr.isPlain : Instr -> Bool
  | .label _ => false
  | .goto _ => false
  | .ifGoto _ => false
  | .function _ _ => false
  | _ => true

theorem definedLabels_of_plain {code : List Instr} (h : code.all Instr.isPlain = true) :
    definedLabels code = [] := by
  apply List.eq_nil_iff_forall_not_mem.mpr
  intro number hmem
  have hplain := List.all_eq_true.mp h _ (mem_definedLabels.mp hmem)
  cases hplain

namespace Syntax

open Compile

/-!
# Expressions are plain
-/

theorem plain_nameCode (σ : Scope) (name : String) :
    (σ.nameCode name).all Instr.isPlain = true := by
  unfold Scope.nameCode
  cases σ.valuePlace name <;> rfl

theorem plain_stringCode (text : String) : (stringCode text).all Instr.isPlain = true := by
  simp [stringCode, Instr.pushConstant, Instr.isPlain]

mutual

theorem Expr.plain_code (σ : Scope) : forall e : Expr, (e.code σ).all Instr.isPlain = true
  | .mk first rest => by
      simp only [Expr.code, List.all_append, Term.plain_code σ first,
        Operations.plain_code σ rest, Bool.and_self]

theorem Operations.plain_code (σ : Scope) :
    forall rest : Operations, (rest.code σ).all Instr.isPlain = true
  | .nil => by rw [Operations.code]; rfl
  | .cons op operand rest => by
      have hop : op.code.isPlain = true := by cases op <;> rfl
      simp only [Operations.code, List.all_append, List.all_cons, hop,
        Term.plain_code σ operand, Operations.plain_code σ rest, Bool.and_self]

theorem Term.plain_code (σ : Scope) : forall t : Term, (t.code σ).all Instr.isPlain = true
  | .integer digits => by rw [Term.code]; rfl
  | .string text => by
      rw [Term.code]
      exact plain_stringCode _
  | .constant value => by
      rw [Term.code]
      cases value <;> rfl
  | .paren inner => by
      rw [Term.code]
      exact Expr.plain_code σ inner
  | .unary op operand => by
      rw [Term.code, List.all_append, Term.plain_code σ operand]
      cases op <;> rfl
  | .var name => by
      rw [Term.code]
      exact plain_nameCode σ name
  | .element name index => by
      rw [Term.code, List.all_append, List.all_append, plain_nameCode, Expr.plain_code σ index]
      rfl
  | .call name arguments => by
      rw [Term.code, List.all_append, List.all_append, plain_nameCode,
        Arguments.plain_code σ arguments]
      rfl
  | .callOn owner name arguments => by
      rw [Term.code, List.all_append, List.all_append, plain_nameCode,
        Arguments.plain_code σ arguments]
      rfl

theorem Arguments.plain_code (σ : Scope) :
    forall arguments : Arguments, (arguments.code σ).all Instr.isPlain = true
  | .nil => by rw [Arguments.code]; rfl
  | .cons first rest => by
      simp only [Arguments.code, List.all_append, Expr.plain_code σ first,
        Arguments.plain_code σ rest, Bool.and_self]

end

theorem Expr.definedLabels_code (σ : Scope) (e : Expr) : definedLabels (e.code σ) = [] :=
  definedLabels_of_plain (e.plain_code σ)

/-- Neither a conditional statement nor a loop. -/
def Statement.isSimple : Statement -> Bool
  | .ifThen _ _ => false
  | .ifElse _ _ _ => false
  | .loop _ _ => false
  | _ => true

theorem plain_callCode (σ : Scope) (subroutine : String) (object : Option Place)
    (arguments : Arguments) :
    (callCode σ subroutine object arguments).all Instr.isPlain = true := by
  unfold callCode receiverCode
  rw [List.all_append, List.all_append, arguments.plain_code σ]
  cases object <;> rfl

theorem Statement.plain_code (σ : Scope) {s : Statement} (h : s.isSimple = true) (label : Nat) :
    (s.code σ label).all Instr.isPlain = true := by
  cases s with
  | assign name value =>
      rw [Statement.code, List.all_append, value.plain_code σ]
      cases σ.targetPlace name <;> rfl
  | store name index value =>
      have hstore : storeCode.all Instr.isPlain = true := rfl
      rw [Statement.code, List.all_append, List.all_append, List.all_cons, List.all_append,
        index.plain_code σ, value.plain_code σ, hstore]
      cases σ.targetPlace name <;> rfl
  | call name arguments =>
      rw [Statement.code]
      exact plain_callCode σ _ _ arguments
  | callOn owner name arguments =>
      rw [Statement.code]
      exact plain_callCode σ _ _ arguments
  | leave => rfl
  | give value =>
      rw [Statement.code, List.all_append, value.plain_code σ]
      rfl
  | ifThen condition body => cases h
  | ifElse condition body other => cases h
  | loop condition body => cases h

/-!
# Statements define what they draw
-/

/-- The numbers are drawn from a range that starts at a given one, none of them twice. -/
def Drawn (label labels : Nat) (numbers : List Nat) : Prop :=
  numbers.Nodup ∧ forall number, number ∈ numbers -> label ≤ number ∧ number < label + labels

theorem drawn_nil (label labels : Nat) : Drawn label labels [] := by
  constructor
  · exact List.nodup_nil
  · intro number hmem
    cases hmem

theorem drawn_range (label labels : Nat) : Drawn label labels (List.range' label labels) := by
  constructor
  · exact List.nodup_range'
  · intro number hmem
    exact List.mem_range'_1.mp hmem

theorem Drawn.append {label labels labels' : Nat} {first second : List Nat}
    (hfirst : Drawn label labels first) (hsecond : Drawn (label + labels) labels' second) :
    Drawn label (labels + labels') (first ++ second) := by
  constructor
  · apply List.nodup_append.mpr
    refine ⟨hfirst.1, hsecond.1, ?_⟩
    intro number hmem other hmem' heq
    have hlow := (hfirst.2 number hmem).2
    have hhigh := (hsecond.2 other hmem').1
    omega
  · intro number hmem
    rcases List.mem_append.mp hmem with hin | hin
    · have hbounds := hfirst.2 number hin
      omega
    · have hbounds := hsecond.2 number hin
      omega

theorem Drawn.left {label labels : Nat} {first second : List Nat}
    (h : Drawn label labels (first ++ second)) : Drawn label labels first := by
  constructor
  · exact (List.nodup_append.mp h.1).1
  · intro number hmem
    exact h.2 number (List.mem_append_left second hmem)

theorem Drawn.perm {label labels : Nat} {numbers other : List Nat}
    (h : Drawn label labels numbers) (hperm : other.Perm numbers) :
    Drawn label labels other := by
  constructor
  · exact hperm.nodup_iff.mpr h.1
  · intro number hmem
    exact h.2 number (hperm.mem_iff.mp hmem)

theorem Statement.drawn_of_simple (σ : Scope) {s : Statement} (h : s.isSimple = true)
    (label : Nat) : Drawn label s.labels (definedLabels (s.code σ label)) := by
  rw [definedLabels_of_plain (s.plain_code σ h label)]
  exact drawn_nil label _

mutual

theorem Statement.drawn_definedLabels (σ : Scope) :
    forall (s : Statement) (label : Nat),
      Drawn label s.labels (definedLabels (s.code σ label))
  | .assign _ _, label => Statement.drawn_of_simple σ rfl label
  | .store _ _ _, label => Statement.drawn_of_simple σ rfl label
  | .call _ _, label => Statement.drawn_of_simple σ rfl label
  | .callOn _ _ _, label => Statement.drawn_of_simple σ rfl label
  | .leave, label => Statement.drawn_of_simple σ rfl label
  | .give _, label => Statement.drawn_of_simple σ rfl label
  | .ifThen condition body, label => by
      have hbody := Block.drawn_definedLabels σ body (label + 3)
      have hown : Drawn label 3 [label, label + 1, label + 2] := drawn_range label 3
      rw [Statement.labels]
      apply (hown.append hbody).perm
      apply List.perm_iff_count.mpr
      intro number
      simp only [Statement.code, condition.definedLabels_code σ, definedLabels_append,
        definedLabels_ifGoto, definedLabels_goto, definedLabels_label, definedLabels_nil,
        List.count_append, List.count_cons, List.count_nil]
      omega
  | .ifElse condition body other, label => by
      have hbody := Block.drawn_definedLabels σ body (label + 3)
      have hother := Block.drawn_definedLabels σ other (label + 3 + body.labels)
      have hown : Drawn label 3 [label, label + 1, label + 2] := drawn_range label 3
      rw [Statement.labels]
      apply (hown.append (hbody.append hother)).perm
      apply List.perm_iff_count.mpr
      intro number
      simp only [Statement.code, condition.definedLabels_code σ, definedLabels_append,
        definedLabels_ifGoto, definedLabels_goto, definedLabels_label, definedLabels_nil,
        List.count_append, List.count_cons, List.count_nil]
      omega
  | .loop condition body, label => by
      have hbody := Block.drawn_definedLabels σ body (label + 2)
      have hown : Drawn label 2 [label, label + 1] := drawn_range label 2
      rw [Statement.labels]
      apply (hown.append hbody).perm
      apply List.perm_iff_count.mpr
      intro number
      simp only [Statement.code, condition.definedLabels_code σ, definedLabels_append,
        definedLabels_operate, definedLabels_ifGoto, definedLabels_goto, definedLabels_label,
        definedLabels_nil, List.count_append, List.count_cons, List.count_nil]
      omega

theorem Block.drawn_definedLabels (σ : Scope) :
    forall (block : Block) (label : Nat),
      Drawn label block.labels (definedLabels (block.code σ label))
  | .nil, label => drawn_nil label _
  | .cons first rest, label => by
      have hfirst := Statement.drawn_definedLabels σ first label
      have hrest := Block.drawn_definedLabels σ rest (label + first.labels)
      rw [Block.code, Block.labels, definedLabels_append]
      exact hfirst.append hrest

end

end Syntax
end Jack
