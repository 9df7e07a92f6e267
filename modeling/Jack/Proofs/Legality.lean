import Jack.Proofs.Bounds
import Jack.Proofs.Undeclared

/-!
# Legal accesses

The machine pushes from a position in a segment and pops to one, but not to a constant.
Everything that the code of a class pushes or pops is of this form, with one exception.  A
statement may assign to the name of a subroutine, or call on it, and such a name has no
segment.  So the code is legal exactly if no statement does.
-/

namespace Jack

open Compile

/-!
# Commands and lines
-/

/-- A segment of the machine, and an index that is not negative. -/
def Place.IsLegal (place : Place) : Prop :=
  place.segment.isSome = true ∧ 0 ≤ place.index

/-- A push or a pop at a legal place.  Nothing is popped to a constant. -/
def Instr.IsLegal : Instr -> Prop
  | .push place _ => place.IsLegal
  | .pop place => place.IsLegal ∧ place.segment ≠ some .constant
  | _ => True

/-- The line begins like a push or a pop. -/
def IsAccess (line : String) : Prop :=
  "push".toList <+: line.toList ∨ "pop".toList <+: line.toList

instance (line : String) : Decidable (IsAccess line) :=
  inferInstanceAs (Decidable (_ ∨ _))

/-- A push or a pop as the machine reads it: the command, a segment and an index, and perhaps
a remark.  Nothing is popped to a constant. -/
def IsLegalAccess (line : String) : Prop :=
  exists (command : String) (segment : Segment) (index : Nat) (remark : String),
    line = command ++ " " ++ segment.word ++ " " ++ toString index ++ remark ∧
      (command = "push" ∨ command = "pop" ∧ segment ≠ .constant) ∧
      (remark = "" ∨ exists words, remark = " //" ++ words)

theorem Place.IsLegal.exists_text {place : Place} (h : place.IsLegal) :
    exists (segment : Segment) (index : Nat), place.segment = some segment ∧
      place.text = segment.word ++ " " ++ toString index := by
  rcases place with ⟨segment, index⟩
  cases segment with
  | none => cases h.1
  | some segment =>
      cases index with
      | ofNat n => exact ⟨segment, n, rfl, rfl⟩
      | negSucc n => exact absurd h.2 (by simp)

theorem Instr.isAccess_of_place? {instr : Instr} {place : Place} (h : instr.place? = some place) :
    IsAccess instr.text := by
  cases instr with
  | push found remark => exact Or.inl (by cases remark <;> simp [text])
  | pop found => exact Or.inr (by simp [text])
  | _ => cases h

/-- Whatever begins like a push or a pop is one. -/
theorem Instr.place?_of_isAccess {instr : Instr} (h : IsAccess instr.text) :
    instr.place?.isSome = true := by
  cases instr with
  | push => rfl
  | pop => rfl
  | operate operation => exact absurd h (by cases operation <;> decide)
  | ret => exact absurd h (by decide)
  | label | goto | ifGoto | function | call => exact absurd h (by simp [IsAccess, Instr.text])

theorem Instr.IsLegal.isLegalAccess {instr : Instr} (h : instr.IsLegal)
    (haccess : IsAccess instr.text) : IsLegalAccess instr.text := by
  cases instr with
  | push place remark =>
      rcases Place.IsLegal.exists_text h with ⟨segment, index, _, htext⟩
      cases remark with
      | none =>
          refine ⟨"push", segment, index, "", ?_, Or.inl rfl, Or.inl rfl⟩
          simp [Instr.text, htext, String.append_assoc]
      | some remark =>
          refine ⟨"push", segment, index, " //" ++ remark, ?_, Or.inl rfl, Or.inr ⟨remark, rfl⟩⟩
          simp [Instr.text, htext, String.append_assoc]
  | pop place =>
      rcases Place.IsLegal.exists_text h.1 with ⟨segment, index, hsegment, htext⟩
      have hconstant : segment ≠ .constant := fun hconstant =>
        h.2 (hsegment.trans (congrArg some hconstant))
      refine ⟨"pop", segment, index, "", ?_, Or.inr ⟨rfl, hconstant⟩, Or.inl rfl⟩
      simp [Instr.text, htext, String.append_assoc]
  | _ => cases Instr.place?_of_isAccess haccess

/-- The text of a place without a segment is no text of a segment. -/
theorem not_isLegalAccess_of_nowhere {instr : Instr} (h : instr.place? = some .nowhere) :
    ¬ IsLegalAccess instr.text := by
  rintro ⟨command, segment, index, remark, htext, hcommand, _⟩
  have hchars := congrArg String.toList htext
  rcases hcommand with rfl | ⟨rfl, _⟩
  · cases instr with
    | push place remark =>
        cases h
        cases remark <;> cases segment <;>
          simp [Instr.text, Place.text, Place.nowhere, Segment.word] at hchars
    | pop place => simp [Instr.text] at hchars
    | _ => cases h
  · cases instr with
    | pop place =>
        cases h
        cases segment <;> simp [Instr.text, Place.text, Place.nowhere, Segment.word] at hchars
    | push place remark => cases remark <;> simp [Instr.text] at hchars
    | _ => cases h

/-!
# Constants and addresses
-/

/-- If the command uses a place for constants and addresses, it does so legally. -/
def Instr.isTidy : Instr -> Bool
  | .push place _ => !place.isScratch || decide (0 ≤ place.index)
  | .pop place =>
      !place.isScratch || (decide (place.segment ≠ some .constant) && decide (0 ≤ place.index))
  | _ => true

theorem Place.isSome_segment_of_isScratch {place : Place} (h : place.isScratch = true) :
    place.segment.isSome = true := by
  rcases place with ⟨segment, index⟩
  cases segment with
  | none => cases h
  | some segment => rfl

theorem Place.segment_ne_constant {place : Place} (h : place.isScratch = false) :
    place.segment ≠ some .constant := by
  intro hconstant
  rw [isScratch, hconstant] at h
  cases h

theorem Instr.place?_of_access? {instr : Instr} {access : Access}
    (h : instr.access? = some access) : instr.place? = some access.place := by
  cases instr with
  | push place remark =>
      simp only [access?, Option.ite_none_left_eq_some, Option.some.injEq] at h
      rw [← h.2]
      rfl
  | pop place =>
      simp only [access?, Option.ite_none_left_eq_some, Option.some.injEq] at h
      rw [← h.2]
      rfl
  | _ => cases h

/-- A tidy command is legal if its access to a variable is, should it be one. -/
theorem Instr.isLegal_iff_of_isTidy {instr : Instr} (h : instr.isTidy = true) :
    instr.IsLegal ↔ forall access, instr.access? = some access -> access.place.IsLegal := by
  cases instr with
  | push place remark =>
      cases hscratch : place.isScratch with
      | true =>
          simp only [isTidy, hscratch, Bool.not_true, Bool.false_or, decide_eq_true_eq] at h
          simp [IsLegal, Place.IsLegal, access?, hscratch, h,
            Place.isSome_segment_of_isScratch hscratch]
      | false => simp [IsLegal, access?, hscratch, Access.place]
  | pop place =>
      cases hscratch : place.isScratch with
      | true =>
          simp only [isTidy, hscratch, Bool.not_true, Bool.false_or, Bool.and_eq_true,
            decide_eq_true_eq] at h
          simp [IsLegal, Place.IsLegal, access?, hscratch, h.1, h.2,
            Place.isSome_segment_of_isScratch hscratch]
      | false =>
          simp [IsLegal, access?, hscratch, Access.place, Place.segment_ne_constant hscratch]
  | _ => simp [IsLegal, access?]

/-- Tidy code is legal if its accesses to variables are. -/
theorem legal_iff_accesses {code : List Instr} (h : code.all Instr.isTidy = true) :
    (forall instr, instr ∈ code -> instr.IsLegal) ↔
      forall access, access ∈ accesses code -> access.place.IsLegal := by
  have htidy := List.all_eq_true.mp h
  constructor
  · intro hlegal access haccess
    rcases List.mem_filterMap.mp haccess with ⟨instr, hinstr, hsome⟩
    exact (Instr.isLegal_iff_of_isTidy (htidy instr hinstr)).mp (hlegal instr hinstr) access hsome
  · intro hlegal instr hinstr
    apply (Instr.isLegal_iff_of_isTidy (htidy instr hinstr)).mpr
    intro access hsome
    exact hlegal access (List.mem_filterMap.mpr ⟨instr, hinstr, hsome⟩)

namespace Syntax

theorem tidy_nameCode (σ : Scope) (name : String) :
    (σ.nameCode name).all Instr.isTidy = true := by
  have haccesses := σ.accesses_nameCode name
  unfold Scope.nameCode at haccesses ⊢
  cases hplace : σ.valuePlace name with
  | none => rfl
  | some place =>
      rw [hplace] at haccesses
      cases hscratch : place.isScratch with
      | true => simp [Instr.access?, hscratch, Scope.accessesOf, hplace] at haccesses
      | false => simp [Instr.isTidy, hscratch]

theorem tidy_stringCode (text : String) : (stringCode text).all Instr.isTidy = true := by
  simp [stringCode, Instr.pushConstant, Instr.isTidy, Place.constant]

mutual

theorem Expr.tidy_code (σ : Scope) : forall e : Expr, (e.code σ).all Instr.isTidy = true
  | .mk first rest => by
      rw [Expr.code, List.all_append, Term.tidy_code σ first, Operations.tidy_code σ rest]
      rfl

theorem Operations.tidy_code (σ : Scope) :
    forall rest : Operations, (rest.code σ).all Instr.isTidy = true
  | .nil => by
      rw [Operations.code]
      rfl
  | .cons op operand rest => by
      have hop : op.code.isTidy = true := by cases op <;> rfl
      rw [Operations.code, List.all_append, List.all_cons, hop, Term.tidy_code σ operand,
        Operations.tidy_code σ rest]
      rfl

theorem Term.tidy_code (σ : Scope) : forall t : Term, (t.code σ).all Instr.isTidy = true
  | .integer digits => by simp [Term.code, Instr.pushConstant, Instr.isTidy, Place.constant]
  | .string text => by
      rw [Term.code]
      exact tidy_stringCode _
  | .constant value => by
      rw [Term.code]
      cases value <;> rfl
  | .paren inner => by
      rw [Term.code]
      exact Expr.tidy_code σ inner
  | .unary op operand => by
      rw [Term.code, List.all_append, Term.tidy_code σ operand]
      cases op <;> rfl
  | .var name => by
      rw [Term.code]
      exact tidy_nameCode σ name
  | .element name index => by
      rw [Term.code, List.all_append, List.all_append, tidy_nameCode, Expr.tidy_code σ index]
      rfl
  | .call name arguments => by
      rw [Term.code, List.all_append, List.all_append, tidy_nameCode,
        Arguments.tidy_code σ arguments]
      rfl
  | .callOn owner name arguments => by
      rw [Term.code, List.all_append, List.all_append, tidy_nameCode,
        Arguments.tidy_code σ arguments]
      rfl

theorem Arguments.tidy_code (σ : Scope) :
    forall arguments : Arguments, (arguments.code σ).all Instr.isTidy = true
  | .nil => by
      rw [Arguments.code]
      rfl
  | .cons first rest => by
      rw [Arguments.code, List.all_append, Expr.tidy_code σ first, Arguments.tidy_code σ rest]
      rfl

end

section

variable {σ : Scope}

theorem tidy_base (h : σ.Ordinary) (name : String) (remark : Option String) :
    ((σ.targetPlace name).map fun place => Instr.push place remark).toList.all Instr.isTidy =
      true := by
  cases hplace : σ.targetPlace name with
  | none => rfl
  | some place => simp [Instr.isTidy, h.isScratch_targetPlace hplace]

theorem tidy_target (h : σ.Ordinary) (name : String) :
    ((σ.targetPlace name).map Instr.pop).toList.all Instr.isTidy = true := by
  cases hplace : σ.targetPlace name with
  | none => rfl
  | some place => simp [Instr.isTidy, h.isScratch_targetPlace hplace]

theorem tidy_callCode {object : Option Place} (h : (receiverCode object).all Instr.isTidy = true)
    (subroutine : String) (arguments : Arguments) :
    (callCode σ subroutine object arguments).all Instr.isTidy = true := by
  rw [callCode, List.all_append, List.all_append, h, arguments.tidy_code σ]
  rfl

end

mutual

theorem Statement.tidy_code {σ : Scope} (h : σ.Ordinary) :
    forall (s : Statement) (label : Nat), (s.code σ label).all Instr.isTidy = true
  | .assign name value, label => by
      rw [Statement.code, List.all_append, value.tidy_code σ, tidy_target h]
      rfl
  | .store name index value, label => by
      rw [Statement.code, List.all_append, List.all_append, List.all_cons, List.all_append,
        index.tidy_code σ, tidy_base h, value.tidy_code σ]
      rfl
  | .call name arguments, label => by
      rw [Statement.code]
      exact tidy_callCode rfl _ arguments
  | .callOn owner name arguments, label => by
      rw [Statement.code]
      apply tidy_callCode
      rw [h.object_receiver]
      exact tidy_base h owner _
  | .leave, label => by
      rw [Statement.code]
      rfl
  | .give value, label => by
      rw [Statement.code, List.all_append, value.tidy_code σ]
      rfl
  | .ifThen condition body, label => by
      simp [Statement.code, condition.tidy_code σ, Block.tidy_code h body, Instr.isTidy]
  | .ifElse condition body other, label => by
      simp [Statement.code, condition.tidy_code σ, Block.tidy_code h body,
        Block.tidy_code h other, Instr.isTidy]
  | .loop condition body, label => by
      simp [Statement.code, condition.tidy_code σ, Block.tidy_code h body, Instr.isTidy]

theorem Block.tidy_code {σ : Scope} (h : σ.Ordinary) :
    forall (block : Block) (label : Nat), (block.code σ label).all Instr.isTidy = true
  | .nil, label => by
      rw [Block.code]
      rfl
  | .cons first rest, label => by
      rw [Block.code, List.all_append, Statement.tidy_code h first, Block.tidy_code h rest]
      rfl

end

/-!
# Names that statements are about
-/

/-- The name that a statement assigns to or calls on.  Its place is written whatever the name
is filed for. -/
def Occurrence.subject? : Occurrence -> Option String
  | .value _ => none
  | .base name => some name
  | .target name => some name

/-- The names that the statements of a block assign to or call on. -/
def Block.subjects (block : Block) : List String :=
  block.occurrences.filterMap Occurrence.subject?

section

variable {unit : Class} {σ : Scope} {label : Nat} {before after : List Placed} {p : Placed}
  {begun : List Subroutine}

theorem Class.begun_subset_of_placed (h : unit.placed σ label = before ++ p :: after) :
    before.map Placed.subroutine ++ [p.subroutine] ⊆ unit.subroutines := by
  have hsubroutines : (unit.placed σ label).map Placed.subroutine = unit.subroutines :=
    map_subroutine_placeAll _ _ _
  rw [h, List.map_append, List.map_cons] at hsubroutines
  rw [← hsubroutines]
  intro s hs
  rw [List.mem_append, List.mem_singleton] at hs
  rw [List.mem_append, List.mem_cons]
  exact hs.imp_right Or.inl

theorem Class.isLegal_of_stored (h : unit.placed σ label = before ++ p :: after) {name : String}
    {e : Entry} {storage : Storage} (hentry : p.scope.entry name = some (some e))
    (hstanding : e.standing = .known (.stored storage)) : e.place.IsLegal := by
  have hplaced := (Class.inside_of_placed h hentry).1
  have hsegment : e.segment.isSome = true := by
    rw [hplaced.1, hstanding]
    rfl
  rcases hplaced.2 hsegment with ⟨n, hindex⟩
  exact ⟨hsegment, by simp [Entry.place, hindex]⟩

/-- The place that a statement finds for a name: a legal one for a variable, and none in any
segment for a subroutine. -/
theorem Class.targetPlace_cases (h : unit.placed σ label = before ++ p :: after)
    (hbegun : begun = before.map Placed.subroutine ++ [p.subroutine]) (name : String) :
    (p.subroutine.Loses begun name ∧ p.scope.targetPlace name = some .nowhere) ∨
      (¬ p.subroutine.Loses begun name ∧
        forall place, p.scope.targetPlace name = some place -> place.IsLegal) := by
  rcases Class.entry_cases h hbegun name with
    ⟨e, storage, hentry, hstanding, _, hkept⟩ | ⟨s, hentry, hloses⟩ | ⟨hentry, _, hfree⟩
  · refine Or.inr ⟨hkept, ?_⟩
    intro place hplace
    simp only [Scope.targetPlace, hentry, Option.join_some, Option.map_some,
      Option.some.injEq] at hplace
    rw [← hplace]
    exact Class.isLegal_of_stored h hentry hstanding
  · exact Or.inl ⟨hloses, (Scope.places_of_subroutine hentry).2⟩
  · refine Or.inr ⟨fun hloses => hfree hloses.2, ?_⟩
    intro place hplace
    rw [(Scope.places_of_none hentry).2] at hplace
    cases hplace

theorem Class.isLegal_valuePlace (h : unit.placed σ label = before ++ p :: after) {name : String}
    {place : Place} (hplace : p.scope.valuePlace name = some place) : place.IsLegal := by
  have hstored := (p.scope.isSome_valuePlace_iff name).mp (by rw [hplace]; rfl)
  rcases hstored with ⟨e, storage, hentry, hstanding⟩
  have hlegal := Class.isLegal_of_stored h hentry hstanding
  simp only [Scope.valuePlace, hentry, Option.join_some, Option.bind_some, hstanding,
    Standing.segment?, Category.segment?, Option.map_some, Option.some.injEq] at hplace
  rw [← hplace]
  exact ⟨rfl, hlegal.2⟩

/-- An access is legal, or it is that of a statement about the name of a subroutine. -/
theorem Class.legal_or_nowhere (h : unit.placed σ label = before ++ p :: after)
    (hbegun : begun = before.map Placed.subroutine ++ [p.subroutine]) {occurrence : Occurrence}
    {access : Access} (haccess : access ∈ p.scope.accessesOf occurrence) :
    access.place.IsLegal ∨
      access.place = .nowhere ∧
        exists name, occurrence.subject? = some name ∧ p.subroutine.Loses begun name := by
  have hsubject : forall name place, p.scope.targetPlace name = some place ->
      occurrence.subject? = some name ->
      place.IsLegal ∨ place = .nowhere ∧
        exists name, occurrence.subject? = some name ∧ p.subroutine.Loses begun name := by
    intro name place hplace hname
    rcases Class.targetPlace_cases h hbegun name with ⟨hloses, hnowhere⟩ | ⟨_, hlegal⟩
    · rw [hnowhere, Option.some.injEq] at hplace
      exact Or.inr ⟨hplace.symm, name, hname, hloses⟩
    · exact Or.inl (hlegal place hplace)
  cases occurrence with
  | value name =>
      rcases Option.map_eq_some_iff.mp (Option.mem_toList.mp haccess) with ⟨place, hplace, rfl⟩
      exact Or.inl (Class.isLegal_valuePlace h hplace)
  | base name =>
      rcases Option.map_eq_some_iff.mp (Option.mem_toList.mp haccess) with ⟨place, hplace, rfl⟩
      exact hsubject name place hplace rfl
  | target name =>
      rcases Option.map_eq_some_iff.mp (Option.mem_toList.mp haccess) with ⟨place, hplace, rfl⟩
      exact hsubject name place hplace rfl

/-- A statement about the name of a subroutine makes an access in no segment. -/
theorem Class.exists_access_nowhere (h : unit.placed σ label = before ++ p :: after)
    (hbegun : begun = before.map Placed.subroutine ++ [p.subroutine]) {occurrence : Occurrence}
    {name : String} (hname : occurrence.subject? = some name)
    (hloses : p.subroutine.Loses begun name) :
    exists access, access ∈ p.scope.accessesOf occurrence ∧ access.place = .nowhere := by
  have hplace : p.scope.targetPlace name = some .nowhere := by
    rcases Class.targetPlace_cases h hbegun name with ⟨_, hnowhere⟩ | ⟨hkept, _⟩
    · exact hnowhere
    · exact absurd hloses hkept
  cases occurrence with
  | value name => cases hname
  | base name =>
      cases hname
      exact ⟨.push .nowhere, by simp [Scope.accessesOf, hplace], rfl⟩
  | target name =>
      cases hname
      exact ⟨.pop .nowhere, by simp [Scope.accessesOf, hplace], rfl⟩

/-!
# Blocks of subroutines
-/

theorem Subroutine.tidy_prologue (s : Subroutine) (size : Nat) :
    (s.prologue size).all Instr.isTidy = true := by
  unfold Subroutine.prologue
  split
  · rfl
  · cases s.kind with
    | constructor => simp [SubroutineKind.prologue, Instr.isTidy, Instr.pushConstant,
        Place.constant, Place.pointer]
    | function => rfl
    | method => rfl

theorem Subroutine.legal_prologue (s : Subroutine) (size : Nat) {access : Access}
    (haccess : access ∈ accesses (s.prologue size)) : access.place.IsLegal := by
  unfold Subroutine.prologue at haccess
  split at haccess
  · cases haccess
  · cases hkind : s.kind with
    | constructor =>
        rw [hkind] at haccess
        cases haccess
    | function =>
        rw [hkind] at haccess
        cases haccess
    | method =>
        rw [hkind] at haccess
        have hfirst : access = .push (.argument 0) := List.mem_singleton.mp haccess
        rw [hfirst]
        exact ⟨rfl, Int.le_refl 0⟩

theorem Placed.tidy_block (h : unit.placed σ label = before ++ p :: after) (className : String)
    (size : Nat) : (p.block className size).all Instr.isTidy = true := by
  rw [Placed.block, List.all_cons, List.all_append, p.subroutine.tidy_prologue,
    Block.tidy_code (Class.ordinary_of_placed h)]
  rfl

theorem Placed.mem_accesses_block_iff (h : unit.placed σ label = before ++ p :: after)
    (className : String) (size : Nat) (access : Access) :
    access ∈ accesses (p.block className size) ↔
      access ∈ accesses (p.subroutine.prologue size) ∨
        exists occurrence, occurrence ∈ p.subroutine.body.block.occurrences ∧
          access ∈ p.scope.accessesOf occurrence := by
  rw [Placed.block, accesses_cons, accesses_append,
    Block.accesses_code (Class.ordinary_of_placed h)]
  simp [Instr.access?]

/-- A command of a block is legal, or it has the place of a subroutine. -/
theorem Placed.legal_or_nowhere (h : unit.placed σ label = before ++ p :: after)
    {className : String} {size : Nat} {instr : Instr} (hinstr : instr ∈ p.block className size) :
    instr.IsLegal ∨ instr.place? = some .nowhere := by
  by_cases hlegal : instr.IsLegal
  · exact Or.inl hlegal
  · apply Or.inr
    have htidy := List.all_eq_true.mp (Placed.tidy_block h className size) instr hinstr
    rw [Instr.isLegal_iff_of_isTidy htidy] at hlegal
    simp only [not_forall] at hlegal
    rcases hlegal with ⟨access, hsome, hillegal⟩
    have hmem : access ∈ accesses (p.block className size) :=
      List.mem_filterMap.mpr ⟨instr, hinstr, hsome⟩
    rcases (Placed.mem_accesses_block_iff h className size access).mp hmem with
      hprologue | ⟨occurrence, _, haccess⟩
    · exact absurd (p.subroutine.legal_prologue size hprologue) hillegal
    · rcases Class.legal_or_nowhere h rfl haccess with hfine | ⟨hnowhere, _⟩
      · exact absurd hfine hillegal
      · rw [← hnowhere]
        exact Instr.place?_of_access? hsome

/-- A block is legal exactly if its statements are not about names of subroutines. -/
theorem Placed.legal_block_iff (h : unit.placed σ label = before ++ p :: after)
    (hbegun : begun = before.map Placed.subroutine ++ [p.subroutine]) (className : String)
    (size : Nat) :
    (forall instr, instr ∈ p.block className size -> instr.IsLegal) ↔
      forall name, name ∈ p.subroutine.body.block.subjects ->
        ¬ p.subroutine.Loses begun name := by
  rw [legal_iff_accesses (Placed.tidy_block h className size)]
  constructor
  · intro hlegal name hname hloses
    rcases List.mem_filterMap.mp hname with ⟨occurrence, hoccurrence, hsubject⟩
    rcases Class.exists_access_nowhere h hbegun hsubject hloses with ⟨access, haccess, hnowhere⟩
    have hplace := hlegal access
      ((Placed.mem_accesses_block_iff h className size access).mpr
        (Or.inr ⟨occurrence, hoccurrence, haccess⟩))
    rw [hnowhere] at hplace
    cases hplace.1
  · intro hkept access hmem
    rcases (Placed.mem_accesses_block_iff h className size access).mp hmem with
      hprologue | ⟨occurrence, hoccurrence, haccess⟩
    · exact p.subroutine.legal_prologue size hprologue
    · rcases Class.legal_or_nowhere h hbegun haccess with hfine | ⟨_, name, hsubject, hloses⟩
      · exact hfine
      · exact absurd hloses
          (hkept name (List.mem_filterMap.mpr ⟨occurrence, hoccurrence, hsubject⟩))

end

end Syntax

open Syntax

/-- The code of an accepted class is one block for each of its subroutines.  Every line of a
block that begins like a push or a pop is legal, but for those that have the place of a
subroutine.  All of them are legal exactly if the statements of the subroutine neither assign
to nor call on the name of a subroutine that has begun, unless it is the name of a parameter
or a variable. -/
theorem accesses_legal_iff {c : Compiler} {text : String} (h : (c.compile text).fault = none) :
    exists unit : Syntax.Class, unit.WrittenIn (tokenize text).1 ∧
      (c.compile text).written =
        some ((unit.placed c.scope c.labels).flatMap (Placed.block unit.name unit.size),
          Tree.linesFrom 0 unit.marks) ∧
      forall before p after begun, unit.placed c.scope c.labels = before ++ p :: after ->
        begun = before.map Placed.subroutine ++ [p.subroutine] ->
        (forall instr, instr ∈ p.block unit.name unit.size -> IsAccess instr.text ->
          IsLegalAccess instr.text ∨ instr.place? = some .nowhere) ∧
        ((forall instr, instr ∈ p.block unit.name unit.size -> IsAccess instr.text ->
            IsLegalAccess instr.text) ↔
          forall name, name ∈ p.subroutine.body.block.subjects ->
            ¬ p.subroutine.Loses begun name) := by
  rcases Compiler.exists_written_of_compile h with ⟨unit, htokens, hwritten⟩
  rw [Class.code_eq_blocks htokens] at hwritten
  refine ⟨unit, htokens, hwritten, ?_⟩
  intro before p after begun hplaced hbegun
  refine ⟨?_, ?_⟩
  · intro instr hinstr haccess
    exact (Placed.legal_or_nowhere hplaced hinstr).imp (fun hlegal => hlegal.isLegalAccess haccess)
      id
  · rw [← Placed.legal_block_iff hplaced hbegun unit.name unit.size]
    refine forall₂_congr fun instr hinstr => ?_
    constructor
    · intro hline
      rcases Placed.legal_or_nowhere hplaced hinstr with hlegal | hnowhere
      · exact hlegal
      · exact absurd (hline (Instr.isAccess_of_place? hnowhere))
          (not_isLegalAccess_of_nowhere hnowhere)
    · intro hlegal haccess
      exact hlegal.isLegalAccess haccess

theorem accesses_legal_of_account :
    (({} : Compiler).compile Syntax.Class.account.text).fault = none ∧
      forall before p after,
        Syntax.Class.account.placed ({} : Compiler).scope ({} : Compiler).labels =
            before ++ p :: after ->
          forall instr, instr ∈ p.block "Account" 3 -> IsAccess instr.text ->
            IsLegalAccess instr.text := by
  have htokens := Token.tokenize_print Syntax.Class.isLexeme_account
  rcases Compiler.compile_of_resolved htokens Syntax.Class.clear_account.resolved with
    ⟨hfault, haccount⟩
  rcases accesses_legal_iff hfault with ⟨unit, _, hunit, hlegal⟩
  cases Class.eq_of_written hunit haccount
  refine ⟨hfault, ?_⟩
  intro before p after hplaced
  apply (hlegal before p after _ hplaced rfl).2.mpr
  intro name hname hloses
  have hsubjects : forall s, s ∈ Syntax.Class.account.subroutines ->
      forall name, name ∈ s.body.block.subjects ->
        name ∉ Syntax.Class.account.subroutines.map Subroutine.name := by
    decide +kernel
  refine hsubjects p.subroutine (Class.mem_of_placed hplaced) name hname ?_
  exact List.map_subset _ (Class.begun_subset_of_placed hplaced) hloses.2

/-- A class with a function that assigns to its own name. -/
def Syntax.Class.selfAssigned : Syntax.Class where
  name := "A"
  vars := []
  subroutines :=
    [⟨.function, none, "f", [],
      ⟨[], .cons (.assign "f" (.mk (.integer "1") .nil)) (.cons .leave .nil)⟩⟩]

def selfAssignedText : String :=
  "class A \x7b function void f() \x7b let f = 1; return; \x7d \x7d"

/-- The assignment is compiled to a pop that names no segment. -/
theorem subroutine_assigned :
    (tokenize selfAssignedText).1 = Syntax.Class.selfAssigned.tokens ∧
      (({} : Compiler).compile selfAssignedText).fault = none ∧
      (({} : Compiler).compile selfAssignedText).written.map Prod.fst =
        some [.function "A.f" 0, .pushConstant 1, .pop .nowhere, .pushConstant 0, .ret] ∧
      (Instr.pop .nowhere).text = "pop None -1" ∧ IsAccess "pop None -1" ∧
      ¬ IsLegalAccess "pop None -1" := by
  refine ⟨by decide +kernel, by decide +kernel, by decide +kernel, rfl, by decide, ?_⟩
  exact not_isLegalAccess_of_nowhere
    (show (Instr.pop .nowhere).place? = some .nowhere from rfl)

end Jack
