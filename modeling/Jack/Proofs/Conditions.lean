import Jack.Proofs.Simulation.Statement

/-!
# Conditions of loops and branches

A loop negates its condition bit by bit and is left unless nothing remains, so its body is
entered if all bits of the condition are set.  A branch is taken if any bit is set.  On truth
values this is the same.  On other words, such as the number one, a branch is taken and a loop
is left.
-/

namespace Jack

open Compile Syntax

/-!
# Runs that end within a part of a program
-/

namespace Config

section

variable {library : Library} {program : List Instr} {low high : Nat} {s t u : Config}

/-- Behind a configuration that has no next one, or is not below the upper position any more,
the run does not go on. -/
theorem Through.eq_of_final (h : Through library program low high s t)
    (hfinal : high ≤ s.position ∨ s.next library program = none) : t = s := by
  rcases Relation.ReflTransGen.cases_head h with heq | ⟨u, ⟨_, hhigh, hnext⟩, _⟩
  · exact heq.symm
  · rcases hfinal with hle | hnone
    · omega
    · rw [hnone] at hnext
      cases hnext

/-- There is only one configuration at which a run ends. -/
theorem Through.eq_of_finals (hfirst : Through library program low high s t)
    (hsecond : Through library program low high s u)
    (ht : high ≤ t.position ∨ t.next library program = none)
    (hu : high ≤ u.position ∨ u.next library program = none) : u = t := by
  have hunique : Relator.RightUnique fun s t : Config =>
      low ≤ s.position ∧ s.position < high ∧ s.next library program = some t := by
    intro s t u ht hu
    exact Option.some.inj (ht.2.2.symm.trans hu.2.2)
  rcases Relation.ReflTransGen.total_of_right_unique hunique hfirst hsecond with h | h
  · exact eq_of_final h ht
  · exact (eq_of_final h hu).symm

/-- A command without a jump that cannot be executed ends the run. -/
theorem next_eq_none_of_execute {position : Nat} {m : Machine} {instr : Instr}
    (hinstr : program[position]? = some instr) (hplain : instr.isPlain = true)
    (h : m.execute library instr = none) : next library program ⟨position, m⟩ = none := by
  unfold next
  simp only [hinstr]
  cases instr with
  | push place remark => simp only [h, Option.map_none]
  | pop place => simp only [h, Option.map_none]
  | operate operation => simp only [h, Option.map_none]
  | call name count => simp only [h, Option.map_none]
  | ret => rfl
  | label number => cases hplain
  | goto number => cases hplain
  | ifGoto number => cases hplain
  | function name locals => cases hplain

/-- Code without jumps that cannot be executed to its end ends the run on the way. -/
theorem exists_stuck_of_executeAll {position : Nat} {m : Machine} {code : List Instr}
    (hcode : Located program position code) (hplain : code.all Instr.isPlain = true)
    (h : m.executeAll library code = none) (hlow : low ≤ position)
    (hhigh : position + code.length ≤ high) :
    exists t, Through library program low high ⟨position, m⟩ t ∧ t.position < high ∧
      t.next library program = none := by
  induction code generalizing position m with
  | nil => cases h
  | cons instr rest ih =>
      rw [List.all_cons, Bool.and_eq_true] at hplain
      rw [List.length_cons] at hhigh
      cases hfirst : m.execute library instr with
      | none =>
          refine ⟨_, Through.refl _, ?_, next_eq_none_of_execute hcode.head hplain.1 hfirst⟩
          show position < high
          omega
      | some m1 =>
          rw [Machine.executeAll, hfirst, Option.bind_some] at h
          rcases ih hcode.tail hplain.2 h (by omega) (by omega) with ⟨t, hthrough, hstuck⟩
          have hnext := next_of_execute hcode.head hfirst
          exact ⟨t, Through.step hnext hlow (by omega) hthrough, hstuck⟩

end

end Config

/-!
# Heads of statements
-/

/-- The machine gets from the first command of a statement to the first one of its body, and it
executes no commands on the way but those between them. -/
def Enters (library : Library) (program : List Instr) (start body : Nat) (m : Machine) : Prop :=
  exists m', Config.Through library program start body ⟨start, m⟩ ⟨body, m'⟩

namespace Enters

variable {library : Library} {program : List Instr} {start body position : Nat}
  {m m' : Machine}

theorem not_of_left
    (h : Config.Through library program start body ⟨start, m⟩ ⟨position, m'⟩)
    (hposition : body < position) : ¬ Enters library program start body m := by
  rintro ⟨m1, hbody⟩
  have heq := h.eq_of_finals hbody (Or.inl (Nat.le_of_lt hposition)) (Or.inl (Nat.le_refl _))
  exact Nat.ne_of_lt hposition (congrArg Config.position heq)

theorem not_of_stuck {code : List Instr}
    (hbefore : Config.Through library program start body ⟨start, m⟩ ⟨position, m'⟩)
    (hcode : Located program position code) (hplain : code.all Instr.isPlain = true)
    (h : m'.executeAll library code = none) (hlow : start ≤ position)
    (hhigh : position + code.length ≤ body) : ¬ Enters library program start body m := by
  rcases Config.exists_stuck_of_executeAll hcode hplain h hlow hhigh with
    ⟨t, hthrough, hlt, hnone⟩
  rintro ⟨m1, hbody⟩
  have heq := (hbefore.trans hthrough).eq_of_finals hbody (Or.inr hnone) (Or.inl (Nat.le_refl _))
  exact Nat.ne_of_lt hlt (congrArg Config.position heq).symm

end Enters

namespace Syntax

/-- The commands of a branch before those of its body. -/
def ifHead (σ : Scope) (label : Nat) (condition : Expr) : List Instr :=
  condition.code σ ++ [.ifGoto label, .goto (label + 1), .label label]

def loopHead (σ : Scope) (label : Nat) (condition : Expr) : List Instr :=
  .label label :: condition.code σ ++ [.operate .not, .ifGoto (label + 1)]

theorem add_length_ifHead (σ : Scope) (label position : Nat) (condition : Expr) :
    position + (ifHead σ label condition).length =
      position + (condition.code σ).length + 3 := by
  simp [ifHead, Nat.add_assoc]

theorem add_length_loopHead (σ : Scope) (label position : Nat) (condition : Expr) :
    position + (loopHead σ label condition).length =
      position + (condition.code σ).length + 3 := by
  simp [loopHead, Nat.add_assoc]

theorem code_ifThen (σ : Scope) (label : Nat) (condition : Expr) (body : Block) :
    (Statement.ifThen condition body).code σ label =
      ifHead σ label condition ++ body.code σ (label + 3) ++
        [.goto (label + 2), .label (label + 1), .label (label + 2)] := by
  simp [Statement.code, ifHead]

theorem code_loop (σ : Scope) (label : Nat) (condition : Expr) (body : Block) :
    (Statement.loop condition body).code σ label =
      loopHead σ label condition ++ body.code σ (label + 2) ++
        [.goto label, .label (label + 1)] := by
  simp [Statement.code, loopHead]

section

variable {library : Library} {divide : Word -> Word -> Option Word} {σ : Scope}
  {program : List Instr} {position label : Nat} {m : Machine} {condition : Expr} {body : Block}

theorem Expr.executeAll_eq_none (hlibrary : library.Computes divide) (hσ : σ.Declared)
    (hplain : condition.Plain σ)
    (hvalue : condition.value σ.location divide m.memory = none) :
    m.executeAll library (condition.code σ) = none := by
  rcases Expr.executes hlibrary hσ condition hplain m with ⟨that, hexecutes⟩
  rw [hexecutes, hvalue, Option.map_none]

theorem enters_ifThen_iff (hlibrary : library.Computes divide) (hσ : σ.Declared)
    (hplain : condition.Plain σ)
    (hcode : Located program position ((Statement.ifThen condition body).code σ label)) :
    Enters library program position (position + (ifHead σ label condition).length) m ↔
      exists v, condition.value σ.location divide m.memory = some v ∧ Branches v := by
  rw [Statement.code] at hcode
  rw [add_length_ifHead]
  cases hvalue : condition.value σ.location divide m.memory with
  | none =>
      have hnot : ¬ Enters library program position (position + (condition.code σ).length + 3) m :=
        Enters.not_of_stuck (Config.Through.refl _) hcode.left (condition.plain_code σ)
          (Expr.executeAll_eq_none hlibrary hσ hplain hvalue) (Nat.le_refl _) (by omega)
      simp [hnot]
  | some v =>
      have hother := hcode.right.tail.tail.tail.right.tail.label
      rcases through_ifCode hlibrary hσ hplain hvalue hcode hother with ⟨that, hthrough⟩
      by_cases hv : v = 0
      · rw [if_pos hv] at hthrough
        have hnot := Enters.not_of_left hthrough (by omega)
        have hbranches : ¬ Branches v := fun h => h hv
        simp [hnot, hbranches]
      · rw [if_neg hv] at hthrough
        exact ⟨fun _ => ⟨v, rfl, hv⟩, fun _ => ⟨_, hthrough⟩⟩

theorem enters_loop_iff (hlibrary : library.Computes divide) (hσ : σ.Declared)
    (hplain : condition.Plain σ)
    (hcode : Located program position ((Statement.loop condition body).code σ label)) :
    Enters library program position (position + (loopHead σ label condition).length) m ↔
      exists v, condition.value σ.location divide m.memory = some v ∧ Continues v := by
  rw [Statement.code] at hcode
  rw [add_length_loopHead]
  cases hvalue : condition.value σ.location divide m.memory with
  | none =>
      have hlabel : Config.Through library program position
          (position + (condition.code σ).length + 3) ⟨position, m⟩ ⟨position + 1, m⟩ :=
        Config.Through.step (Config.next_label hcode) (Nat.le_refl _) (by omega)
          (Config.Through.refl _)
      have hnot : ¬ Enters library program position (position + (condition.code σ).length + 3) m :=
        Enters.not_of_stuck hlabel hcode.tail.left (condition.plain_code σ)
          (Expr.executeAll_eq_none hlibrary hσ hplain hvalue) (by omega) (by omega)
      simp [hnot]
  | some v =>
      have hexit := hcode.tail.right.tail.tail.right.tail.label
      rcases through_loopCode hlibrary hσ hplain hvalue hcode hexit with ⟨that, hthrough⟩
      by_cases hv : ~~~v = 0
      · rw [if_pos hv] at hthrough
        exact ⟨fun _ => ⟨v, rfl, (not_eq_zero_iff_continues v).mp hv⟩, fun _ => ⟨_, hthrough⟩⟩
      · rw [if_neg hv] at hthrough
        have hnot := Enters.not_of_left hthrough (by omega)
        have hcontinues := (not_congr (not_eq_zero_iff_continues v)).mp hv
        simp [hnot, hcontinues]

end

/-!
# Conditions that are truth values
-/

/-- A loop and a branch go by the same condition exactly if it is a truth value. -/
theorem continues_iff_branches_iff (v : Word) :
    (Continues v ↔ Branches v) ↔ exists b, v = Word.truth b := by
  constructor
  · intro h
    by_cases hbranches : Branches v
    · exact ⟨true, h.mpr hbranches⟩
    · exact ⟨false, Classical.not_not.mp hbranches⟩
  · rintro ⟨b, rfl⟩
    exact (branches_truth_iff b).symm

theorem continues_iff_branches_of_value_iff (value : Option Word) :
    ((exists v, value = some v ∧ Continues v) ↔ exists v, value = some v ∧ Branches v) ↔
      forall v, value = some v -> exists b, v = Word.truth b := by
  cases value with
  | none => simp
  | some v => simpa using continues_iff_branches_iff v

theorem Unary.invert_truth (b : Bool) :
    Unary.invert.value (Word.truth b) = Word.truth (!b) := by
  cases b <;> decide

/-- The operation gives a truth value, given whether its operands are known to be some. -/
def Binary.isLogical : Binary -> Bool -> Bool -> Bool
  | .less, _, _ => true
  | .greater, _, _ => true
  | .equal, _, _ => true
  | .and, first, second => first && second
  | .or, first, second => first && second
  | _, _, _ => false

theorem Binary.exists_truth_of_isLogical {divide : Word -> Word -> Option Word} {op : Binary}
    {first second : Bool} {x y z : Word} (h : op.isLogical first second = true)
    (hx : first = true -> exists b, x = Word.truth b)
    (hy : second = true -> exists b, y = Word.truth b) (hz : op.value divide x y = some z) :
    exists b, z = Word.truth b := by
  cases op with
  | less => exact ⟨_, (Option.some.inj hz).symm⟩
  | greater => exact ⟨_, (Option.some.inj hz).symm⟩
  | equal => exact ⟨_, (Option.some.inj hz).symm⟩
  | and =>
      rcases Bool.and_eq_true_iff.mp h with ⟨hfirst, hsecond⟩
      rcases hx hfirst with ⟨a, rfl⟩
      rcases hy hsecond with ⟨b, rfl⟩
      refine ⟨a && b, ?_⟩
      rw [← Option.some.inj hz]
      cases a <;> cases b <;> decide
  | or =>
      rcases Bool.and_eq_true_iff.mp h with ⟨hfirst, hsecond⟩
      rcases hx hfirst with ⟨a, rfl⟩
      rcases hy hsecond with ⟨b, rfl⟩
      refine ⟨a || b, ?_⟩
      rw [← Option.some.inj hz]
      cases a <;> cases b <;> decide
  | add => cases h
  | sub => cases h
  | multiply => cases h
  | divide => cases h

mutual

/-- An expression that is a truth value by its form. -/
def Expr.isLogical : Expr -> Bool
  | .mk first rest => rest.isLogicalFrom first.isLogical

def Operations.isLogicalFrom (first : Bool) : Operations -> Bool
  | .nil => first
  | .cons op operand rest => rest.isLogicalFrom (op.isLogical first operand.isLogical)

def Term.isLogical : Term -> Bool
  | .constant .this => false
  | .constant _ => true
  | .paren inner => inner.isLogical
  | .unary .invert operand => operand.isLogical
  | _ => false

end

section

variable (locate : String -> Option Location) (divide : Word -> Word -> Option Word)
  (memory : Memory)

mutual

theorem Expr.exists_truth_of_isLogical : forall (e : Expr) (v : Word), e.isLogical = true ->
    e.value locate divide memory = some v -> exists b, v = Word.truth b
  | .mk first rest, v, h, hvalue => by
      rw [Expr.value] at hvalue
      rcases Option.bind_eq_some_iff.mp hvalue with ⟨x, hx, hrest⟩
      exact Operations.exists_truth_of_isLogicalFrom rest first.isLogical x v
        (fun hfirst => Term.exists_truth_of_isLogical first x hfirst hx) h hrest

theorem Operations.exists_truth_of_isLogicalFrom :
    forall (rest : Operations) (first : Bool) (x v : Word),
      (first = true -> exists b, x = Word.truth b) -> rest.isLogicalFrom first = true ->
      rest.valueFrom locate divide memory x = some v -> exists b, v = Word.truth b
  | .nil, first, x, v, hx, h, hvalue => by
      rw [Operations.valueFrom] at hvalue
      rw [← Option.some.inj hvalue]
      exact hx h
  | .cons op operand rest, first, x, v, hx, h, hvalue => by
      rw [Operations.valueFrom] at hvalue
      rcases Option.bind_eq_some_iff.mp hvalue with ⟨y, hy, hop⟩
      rcases Option.bind_eq_some_iff.mp hop with ⟨z, hz, hrest⟩
      have hoperand := fun hlogical => Term.exists_truth_of_isLogical operand y hlogical hy
      exact Operations.exists_truth_of_isLogicalFrom rest _ z v
        (fun hlogical => Binary.exists_truth_of_isLogical hlogical hx hoperand hz) h hrest

theorem Term.exists_truth_of_isLogical : forall (t : Term) (v : Word), t.isLogical = true ->
    t.value locate divide memory = some v -> exists b, v = Word.truth b
  | .constant .true, v, _, hvalue => ⟨true, (Option.some.inj hvalue).symm⟩
  | .constant .false, v, _, hvalue => ⟨false, (Option.some.inj hvalue).symm⟩
  | .constant .null, v, _, hvalue => ⟨false, (Option.some.inj hvalue).symm⟩
  | .paren inner, v, h, hvalue => by
      rw [Term.value] at hvalue
      exact Expr.exists_truth_of_isLogical inner v h hvalue
  | .unary .invert operand, v, h, hvalue => by
      rw [Term.value] at hvalue
      rcases Option.map_eq_some_iff.mp hvalue with ⟨x, hx, hv⟩
      rcases Term.exists_truth_of_isLogical operand x h hx with ⟨b, rfl⟩
      rw [← hv]
      exact ⟨!b, Unary.invert_truth b⟩

end

end

/-!
# Single statements that stand ahead
-/

/-- The code of a statement is located wherever no label it may draw is defined before. -/
theorem Statement.located {σ : Scope} {s : Statement} {label : Nat} {before after : List Instr}
    (hbefore : forall number, label ≤ number -> number < label + s.labels ->
      .label number ∉ before) :
    Located (before ++ s.code σ label ++ after) before.length (s.code σ label) := by
  have hdrawn := Statement.drawn_definedLabels σ s label
  apply located_of_nodup hdrawn.1
  intro number hmem
  rcases hdrawn.2 number hmem with ⟨hlow, hhigh⟩
  exact hbefore number hlow hhigh

end Syntax

namespace Compile

section

variable {σ : Scope} {label : Nat} {condition : Expr} {body : Block} {follow : List Token}

theorem accepts_whileStatement (hcondition : condition.Resolved σ) (hbody : body.Resolved σ) :
    Accepts σ label whileStatement () (Statement.loop condition body).marks
      ((Statement.loop condition body).code σ label) (Statement.loop condition body).labels
      follow := by
  apply accepts_within_bound
  intro n hn
  simp only [Statement.leaves_marks, Statement.tokens, List.length_cons, List.length_append] at hn
  rcases Nat.exists_eq_add_of_le' (show 1 ≤ n by omega) with ⟨limit, rfl⟩
  exact accepts_loop hcondition
    (Block.accepted body (by omega) hbody (endsBlock_symbol .rightBrace _))

theorem accepts_ifStatement (hcondition : condition.Resolved σ) (hbody : body.Resolved σ)
    (helse : follow.head? ≠ some (.keyword .«else»)) :
    Accepts σ label ifStatement () (Statement.ifThen condition body).marks
      ((Statement.ifThen condition body).code σ label) (Statement.ifThen condition body).labels
      follow := by
  apply accepts_within_bound
  intro n hn
  rw [Statement.leaves_marks] at hn
  exact Statement.accepted (.ifThen condition body) (by omega) ⟨hcondition, hbody⟩ helse

end

/-- A statement that stands ahead is compiled.  What is known of its code where it is located
holds in every program that does not define its labels before it. -/
theorem exists_run_of_accepts {c : Compiler} {routine : CompileM Unit} {s : Statement}
    {follow : List Token}
    (haccepts : Accepts c.scope c.labels routine () s.marks (s.code c.scope c.labels) s.labels
      follow)
    (hfollow : follow ≠ []) (hopen : c.treeOpen = true)
    (hshows : c.scanner.Shows (s.tokens ++ follow)) :
    exists c', routine.run c = .ok () c' ∧
      c'.code.toList = c.code.toList ++ s.code c.scope c.labels ∧
      forall before after,
        (forall number, c.labels ≤ number -> number < c'.labels -> .label number ∉ before) ->
        Located (before ++ s.code c.scope c.labels ++ after) before.length
          (s.code c.scope c.labels) := by
  rw [← Statement.leaves_marks] at hshows
  rcases haccepts hfollow c ⟨hopen, rfl, rfl, hshows⟩ with ⟨c', hrun, hyields⟩
  refine ⟨c', hrun, ?_, ?_⟩
  · rw [hyields.code]
    simp
  · intro before after hbefore
    rw [hyields.labels] at hbefore
    exact Statement.located hbefore

end Compile

/-- The machine enters the body of a statement, whose code is a head, a body and a tail and
stands between other code. -/
def EntersBody (library : Library) (before head body tail after : List Instr) (m : Machine) :
    Prop :=
  Enters library (before ++ (head ++ body ++ tail) ++ after) before.length
    (before.length + head.length) m

/-- A loop and a branch on the same condition, with the same body, are compiled where the same
names are declared.  Run from the same machine, wherever their code stands, the loop is entered
if all bits of the condition are set, and the branch if any is.  So the one is entered just if the
other is, exactly if the condition is a truth value or has no value.  A condition is a truth value
if it is built of comparisons and of truth values. -/
theorem while_and_if_agree_iff {c d : Compiler} {condition : Expr} {body : Block}
    {follow follow' : List Token} {library : Library} {divide : Word -> Word -> Option Word}
    (hopen : c.treeOpen = true ∧ d.treeOpen = true) (hscope : d.scope = c.scope)
    (hdeclared : c.scope.Declared) (hplain : condition.Plain c.scope)
    (hbody : body.Resolved c.scope) (hfollow : follow ≠ [] ∧ follow' ≠ [])
    (helse : follow'.head? ≠ some (.keyword .«else»))
    (hwhile : c.scanner.Shows ((Statement.loop condition body).tokens ++ follow))
    (hif : d.scanner.Shows ((Statement.ifThen condition body).tokens ++ follow'))
    (hlibrary : library.Computes divide) :
    exists (c' d' : Compiler) (head head' tail tail' : List Instr),
      whileStatement.run c = .ok () c' ∧
      c'.code.toList = c.code.toList ++ (head ++ body.code c.scope (c.labels + 2) ++ tail) ∧
      ifStatement.run d = .ok () d' ∧
      d'.code.toList = d.code.toList ++ (head' ++ body.code c.scope (d.labels + 3) ++ tail') ∧
      (forall (before after before' after' : List Instr) (m : Machine),
        (forall number, c.labels ≤ number -> number < c'.labels -> .label number ∉ before) ->
        (forall number, d.labels ≤ number -> number < d'.labels -> .label number ∉ before') ->
        (EntersBody library before head (body.code c.scope (c.labels + 2)) tail after m ↔
          exists v, condition.value c.scope.location divide m.memory = some v ∧
            v = Word.truth true) ∧
        (EntersBody library before' head' (body.code c.scope (d.labels + 3)) tail' after' m ↔
          exists v, condition.value c.scope.location divide m.memory = some v ∧
            v ≠ Word.truth false) ∧
        ((EntersBody library before head (body.code c.scope (c.labels + 2)) tail after m ↔
            EntersBody library before' head' (body.code c.scope (d.labels + 3)) tail' after' m) ↔
          forall v, condition.value c.scope.location divide m.memory = some v ->
            exists b, v = Word.truth b)) ∧
      (condition.isLogical = true -> forall memory v,
        condition.value c.scope.location divide memory = some v ->
          exists b, v = Word.truth b) := by
  have hresolved := hplain.resolved
  rcases exists_run_of_accepts (accepts_whileStatement hresolved hbody) hfollow.1 hopen.1
    hwhile with ⟨c', hrun, hcode, hlocated⟩
  rcases exists_run_of_accepts (accepts_ifStatement (hscope ▸ hresolved) (hscope ▸ hbody) helse)
    hfollow.2 hopen.2 hif with ⟨d', hrun', hcode', hlocated'⟩
  rw [hscope] at hcode' hlocated'
  rw [code_loop] at hcode
  rw [code_ifThen] at hcode'
  refine ⟨c', d', _, _, _, _, hrun, hcode, hrun', hcode', ?_, ?_⟩
  · intro before after before' after' m hbefore hbefore'
    have hloop := enters_loop_iff (m := m) hlibrary hdeclared hplain
      (hlocated before after hbefore)
    have hbranch := enters_ifThen_iff (m := m) hlibrary hdeclared hplain
      (hlocated' before' after' hbefore')
    rw [code_loop] at hloop
    rw [code_ifThen] at hbranch
    refine ⟨hloop, hbranch, ?_⟩
    rw [EntersBody, EntersBody, hloop, hbranch]
    exact continues_iff_branches_of_value_iff _
  · intro hlogical memory v hvalue
    exact Expr.exists_truth_of_isLogical _ _ _ condition v hlogical hvalue

/-!
# A loop and a branch at hand

Both go by the argument `i`, and set it to zero.
-/

def Scanner.beforeCondition (word : Keyword) : Scanner :=
  { rest := "i) \x7b let i = 0; \x7d \x7d".toList
    current := some (.keyword word)
    next := some (.symbol .leftParen) }

/-- With one in `i` the branch is taken and the loop is left, so they do not agree. -/
theorem while_and_if_disagree_on_one :
    exists (c' d' : Compiler) (head body tail head' body' tail' : List Instr),
      whileStatement.run (Compiler.inSubroutine (.beforeCondition .while)) = .ok () c' ∧
      c'.code.toList = [] ++ (head ++ body ++ tail) ∧
      ifStatement.run (Compiler.inSubroutine (.beforeCondition .if)) = .ok () d' ∧
      d'.code.toList = [] ++ (head' ++ body' ++ tail') ∧
      ¬ EntersBody Library.math [] head body tail [] fillArrayMachine ∧
      EntersBody Library.math [] head' body' tail' [] fillArrayMachine := by
  have hplain : (Expr.mk (.var "i") .nil).Plain
      (Compiler.inSubroutine (.beforeCondition .while)).scope :=
    ⟨⟨_, .argument, rfl, rfl⟩, trivial⟩
  have hbody : (Block.cons (.assign "i" (.mk (.integer "0") .nil)) .nil).Resolved
      (Compiler.inSubroutine (.beforeCondition .while)).scope :=
    ⟨⟨rfl, trivial, trivial⟩, trivial⟩
  have hwhile : (Scanner.beforeCondition .while).Shows
      ((Statement.loop (.mk (.var "i") .nil)
        (.cons (.assign "i" (.mk (.integer "0") .nil)) .nil)).tokens ++
          [.symbol .rightBrace]) := by
    refine ⟨_, _, rfl, rfl, Prod.ext ?_ (Option.isNone_iff_eq_none.mp ?_)⟩
    · decide +kernel
    · decide +kernel
  have hif : (Scanner.beforeCondition .if).Shows
      ((Statement.ifThen (.mk (.var "i") .nil)
        (.cons (.assign "i" (.mk (.integer "0") .nil)) .nil)).tokens ++
          [.symbol .rightBrace]) := by
    refine ⟨_, _, rfl, rfl, Prod.ext ?_ (Option.isNone_iff_eq_none.mp ?_)⟩
    · decide +kernel
    · decide +kernel
  rcases while_and_if_agree_iff (c := Compiler.inSubroutine (.beforeCondition .while))
    (d := Compiler.inSubroutine (.beforeCondition .if)) ⟨rfl, rfl⟩ rfl
    (Compiler.declared_inSubroutine _) hplain hbody ⟨by decide, by decide⟩ (by decide) hwhile hif
    Library.math_computes with
    ⟨c', d', head, head', tail, tail', hrun, hcode, hrun', hcode', hentered, _⟩
  rcases hentered [] [] [] [] fillArrayMachine (by simp) (by simp) with ⟨hloop, hbranch, _⟩
  refine ⟨c', d', head, _, tail, head', _, tail', hrun, hcode, hrun', hcode', ?_, ?_⟩
  · intro hentered
    rcases hloop.mp hentered with ⟨v, hvalue, hv⟩
    have hone : v = Word.wrap 1 := (Option.some.inj hvalue).symm
    rw [hone] at hv
    exact absurd hv (by decide)
  · exact hbranch.mpr ⟨Word.wrap 1, rfl, by decide⟩

/-- A branch and a loop on the number one. -/
def oneText : String :=
  "class A \x7b function int f() \x7b if (1) \x7b return 1; \x7d " ++
    "while (1) \x7b return 2; \x7d return 0; \x7d \x7d"

/-- The code of the branch is from 1 on and that of its body from 5 on.  The code of the loop is
from 10 on and that of its body from 14 on. -/
def oneCode : List Instr :=
  [.function "A.f" 0,
    .pushConstant 1, .ifGoto 0, .goto 1, .label 0, .pushConstant 1, .ret, .goto 2, .label 1,
    .label 2,
    .label 3, .pushConstant 1, .operate .not, .ifGoto 4, .pushConstant 2, .ret, .goto 3, .label 4,
    .pushConstant 0, .ret]

/-- The branch is taken, and the loop is left at once. -/
theorem one_branches_but_does_not_loop :
    (({} : Compiler).compile oneText).fault = none ∧
      (({} : Compiler).compile oneText).written.map Prod.fst = some oneCode ∧
      Enters Library.math oneCode 1 5 fillArrayMachine ∧
      ¬ Enters Library.math oneCode 10 14 fillArrayMachine := by
  have hcompiled : (({} : Compiler).compile oneText).fault = none ∧
      (({} : Compiler).compile oneText).written.map Prod.fst = some oneCode := by decide +kernel
  have htaken : Config.Through Library.math oneCode 1 5 ⟨1, fillArrayMachine⟩
      ⟨5, fillArrayMachine⟩ := by
    refine Config.Through.step rfl (by decide) (by decide) ?_
    refine Config.Through.step rfl (by decide) (by decide) ?_
    exact Config.Through.step rfl (by decide) (by decide) (Config.Through.refl _)
  have hleft : Config.Through Library.math oneCode 10 14 ⟨10, fillArrayMachine⟩
      ⟨17, fillArrayMachine⟩ := by
    refine Config.Through.step rfl (by decide) (by decide) ?_
    refine Config.Through.step rfl (by decide) (by decide) ?_
    refine Config.Through.step rfl (by decide) (by decide) ?_
    exact Config.Through.step rfl (by decide) (by decide) (Config.Through.refl _)
  exact ⟨hcompiled.1, hcompiled.2, ⟨_, htaken⟩, Enters.not_of_left hleft (by decide)⟩

end Jack
