import Jack.Proofs.Acceptance.Statement
import Jack.Proofs.Labels
import Jack.Proofs.Simulation.Expression

/-!
# Compiled statements run as the statements do

The code of a statement, wherever it stands in a program, brings the memory to the
ending of the statement.  The stack is the same in the end, but for a value that is
returned.

The proof follows the run of the statement.  It uses of the labels only that each one is
found where the code defines it; that they are is shown at the end.
-/

namespace Jack

open Compile Syntax

/-- A part of a program, run on a machine, comes to an ending.  Either the run gets
behind the part with the stack it began with, or it gets to a return within the part
with the value on top of that stack. -/
def Simulates (library : Library) (program : List Instr) (start stop : Nat) (m : Machine) :
    Ending -> Prop
  | .finished memory =>
      exists m', Config.Reaches library program ⟨start, m⟩ ⟨stop, m'⟩ ∧
        m'.stack = m.stack ∧ m'.memory = memory
  | .returned value memory =>
      exists position m', Config.Reaches library program ⟨start, m⟩ ⟨position, m'⟩ ∧
        start ≤ position ∧ position < stop ∧ program[position]? = some .ret ∧
        m'.stack = value :: m.stack ∧ m'.memory = memory

namespace Simulates

variable {library : Library} {program : List Instr} {start stop : Nat} {m : Machine}
  {ending : Ending}

/-- A part is entered, and left again unless it returns, by steps that do not touch the
stack. -/
theorem within {start' stop' : Nat} {m' : Machine}
    (h : Simulates library program start stop m ending)
    (hbefore : Config.Reaches library program ⟨start', m'⟩ ⟨start, m⟩)
    (hstack : m.stack = m'.stack)
    (hafter : forall memory, ending = .finished memory ->
      forall m, Config.Reaches library program ⟨stop, m⟩ ⟨stop', m⟩)
    (hstart : start' ≤ start) (hstop : stop ≤ stop') :
    Simulates library program start' stop' m' ending := by
  cases ending with
  | finished memory =>
      rcases h with ⟨m1, hreaches, hend, hmemory⟩
      refine ⟨m1, ?_, ?_, hmemory⟩
      · exact hbefore.trans (hreaches.trans (hafter memory rfl m1))
      · rw [hend, hstack]
  | returned value memory =>
      rcases h with ⟨position, m1, hreaches, hlow, hhigh, hret, hend, hmemory⟩
      refine ⟨position, m1, ?_, ?_, ?_, hret, ?_, hmemory⟩
      · exact hbefore.trans hreaches
      · exact Nat.le_trans hstart hlow
      · exact Nat.lt_of_lt_of_le hhigh hstop
      · rw [hend, hstack]

/-- Code without jumps that keeps the stack. -/
theorem of_executeAll {code : List Instr} {m' : Machine}
    (hcode : Located program start code) (h : m.executeAll library code = some m')
    (hstack : m'.stack = m.stack) :
    Simulates library program start (start + code.length) m (.finished m'.memory) :=
  ⟨m', Config.reaches_executeAll hcode h, hstack, rfl⟩

/-- Code that pushes a value and returns. -/
theorem of_return {code : List Instr} {m' : Machine} {value : Word} {memory : Memory}
    (hcode : Located program start (code ++ [.ret]))
    (h : m.executeAll library code = some m') (hstack : m'.stack = value :: m.stack)
    (hmemory : m'.memory = memory) :
    Simulates library program start (start + (code ++ [Instr.ret]).length) m
      (.returned value memory) := by
  refine ⟨start + code.length, m', Config.reaches_executeAll hcode.left h, ?_, ?_,
    hcode.right.head, hstack, hmemory⟩
  · exact Nat.le_add_right _ _
  · rw [List.length_append, List.length_singleton]
    omega

end Simulates

namespace Syntax

section

variable {library : Library} {divide : Word -> Word -> Option Word} {σ : Scope}
  {program : List Instr} {position label : Nat} {m : Machine}

/-!
# Simple statements
-/

theorem Expr.executeAll_of_value (hlibrary : library.Computes divide) (hσ : σ.Declared)
    {e : Expr} (hplain : e.Plain σ) {v : Word}
    (hvalue : e.value σ.location divide m.memory = some v) :
    exists that, m.executeAll library (e.code σ) = some (m.holding v that) := by
  rcases Expr.executes hlibrary hσ e hplain m with ⟨that, hexecutes⟩
  rw [hvalue] at hexecutes
  exact ⟨that, hexecutes⟩

theorem executeAll_assign (hlibrary : library.Computes divide) (hσ : σ.Declared)
    {name : String} {value : Expr} (hplain : (Statement.assign name value).Plain σ)
    {location : Location} (hlocation : σ.location name = some location) {v : Word}
    (hvalue : value.value σ.location divide m.memory = some v) :
    exists that, m.executeAll library ((Statement.assign name value).code σ label) =
      some { m with memory := m.memory.store location v, that := that } := by
  rcases hσ.exists_location hplain.1 with ⟨found, hfound, _, hplace⟩
  cases hlocation.symm.trans hfound
  rcases value.executeAll_of_value hlibrary hσ hplain.2 hvalue with ⟨that, hexecutes⟩
  refine ⟨that, ?_⟩
  rw [Statement.code, hplace, Machine.executeAll_append, hexecutes]
  simp only [Option.map_some, Option.toList_some, Option.bind_some,
    Machine.executeAll_singleton, Machine.execute, Machine.holding, Machine.write_place]

/-- The address is below the value. -/
theorem executeAll_storeCode (library : Library) (m : Machine)
    (address value that that' : Word) :
    ((m.holding address that).holding value that').executeAll library storeCode =
      some { m with
        memory := m.memory.storeHeap address value
        that := address
        temp := Function.update m.temp 0 value } := by
  simp [storeCode, Machine.executeAll, Machine.execute, Machine.holding, Memory.storeHeap]

/-- The address of an element is computed from the index and the base above it. -/
theorem executeAll_elementBase (library : Library) (m : Machine) (location : Location)
    (index that : Word) (rest : List Instr) :
    (m.holding index that).executeAll library
        (.push location.place none :: .operate .add :: rest) =
      (m.holding (elementAddress (m.memory.load location) index) that).executeAll library
        rest := by
  unfold elementAddress
  rw [Word.wrap_add, BitVec.add_comm]
  simp [Machine.executeAll, Machine.execute, Machine.operate, Machine.read_place,
    Machine.holding]

theorem executeAll_store (hlibrary : library.Computes divide) (hσ : σ.Declared)
    {name : String} {index value : Expr}
    (hplain : (Statement.store name index value).Plain σ)
    {location : Location} (hlocation : σ.location name = some location) {i v : Word}
    (hindex : index.value σ.location divide m.memory = some i)
    (hvalue : value.value σ.location divide m.memory = some v) :
    exists m', m.executeAll library ((Statement.store name index value).code σ label) =
        some m' ∧ m'.stack = m.stack ∧
      m'.memory = m.memory.storeHeap (elementAddress (m.memory.load location) i) v := by
  rcases hσ.exists_location hplain.1 with ⟨found, hfound, _, hplace⟩
  cases hlocation.symm.trans hfound
  rcases index.executeAll_of_value hlibrary hσ hplain.2.1 hindex with ⟨that, hfirst⟩
  -- the memory is still the same when the value is computed
  have hvalue' : value.value σ.location divide
      (m.holding (elementAddress (m.memory.load location) i) that).memory = some v := hvalue
  rcases value.executeAll_of_value hlibrary hσ hplain.2.2 hvalue' with ⟨that', hsecond⟩
  have hstore := executeAll_storeCode library m
    (elementAddress (m.memory.load location) i) v that that'
  refine ⟨_, Eq.trans ?_ hstore, rfl, rfl⟩
  rw [Statement.code, hplace, Machine.executeAll_append, hfirst]
  simp only [Option.map_some, Option.toList_some, Option.bind_some, List.cons_append,
    List.nil_append]
  rw [executeAll_elementBase, Machine.executeAll_append, hsecond]
  rfl

/-!
# Conditions
-/

theorem eq_zero_of_not_branches {v : Word} (h : ¬ Branches v) : v = 0 := by
  by_contra hne
  exact h hne

theorem not_eq_zero_iff_continues (v : Word) : ~~~v = 0 ↔ Continues v := by
  have htruth : Word.truth true = ~~~(0 : Word) := by decide
  unfold Continues
  rw [htruth]
  constructor
  · intro h
    rw [← h, BitVec.not_not]
  · intro h
    rw [h, BitVec.not_not]

/-- Where a conditional statement goes from its condition. -/
theorem through_ifCode (hlibrary : library.Computes divide) (hσ : σ.Declared)
    {condition : Expr} (hplain : condition.Plain σ) {v : Word}
    (hvalue : condition.value σ.location divide m.memory = some v) {rest : List Instr}
    {other : Nat}
    (hcode : Located program position (condition.code σ ++
      (.ifGoto label :: .goto (label + 1) :: .label label :: rest)))
    (hother : labelPosition program (label + 1) = some other) :
    exists that, Config.Through library program position
      (position + (condition.code σ).length + 3) ⟨position, m⟩
      ⟨if v = 0 then other else position + (condition.code σ).length + 3,
        { m with that := that }⟩ := by
  rcases condition.executeAll_of_value hlibrary hσ hplain hvalue with ⟨that, hexecutes⟩
  have hjump := hcode.right
  refine ⟨that, (Config.through_executeAll hcode.left hexecutes (Nat.le_refl _)
    (by omega)).trans ?_⟩
  by_cases hv : v = 0
  · subst hv
    rw [if_pos rfl]
    apply Config.Through.step (Config.next_ifGoto_passed hjump rfl) (by omega) (by omega)
    apply Config.Through.step (Config.next_goto hjump.tail hother) (by omega) (by omega)
    exact Config.Through.refl _
  · rw [if_neg hv]
    have hlabel := hjump.tail.tail.label
    apply Config.Through.step (Config.next_ifGoto_taken hjump hlabel rfl hv) (by omega) (by omega)
    apply Config.Through.step (Config.next_label hjump.tail.tail) (by omega) (by omega)
    exact Config.Through.refl _

theorem reaches_ifCode (hlibrary : library.Computes divide) (hσ : σ.Declared)
    {condition : Expr} (hplain : condition.Plain σ) {v : Word}
    (hvalue : condition.value σ.location divide m.memory = some v) {rest : List Instr}
    {other : Nat}
    (hcode : Located program position (condition.code σ ++
      (.ifGoto label :: .goto (label + 1) :: .label label :: rest)))
    (hother : labelPosition program (label + 1) = some other) :
    exists that, Config.Reaches library program ⟨position, m⟩
      ⟨if v = 0 then other else position + (condition.code σ).length + 3,
        { m with that := that }⟩ := by
  rcases through_ifCode hlibrary hσ hplain hvalue hcode hother with ⟨that, hthrough⟩
  exact ⟨that, hthrough.reaches⟩

/-- Where a loop goes from its head. -/
theorem through_loopCode (hlibrary : library.Computes divide) (hσ : σ.Declared)
    {condition : Expr} (hplain : condition.Plain σ) {v : Word}
    (hvalue : condition.value σ.location divide m.memory = some v) {rest : List Instr}
    {exit : Nat}
    (hcode : Located program position (.label label :: (condition.code σ ++
      (.operate .not :: .ifGoto (label + 1) :: rest))))
    (hexit : labelPosition program (label + 1) = some exit) :
    exists that, Config.Through library program position
      (position + (condition.code σ).length + 3) ⟨position, m⟩
      ⟨if ~~~v = 0 then position + (condition.code σ).length + 3 else exit,
        { m with that := that }⟩ := by
  rcases condition.executeAll_of_value hlibrary hσ hplain hvalue with ⟨that, hexecutes⟩
  have hnot := hcode.tail.right
  have hinvert : (m.holding v that).execute library (.operate .not) =
      some (m.holding (~~~v) that) := rfl
  have hhead : position + 1 + (condition.code σ).length + 1 + 1 =
      position + (condition.code σ).length + 3 := by omega
  refine ⟨that, Config.Through.step (Config.next_label hcode) (Nat.le_refl _) (by omega)
    ((Config.through_executeAll hcode.tail.left hexecutes (by omega) (by omega)).trans ?_)⟩
  apply Config.Through.step (Config.next_of_execute hnot.head hinvert) (by omega) (by omega)
  by_cases hv : ~~~v = 0
  · rw [if_pos hv, ← hhead]
    have hstack : (m.holding (~~~v) that).stack = 0 :: m.stack := by rw [← hv]; rfl
    apply Config.Through.step (Config.next_ifGoto_passed hnot.tail hstack) (by omega) (by omega)
    exact Config.Through.refl _
  · rw [if_neg hv]
    apply Config.Through.step (Config.next_ifGoto_taken hnot.tail hexit rfl hv) (by omega)
      (by omega)
    exact Config.Through.refl _

theorem reaches_loopCode (hlibrary : library.Computes divide) (hσ : σ.Declared)
    {condition : Expr} (hplain : condition.Plain σ) {v : Word}
    (hvalue : condition.value σ.location divide m.memory = some v) {rest : List Instr}
    {exit : Nat}
    (hcode : Located program position (.label label :: (condition.code σ ++
      (.operate .not :: .ifGoto (label + 1) :: rest))))
    (hexit : labelPosition program (label + 1) = some exit) :
    exists that, Config.Reaches library program ⟨position, m⟩
      ⟨if ~~~v = 0 then position + (condition.code σ).length + 3 else exit,
        { m with that := that }⟩ := by
  rcases through_loopCode hlibrary hσ hplain hvalue hcode hexit with ⟨that, hthrough⟩
  exact ⟨that, hthrough.reaches⟩

/-!
# Branches and loops

In each lemma the run of the part that is chosen is given, from any machine with the same
memory.
-/

section

variable {condition : Expr} {body other : Block} {ending : Ending} {v : Word}

theorem located_ifThen_body
    (hcode : Located program position ((Statement.ifThen condition body).code σ label)) :
    Located program (position + (condition.code σ).length + 3) (body.code σ (label + 3)) := by
  rw [Statement.code] at hcode
  exact hcode.right.tail.tail.tail.left

theorem simulates_ifThen_taken (hlibrary : library.Computes divide) (hσ : σ.Declared)
    (hplain : condition.Plain σ)
    (hvalue : condition.value σ.location divide m.memory = some v) (hv : v ≠ 0)
    (hcode : Located program position ((Statement.ifThen condition body).code σ label))
    (hbody : forall m' : Machine, m'.memory = m.memory ->
      Simulates library program (position + (condition.code σ).length + 3)
        (position + (condition.code σ).length + 3 + (body.code σ (label + 3)).length)
        m' ending) :
    Simulates library program position
      (position + ((Statement.ifThen condition body).code σ label).length) m ending := by
  rw [Statement.code] at hcode ⊢
  have hend := hcode.right.tail.tail.tail.right
  rcases reaches_ifCode hlibrary hσ hplain hvalue hcode hend.tail.label with
    ⟨that, hreaches⟩
  rw [if_neg hv] at hreaches
  simp only [List.length_append, List.length_cons, List.length_nil]
  refine (hbody { m with that := that } rfl).within hreaches rfl ?_ (by omega) (by omega)
  intro _ _ m'
  have hdone := hend.tail.tail
  apply Config.Reaches.step (Config.next_goto hend hdone.label)
  apply Config.Reaches.step (Config.next_label hdone)
  exact Config.Reaches.of_eq (by omega) m'

theorem simulates_ifThen_skipped (hlibrary : library.Computes divide) (hσ : σ.Declared)
    (hplain : condition.Plain σ)
    (hvalue : condition.value σ.location divide m.memory = some 0)
    (hcode : Located program position ((Statement.ifThen condition body).code σ label)) :
    Simulates library program position
      (position + ((Statement.ifThen condition body).code σ label).length) m
      (.finished m.memory) := by
  rw [Statement.code] at hcode ⊢
  have hend := hcode.right.tail.tail.tail.right
  rcases reaches_ifCode hlibrary hσ hplain hvalue hcode hend.tail.label with
    ⟨that, hreaches⟩
  rw [if_pos rfl] at hreaches
  refine ⟨{ m with that := that }, hreaches.trans ?_, rfl, rfl⟩
  simp only [List.length_append, List.length_cons, List.length_nil]
  apply Config.Reaches.step (Config.next_label hend.tail)
  apply Config.Reaches.step (Config.next_label hend.tail.tail)
  exact Config.Reaches.of_eq (by omega) _

theorem located_ifElse
    (hcode : Located program position ((Statement.ifElse condition body other).code σ label)) :
    Located program (position + (condition.code σ).length + 3) (body.code σ (label + 3)) ∧
      Located program
        (position + (condition.code σ).length + 3 + (body.code σ (label + 3)).length + 2)
        (other.code σ (label + 3 + body.labels)) := by
  rw [Statement.code] at hcode
  have hbody := hcode.right.tail.tail.tail
  exact ⟨hbody.left, hbody.right.tail.tail.left⟩

theorem simulates_ifElse_taken (hlibrary : library.Computes divide) (hσ : σ.Declared)
    (hplain : condition.Plain σ)
    (hvalue : condition.value σ.location divide m.memory = some v) (hv : v ≠ 0)
    (hcode : Located program position ((Statement.ifElse condition body other).code σ label))
    (hbody : forall m' : Machine, m'.memory = m.memory ->
      Simulates library program (position + (condition.code σ).length + 3)
        (position + (condition.code σ).length + 3 + (body.code σ (label + 3)).length)
        m' ending) :
    Simulates library program position
      (position + ((Statement.ifElse condition body other).code σ label).length) m
      ending := by
  rw [Statement.code] at hcode ⊢
  have hend := hcode.right.tail.tail.tail.right
  rcases reaches_ifCode hlibrary hσ hplain hvalue hcode hend.tail.label with
    ⟨that, hreaches⟩
  rw [if_neg hv] at hreaches
  simp only [List.length_append, List.length_cons, List.length_nil]
  refine (hbody { m with that := that } rfl).within hreaches rfl ?_ (by omega) (by omega)
  intro _ _ m'
  have hdone := hend.tail.tail.right
  apply Config.Reaches.step (Config.next_goto hend hdone.label)
  apply Config.Reaches.step (Config.next_label hdone)
  exact Config.Reaches.of_eq (by omega) m'

theorem simulates_ifElse_other (hlibrary : library.Computes divide) (hσ : σ.Declared)
    (hplain : condition.Plain σ)
    (hvalue : condition.value σ.location divide m.memory = some 0)
    (hcode : Located program position ((Statement.ifElse condition body other).code σ label))
    (hother : forall m' : Machine, m'.memory = m.memory ->
      Simulates library program
        (position + (condition.code σ).length + 3 + (body.code σ (label + 3)).length + 2)
        (position + (condition.code σ).length + 3 + (body.code σ (label + 3)).length + 2 +
          (other.code σ (label + 3 + body.labels)).length) m' ending) :
    Simulates library program position
      (position + ((Statement.ifElse condition body other).code σ label).length) m
      ending := by
  rw [Statement.code] at hcode ⊢
  have hend := hcode.right.tail.tail.tail.right
  rcases reaches_ifCode hlibrary hσ hplain hvalue hcode hend.tail.label with
    ⟨that, hreaches⟩
  rw [if_pos rfl] at hreaches
  have henter := hreaches.trans
    (Config.Reaches.step (Config.next_label hend.tail) (Config.Reaches.refl _))
  simp only [List.length_append, List.length_cons, List.length_nil]
  refine (hother { m with that := that } rfl).within henter rfl ?_ (by omega) (by omega)
  intro _ _ m'
  apply Config.Reaches.step (Config.next_label hend.tail.tail.right)
  exact Config.Reaches.of_eq (by omega) m'

theorem located_loop_body
    (hcode : Located program position ((Statement.loop condition body).code σ label)) :
    Located program (position + (condition.code σ).length + 3) (body.code σ (label + 2)) := by
  rw [Statement.code] at hcode
  have hbody := hcode.tail.right.tail.tail.left
  have hposition : position + 1 + (condition.code σ).length + 1 + 1 =
      position + (condition.code σ).length + 3 := by omega
  rwa [hposition] at hbody

theorem simulates_loop_left (hlibrary : library.Computes divide) (hσ : σ.Declared)
    (hplain : condition.Plain σ)
    (hvalue : condition.value σ.location divide m.memory = some v) (hv : ~~~v ≠ 0)
    (hcode : Located program position ((Statement.loop condition body).code σ label)) :
    Simulates library program position
      (position + ((Statement.loop condition body).code σ label).length) m
      (.finished m.memory) := by
  rw [Statement.code] at hcode ⊢
  have hend := hcode.tail.right.tail.tail.right
  rcases reaches_loopCode hlibrary hσ hplain hvalue hcode hend.tail.label with
    ⟨that, hreaches⟩
  rw [if_neg hv] at hreaches
  refine ⟨{ m with that := that }, hreaches.trans ?_, rfl, rfl⟩
  simp only [List.length_append, List.length_cons, List.length_nil]
  apply Config.Reaches.step (Config.next_label hend.tail)
  exact Config.Reaches.of_eq (by omega) _

theorem simulates_loop_returned (hlibrary : library.Computes divide) (hσ : σ.Declared)
    (hplain : condition.Plain σ)
    (hvalue : condition.value σ.location divide m.memory = some v) (hv : ~~~v = 0)
    (hcode : Located program position ((Statement.loop condition body).code σ label))
    {w : Word} {memory : Memory}
    (hbody : forall m' : Machine, m'.memory = m.memory ->
      Simulates library program (position + (condition.code σ).length + 3)
        (position + (condition.code σ).length + 3 + (body.code σ (label + 2)).length)
        m' (.returned w memory)) :
    Simulates library program position
      (position + ((Statement.loop condition body).code σ label).length) m
      (.returned w memory) := by
  rw [Statement.code] at hcode ⊢
  have hend := hcode.tail.right.tail.tail.right
  rcases reaches_loopCode hlibrary hσ hplain hvalue hcode hend.tail.label with
    ⟨that, hreaches⟩
  rw [if_pos hv] at hreaches
  simp only [List.length_append, List.length_cons, List.length_nil]
  refine (hbody { m with that := that } rfl).within hreaches rfl ?_ (by omega) (by omega)
  intro _ hfinished
  cases hfinished

/-- A loop whose body does not return comes back to its head. -/
theorem reaches_loop_again (hlibrary : library.Computes divide) (hσ : σ.Declared)
    (hplain : condition.Plain σ)
    (hvalue : condition.value σ.location divide m.memory = some v) (hv : ~~~v = 0)
    (hcode : Located program position ((Statement.loop condition body).code σ label))
    {memory : Memory}
    (hbody : forall m' : Machine, m'.memory = m.memory ->
      Simulates library program (position + (condition.code σ).length + 3)
        (position + (condition.code σ).length + 3 + (body.code σ (label + 2)).length)
        m' (.finished memory)) :
    exists m', Config.Reaches library program ⟨position, m⟩ ⟨position, m'⟩ ∧
      m'.stack = m.stack ∧ m'.memory = memory := by
  rw [Statement.code] at hcode
  have hend := hcode.tail.right.tail.tail.right
  rcases reaches_loopCode hlibrary hσ hplain hvalue hcode hend.tail.label with
    ⟨that, hreaches⟩
  rw [if_pos hv] at hreaches
  rcases hbody { m with that := that } rfl with ⟨m', hthrough, hstack, hmemory⟩
  have hposition : position + 1 + (condition.code σ).length + 1 + 1 +
      (body.code σ (label + 2)).length =
      position + (condition.code σ).length + 3 + (body.code σ (label + 2)).length := by
    omega
  rw [hposition] at hend
  refine ⟨m', hreaches.trans (hthrough.trans ?_), hstack, hmemory⟩
  exact Config.Reaches.step (Config.next_goto hend hcode.label) (Config.Reaches.refl _)

end

/-!
# Statements and blocks

The induction is on the run of the statement or the block.
-/

mutual

theorem Statement.simulates (hlibrary : library.Computes divide) (hσ : σ.Declared)
    {s : Statement} {memory : Memory} {ending : Ending} {position label : Nat} {m : Machine}
    (hplain : s.Plain σ) (hcode : Located program position (s.code σ label))
    (hmemory : m.memory = memory) :
    Statement.Runs σ.location divide s memory ending ->
      Simulates library program position (position + (s.code σ label).length) m ending
  | .assign hlocation hvalue => by
      subst hmemory
      rcases executeAll_assign hlibrary hσ hplain hlocation hvalue with ⟨that, hexecutes⟩
      exact Simulates.of_executeAll hcode hexecutes rfl
  | .store hlocation hindex hvalue => by
      subst hmemory
      rcases executeAll_store hlibrary hσ hplain hlocation hindex hvalue with
        ⟨m', hexecutes, hstack, hmemory⟩
      rw [← hmemory]
      exact Simulates.of_executeAll hcode hexecutes hstack
  | .leave => by
      subst hmemory
      have hexecutes : m.executeAll library [.pushConstant 0] =
          some (m.holding (Word.wrap 0) m.that) := rfl
      exact Simulates.of_return hcode hexecutes rfl rfl
  | .give hvalue => by
      subst hmemory
      rcases Expr.executeAll_of_value hlibrary hσ hplain hvalue with ⟨that, hexecutes⟩
      rw [Statement.code] at hcode ⊢
      exact Simulates.of_return hcode hexecutes rfl rfl
  | .ifThenTaken hvalue hbranches hbody => by
      rw [← hmemory] at hvalue
      apply simulates_ifThen_taken hlibrary hσ hplain.1 hvalue hbranches hcode
      intro m' hm'
      exact Block.simulates hlibrary hσ hplain.2 (located_ifThen_body hcode)
        (hm'.trans hmemory) hbody
  | .ifThenSkipped hvalue hbranches => by
      subst hmemory
      rw [eq_zero_of_not_branches hbranches] at hvalue
      exact simulates_ifThen_skipped hlibrary hσ hplain.1 hvalue hcode
  | .ifElseTaken hvalue hbranches hbody => by
      rw [← hmemory] at hvalue
      apply simulates_ifElse_taken hlibrary hσ hplain.1 hvalue hbranches hcode
      intro m' hm'
      exact Block.simulates hlibrary hσ hplain.2.1 (located_ifElse hcode).1
        (hm'.trans hmemory) hbody
  | .ifElseOther hvalue hbranches hother => by
      rw [← hmemory, eq_zero_of_not_branches hbranches] at hvalue
      apply simulates_ifElse_other hlibrary hσ hplain.1 hvalue hcode
      intro m' hm'
      exact Block.simulates hlibrary hσ hplain.2.2 (located_ifElse hcode).2
        (hm'.trans hmemory) hother
  | .loopLeft hvalue hcontinues => by
      subst hmemory
      have hv := (not_congr (not_eq_zero_iff_continues _)).mpr hcontinues
      exact simulates_loop_left hlibrary hσ hplain.1 hvalue hv hcode
  | .loopReturned hvalue hcontinues hbody => by
      rw [← hmemory] at hvalue
      have hv := (not_eq_zero_iff_continues _).mpr hcontinues
      apply simulates_loop_returned hlibrary hσ hplain.1 hvalue hv hcode
      intro m' hm'
      exact Block.simulates hlibrary hσ hplain.2 (located_loop_body hcode)
        (hm'.trans hmemory) hbody
  | .loopAgain hvalue hcontinues hbody hloop => by
      rw [← hmemory] at hvalue
      have hv := (not_eq_zero_iff_continues _).mpr hcontinues
      have hthrough := reaches_loop_again hlibrary hσ hplain.1 hvalue hv hcode
        (fun m' hm' => Block.simulates hlibrary hσ hplain.2 (located_loop_body hcode)
          (hm'.trans hmemory) hbody)
      rcases hthrough with ⟨m', hreaches, hstack, hm'⟩
      have hagain := Statement.simulates hlibrary hσ hplain hcode hm' hloop
      apply hagain.within hreaches hstack _ (Nat.le_refl _) (Nat.le_refl _)
      intro _ _ m1
      exact Config.Reaches.refl _

theorem Block.simulates (hlibrary : library.Computes divide) (hσ : σ.Declared)
    {block : Block} {memory : Memory} {ending : Ending} {position label : Nat} {m : Machine}
    (hplain : block.Plain σ) (hcode : Located program position (block.code σ label))
    (hmemory : m.memory = memory) :
    Block.Runs σ.location divide block memory ending ->
      Simulates library program position (position + (block.code σ label).length) m ending
  | .nil => ⟨m, Config.Reaches.refl _, rfl, hmemory⟩
  | .returned hfirst => by
      rw [Block.code] at hcode ⊢
      have hrun := Statement.simulates hlibrary hσ hplain.1 hcode.left hmemory hfirst
      rw [List.length_append]
      apply hrun.within (Config.Reaches.refl _) rfl _ (Nat.le_refl _) (by omega)
      intro _ hfinished
      cases hfinished
  | .cons hfirst hrest => by
      rw [Block.code] at hcode ⊢
      rcases Statement.simulates hlibrary hσ hplain.1 hcode.left hmemory hfirst with
        ⟨m', hreaches, hstack, hm'⟩
      have hrun := Block.simulates hlibrary hσ hplain.2 hcode.right hm' hrest
      rw [List.length_append, ← Nat.add_assoc]
      apply hrun.within hreaches hstack _ (by omega) (Nat.le_refl _)
      intro _ _ m1
      exact Config.Reaches.refl _

end

end

/-!
# Blocks that stand ahead
-/

/-- The code of a block is located wherever no label it may draw is defined before. -/
theorem Block.located {σ : Scope} {block : Block} {label : Nat} {before after : List Instr}
    (hbefore : forall number, label ≤ number -> number < label + block.labels ->
      .label number ∉ before) :
    Located (before ++ block.code σ label ++ after) before.length (block.code σ label) := by
  have hdrawn := Block.drawn_definedLabels σ block label
  apply located_of_nodup hdrawn.1
  intro number hmem
  rcases hdrawn.2 number hmem with ⟨hlow, hhigh⟩
  exact hbefore number hlow hhigh

end Syntax

/-- Statements that stand ahead are compiled, the scanner stops at the brace behind them,
and the code that was added runs as the statements do: on any machine, and in any program
that does not define its labels before it. -/
theorem statements_preserve_meaning {c : Compiler} {block : Block} {rest : List Token}
    {library : Library} {divide : Word -> Word -> Option Word}
    (hopen : c.treeOpen = true) (hdeclared : c.scope.Declared)
    (hplain : block.Plain c.scope)
    (hshows : c.scanner.Shows (block.tokens ++ .symbol .rightBrace :: rest))
    (hlibrary : library.Computes divide) :
    exists c' code, statements.run c = .ok () c' ∧
      c'.scanner.Shows (.symbol .rightBrace :: rest) ∧
      c'.code.toList = c.code.toList ++ code ∧
      forall (before after : List Instr) (m : Machine) (ending : Ending),
        (forall number, c.labels ≤ number -> number < c'.labels ->
          .label number ∉ before) ->
        Block.Runs c.scope.location divide block m.memory ending ->
        Simulates library (before ++ code ++ after) before.length
          (before.length + code.length) m ending := by
  have hready : c.Ready c.scope c.labels
      (Tree.leaves block.marks ++ .symbol .rightBrace :: rest) := by
    rw [Block.marks, Tree.leaves_enclose, Block.leaves_parts]
    exact ⟨hopen, rfl, rfl, hshows⟩
  have hends := endsBlock_symbol .rightBrace rest
  rcases accepts_block hplain.resolved hends (List.cons_ne_nil _ _) c hready
    with ⟨c', hrun, hyields⟩
  refine ⟨c', block.code c.scope c.labels, hrun, ?_, ?_, ?_⟩
  · exact (hyields.ready hready (List.cons_ne_nil _ _)).shows
  · rw [hyields.code]
    simp
  · intro before after m ending hbefore hruns
    rw [hyields.labels] at hbefore
    exact Block.simulates hlibrary hdeclared hplain (Block.located hbefore) rfl hruns

/-!
# A loop at hand

While `i` is positive, an element of the array is set to the field `x`, unless that is
zero, and `i` is counted down.
-/

def fillArray : Block :=
  .cons
    (.loop (.mk (.integer "0") (.cons .less (.var "i") .nil))
      (.cons
        (.ifThen (.mk (.var "x") .nil)
          (.cons (.store "a" (.mk (.var "i") .nil) (.mk (.var "x") .nil)) .nil))
        (.cons (.assign "i" (.mk (.var "i") (.cons .sub (.integer "1") .nil))) .nil)))
    (.cons (.give (.mk (.element "a" (.mk (.integer "1") .nil)) .nil)) .nil)

def fillArrayScanner : Scanner :=
  { rest :=
      "0 < i) \x7b if (x) \x7b let a[i] = x; \x7d let i = i - 1; \x7d return a[1]; \x7d".toList
    current := some (.keyword .while)
    next := some (.symbol .leftParen) }

/-- The array stands at 100 and the object at 200.  The field `x` is 7, and `i` is 1. -/
def fillArrayMemory : Memory where
  locals := fun _ => Word.wrap 100
  arguments := fun _ => Word.wrap 1
  statics := fun _ => Word.wrap 0
  this := Word.wrap 200
  heap := fun _ => Word.wrap 7

def fillArrayMachine : Machine where
  stack := []
  memory := fillArrayMemory
  that := Word.wrap 0
  temp := fun _ => Word.wrap 0

theorem statements_preserve_meaning_of_loop :
    exists c' code,
      statements.run (Compiler.inSubroutine fillArrayScanner) = .ok () c' ∧
      c'.scanner.Shows [.symbol .rightBrace] ∧ c'.code.toList = code ∧
      Simulates Library.math code 0 code.length fillArrayMachine
        (.returned (Word.wrap 7)
          ((fillArrayMemory.storeHeap (Word.wrap 101) (Word.wrap 7)).store ⟨.argument, 0⟩
            (Word.wrap 0))) := by
  have hplain : fillArray.Plain (Compiler.inSubroutine fillArrayScanner).scope := by
    have ha : (Compiler.inSubroutine fillArrayScanner).scope.IsStored "a" := ⟨_, .var, rfl, rfl⟩
    have hi : (Compiler.inSubroutine fillArrayScanner).scope.IsStored "i" :=
      ⟨_, .argument, rfl, rfl⟩
    have hx : (Compiler.inSubroutine fillArrayScanner).scope.IsStored "x" :=
      ⟨_, .field, rfl, rfl⟩
    exact ⟨⟨⟨trivial, hi, trivial⟩, ⟨⟨hx, trivial⟩, ⟨ha, ⟨hi, trivial⟩, hx, trivial⟩, trivial⟩,
      ⟨hi, hi, trivial, trivial⟩, trivial⟩, ⟨⟨ha, trivial, trivial⟩, trivial⟩, trivial⟩
  have hshows : fillArrayScanner.Shows (fillArray.tokens ++ [.symbol .rightBrace]) := by
    refine ⟨_, _, rfl, rfl, Prod.ext ?_ (Option.isNone_iff_eq_none.mp ?_)⟩
    · decide +kernel
    · decide +kernel
  rcases statements_preserve_meaning rfl (Compiler.declared_inSubroutine _) hplain hshows
    Library.math_computes with ⟨c', code, hrun, hstop, hcode, hsimulates⟩
  refine ⟨c', code, hrun, hstop, hcode, ?_⟩
  have hruns : Block.Runs (Compiler.inSubroutine fillArrayScanner).scope.location Word.quotient
      fillArray fillArrayMemory
      (.returned (Word.wrap 7)
        ((fillArrayMemory.storeHeap (Word.wrap 101) (Word.wrap 7)).store ⟨.argument, 0⟩
          (Word.wrap 0))) := by
    apply Block.Runs.cons
    · apply Statement.Runs.loopAgain rfl (by decide +kernel)
      · apply Block.Runs.cons
        · apply Statement.Runs.ifThenTaken rfl (by decide +kernel)
          exact .cons (.store rfl rfl rfl) .nil
        · exact .cons (.assign rfl rfl) .nil
      · exact .loopLeft rfl (by decide +kernel)
    · exact .returned (.give rfl)
  have hall := hsimulates [] [] fillArrayMachine _ (fun _ _ _ hmem => by cases hmem) hruns
  rw [List.nil_append, List.append_nil, List.length_nil, Nat.zero_add] at hall
  exact hall

end Jack
