import Jack.Proofs.Calls.Routines
import Jack.Proofs.Completeness
import Jack.Proofs.Recognition.Class

/-!
# Labels and jumps

A compiler defines every label once, over all the sources that it is given, and the count
of labels never gets smaller.  This holds as well if sources are refused halfway.  In the
code of a class that is accepted, every jump goes to a label of its own function.
-/

namespace Jack

open Syntax

/-!
# Names of labels
-/

theorem Instr.labelText_injective {number other : Nat} (h : labelText number = labelText other) :
    number = other := by
  have hnumerals : (toString number).toList = (toString other).toList := by
    simpa [labelText] using congrArg String.toList h
  rw [Nat.toString_eq_repr, Nat.toString_eq_repr, Nat.toList_repr, Nat.toList_repr] at hnumerals
  rw [← Nat.ofDigitChars_ten_toDigits (n := number), hnumerals, Nat.ofDigitChars_ten_toDigits]

/-!
# Jumps
-/

namespace Instr

/-- The label that a command jumps to. -/
def target? : Instr -> Option Nat
  | .goto number => some number
  | .ifGoto number => some number
  | _ => none

def isFunction : Instr -> Bool
  | .function _ _ => true
  | _ => false

end Instr

/-- Every jump goes to a label that is defined once in the code, and this within the
function of the jump: behind the start of the function, and before the next one starts. -/
def JumpsWithin (code : List Instr) : Prop :=
  forall before jump after number, code = before ++ jump :: after -> jump.target? = some number ->
    code.count (.label number) = 1 ∧
      exists (front : List Instr) (name : String) (locals : Nat) (inner outer back : List Instr),
        before = front ++ .function name locals :: inner ∧ after = outer ++ back ∧
          (inner ++ outer).all (fun instr => !instr.isFunction) = true ∧
          back.head?.all Instr.isFunction = true ∧ .label number ∈ inner ++ outer

/-!
# Code that jumps within itself
-/

/-- A command of some code that is not the start of a function, and that jumps nowhere but
to a label of the code. -/
structure Instr.Fits (code : List Instr) (instr : Instr) : Prop where
  within : instr.isFunction = false
  jumps : forall number, instr.target? = some number -> .label number ∈ code

namespace Instr

variable {code : List Instr}

theorem fits_of_plain {instr : Instr} (h : instr.isPlain = true) : instr.Fits code := by
  constructor
  · cases instr <;> simp_all [isPlain, isFunction]
  · intro number htarget
    cases instr <;> simp_all [isPlain, target?]

theorem fits_label (number : Nat) : (Instr.label number).Fits code := by
  constructor
  · rfl
  · intro other htarget
    cases htarget

theorem fits_goto {number : Nat} (h : .label number ∈ code) : (Instr.goto number).Fits code := by
  constructor
  · rfl
  · intro other htarget
    cases htarget
    exact h

theorem fits_ifGoto {number : Nat} (h : .label number ∈ code) :
    (Instr.ifGoto number).Fits code := by
  constructor
  · rfl
  · intro other htarget
    cases htarget
    exact h

end Instr

/-- Code within one function that jumps only to its own labels. -/
def Closed (code : List Instr) : Prop :=
  forall instr, instr ∈ code -> instr.Fits code

/-- The commands fit in any code that holds them all. -/
theorem Closed.fits {part code : List Instr} (h : Closed part)
    (hpart : forall instr, instr ∈ part -> instr ∈ code) :
    forall instr, instr ∈ part -> instr.Fits code := by
  intro instr hmem
  constructor
  · exact (h instr hmem).within
  · intro number htarget
    exact hpart _ ((h instr hmem).jumps number htarget)

theorem Closed.append {first second : List Instr} (hfirst : Closed first)
    (hsecond : Closed second) : Closed (first ++ second) := by
  intro instr hmem
  rcases List.mem_append.mp hmem with hin | hin
  · exact hfirst.fits (fun _ => List.mem_append_left second) instr hin
  · exact hsecond.fits (fun _ => List.mem_append_right first) instr hin

/-- Plain code fits in any code. -/
theorem fits_of_plain {part : List Instr} (h : part.all Instr.isPlain = true)
    (code : List Instr) : forall instr, instr ∈ part -> instr.Fits code := by
  intro instr hmem
  exact Instr.fits_of_plain (List.all_eq_true.mp h instr hmem)

theorem closed_of_plain {code : List Instr} (h : code.all Instr.isPlain = true) : Closed code :=
  fits_of_plain h code

namespace Syntax

mutual

theorem Statement.closed_code (σ : Scope) :
    forall (s : Statement) (label : Nat), Closed (s.code σ label)
  | .assign _ _, label => closed_of_plain (Statement.plain_code σ rfl label)
  | .store _ _ _, label => closed_of_plain (Statement.plain_code σ rfl label)
  | .call _ _, label => closed_of_plain (Statement.plain_code σ rfl label)
  | .callOn _ _ _, label => closed_of_plain (Statement.plain_code σ rfl label)
  | .leave, label => closed_of_plain (Statement.plain_code σ rfl label)
  | .give _, label => closed_of_plain (Statement.plain_code σ rfl label)
  | .ifThen condition body, label => by
      have hcondition := fits_of_plain (condition.plain_code σ)
      have hbody := Block.closed_code σ body (label + 3)
      unfold Closed
      simp only [Statement.code, List.forall_mem_append, List.forall_mem_cons]
      exact ⟨hcondition _, Instr.fits_ifGoto (by simp), Instr.fits_goto (by simp),
        Instr.fits_label _, hbody.fits fun _ hmem => by simp [hmem], Instr.fits_goto (by simp),
        Instr.fits_label _, Instr.fits_label _, by simp⟩
  | .ifElse condition body other, label => by
      have hcondition := fits_of_plain (condition.plain_code σ)
      have hbody := Block.closed_code σ body (label + 3)
      have hother := Block.closed_code σ other (label + 3 + body.labels)
      unfold Closed
      simp only [Statement.code, List.forall_mem_append, List.forall_mem_cons]
      exact ⟨hcondition _, Instr.fits_ifGoto (by simp), Instr.fits_goto (by simp),
        Instr.fits_label _, hbody.fits fun _ hmem => by simp [hmem], Instr.fits_goto (by simp),
        Instr.fits_label _, hother.fits fun _ hmem => by simp [hmem], Instr.fits_label _, by simp⟩
  | .loop condition body, label => by
      have hcondition := fits_of_plain (condition.plain_code σ)
      have hbody := Block.closed_code σ body (label + 2)
      unfold Closed
      simp only [Statement.code, List.forall_mem_append, List.forall_mem_cons]
      exact ⟨Instr.fits_label _, hcondition _, Instr.fits_of_plain rfl,
        Instr.fits_ifGoto (by simp), hbody.fits fun _ hmem => by simp [hmem],
        Instr.fits_goto (by simp), Instr.fits_label _, by simp⟩

theorem Block.closed_code (σ : Scope) :
    forall (block : Block) (label : Nat), Closed (block.code σ label)
  | .nil, label => closed_of_plain rfl
  | .cons first rest, label => by
      rw [Block.code]
      exact (Statement.closed_code σ first label).append
        (Block.closed_code σ rest (label + first.labels))

end

/-!
# Functions
-/

theorem plain_prologueCode (size : Nat) (type : Option String) :
    (prologueCode size type).all Instr.isPlain = true := by
  unfold prologueCode
  split
  · rfl
  · split <;> rfl

/-- The code of a subroutine is a function whose body is closed. -/
theorem Placed.exists_code_eq (size : Nat) (p : Placed) :
    exists name locals body, p.code size = .function name locals :: body ∧ Closed body :=
  ⟨_, _, _, rfl, (closed_of_plain (plain_prologueCode _ _)).append (Block.closed_code _ _ _)⟩

end Syntax

theorem count_label (number : Nat) (code : List Instr) :
    code.count (.label number) = (definedLabels code).count number := by
  induction code with
  | nil => rfl
  | cons instr rest ih =>
      cases instr <;> simp_all [definedLabels, List.count_cons]

/-- A list of functions is empty, or it begins with the start of a function. -/
theorem head_flatten_functions {functions : List (List Instr)}
    (h : forall part, part ∈ functions ->
      exists name locals body, part = .function name locals :: body ∧ Closed body) :
    functions.flatten.head?.all Instr.isFunction = true := by
  cases functions with
  | nil => rfl
  | cons part rest =>
      rcases h part List.mem_cons_self with ⟨name, locals, body, rfl, _⟩
      rfl

/-- Functions with closed bodies, one after the other, jump within themselves if no label
is defined twice. -/
theorem jumpsWithin_flatten {functions : List (List Instr)}
    (hfunctions : forall part, part ∈ functions ->
      exists name locals body, part = .function name locals :: body ∧ Closed body)
    (hnodup : (definedLabels functions.flatten).Nodup) : JumpsWithin functions.flatten := by
  intro before jump after number hsplit htarget
  have hjump : jump.isFunction = false := by
    cases jump <;> simp_all [Instr.target?, Instr.isFunction]
  -- A jump is not the first command of a function, so it stands inside one of them.
  rcases List.flatten_eq_append_iff.mp hsplit with
    ⟨front, back, rfl, _, hback⟩ | ⟨front, start, first, outer, back, rfl, rfl, hafter⟩
  · have hhead := head_flatten_functions fun part hmem =>
      hfunctions part (List.mem_append_right front hmem)
    rw [← hback] at hhead
    simp [hjump] at hhead
  · rw [List.cons_append] at hafter
    injection hafter with hfirst hafter
    subst hfirst
    rcases hfunctions (start ++ jump :: outer) (by simp) with ⟨name, locals, body, hpart, hbody⟩
    cases start with
    | nil =>
        injection hpart with hstart
        rw [hstart] at hjump
        cases hjump
    | cons head inner =>
        rw [List.cons_append] at hpart
        injection hpart with hhead hinner
        subst hhead hinner
        have hlabel := (hbody jump (by simp)).jumps number htarget
        have hother : .label number ≠ jump := by
          intro heq
          rw [← heq] at htarget
          cases htarget
        have hinside : .label number ∈ inner ++ outer := by simpa [hother] using hlabel
        refine ⟨?_, front.flatten, name, locals, inner, outer, back.flatten, by simp, hafter,
          ?_, ?_, hinside⟩
        · rw [count_label]
          apply List.count_eq_one_of_mem hnodup
          apply mem_definedLabels.mpr
          exact List.mem_flatten.mpr
            ⟨.function name locals :: (inner ++ jump :: outer), by simp,
              List.mem_cons_of_mem _ hlabel⟩
        · apply List.all_eq_true.mpr
          intro instr hmem
          have hpart : instr ∈ inner ++ jump :: outer := by
            rcases List.mem_append.mp hmem with hin | hin <;> simp [hin]
          rw [(hbody instr hpart).within]
          rfl
        · exact head_flatten_functions fun part hmem => hfunctions part (by simp [hmem])

/-!
# The count of labels
-/

namespace Compile

/-- The step never makes the count of labels smaller. -/
def Grows (step : CompileM α) : Prop :=
  forall c : Compiler, c.labels ≤ (c.after step).labels

/-- What is done behind a step that fails does not matter. -/
theorem labels_le_bind (first : CompileM α) {second : α -> CompileM β}
    (hsecond : forall a, Grows (second a)) (c : Compiler) :
    (c.after first).labels ≤ (c.after (first >>= second)).labels := by
  unfold Compiler.after
  cases hrun : first.run c with
  | ok a c' =>
      rw [run_bind_of_ok hrun]
      exact hsecond a c'
  | error fault c' =>
      have hbind : (first >>= second).run c = .error fault c' :=
        run_bind_eq_error_iff.mpr (Or.inl hrun)
      apply Nat.le_of_eq
      rw [hbind]

theorem Grows.bind {first : CompileM α} {second : α -> CompileM β} (hfirst : Grows first)
    (hsecond : forall a, Grows (second a)) : Grows (first >>= second) := by
  intro c
  exact Nat.le_trans (hfirst c) (labels_le_bind first hsecond c)

theorem grows_pure (a : α) : Grows (pure a : CompileM α) :=
  fun _ => Nat.le_refl _

theorem grows_writeMark (mark : Tree.Mark) : Grows (writeMark mark) := by
  intro c
  unfold Compiler.after
  cases hrun : (writeMark mark).run c with
  | ok _ c' =>
      rcases run_writeMark_eq_ok_iff.mp hrun with ⟨_, rfl⟩
      exact Nat.le_refl _
  | error fault c' =>
      rw [run_writeMark] at hrun
      split at hrun
      · cases hrun
      · cases hrun
        exact Nat.le_refl _

theorem grows_deepen (levels : Int) : Grows (deepen levels) :=
  fun _ => Nat.le_refl _

theorem grows_moveOn : Grows moveOn := by
  intro c
  unfold Compiler.after
  cases hrun : moveOn.run c with
  | ok _ c' =>
      rcases run_moveOn_eq_ok_iff.mp hrun with ⟨_, _, rfl⟩
      exact Nat.le_refl _
  | error fault c' =>
      rcases exists_scanner_of_moveOn_error hrun with ⟨_, _, _, rfl⟩
      exact Nat.le_refl _

end Compile

namespace Call

open Compile

theorem grows_action (call : Call) : Grows call.action := by
  cases call with
  | enter nonterminal => exact (grows_writeMark _).bind fun _ => grows_deepen 1
  | leave nonterminal => exact (grows_deepen (-1)).bind fun _ => grows_writeMark _
  | take =>
      have hcurrent : Grows current := fun _ => Nat.le_refl _
      apply hcurrent.bind
      intro token
      cases token with
      | none => exact grows_pure ()
      | some token => exact (grows_writeMark _).bind fun _ => grows_moveOn
  | emit instr => exact fun _ => Nat.le_refl _
  | draw => exact fun c => Nat.le_succ c.labels
  | file tables => exact fun _ => Nat.le_refl _
  | close => exact fun _ => Nat.le_refl _
  | stop fault => exact fun _ => Nat.le_refl _

theorem grows_performAll (calls : List Call) : Grows (performAll calls) := by
  induction calls with
  | nil => exact grows_pure ()
  | cons call rest ih => exact (grows_action call).bind fun _ => ih

/-- The count of labels never gets smaller from call to call. -/
theorem labels_le_of_prefix {front calls : List Call} (h : front <+: calls) (c : Compiler) :
    (c.after (performAll front)).labels ≤ (c.after (performAll calls)).labels := by
  rcases h with ⟨rest, rfl⟩
  rw [performAll_append]
  exact labels_le_bind _ (fun _ => grows_performAll rest) c

end Call
/-!
# Requests
-/

/-- What a compiler is asked for: to take up a text, or to compile a class where it
stands. -/
inductive Request where
  | load (text : String)
  | compile

def Request.step : Request -> CompileM Unit
  | .load text => Compile.load text
  | .compile => Compile.classUnit

/-- Labels are not drawn where a source is taken up. -/
theorem Compile.labels_of_start_error {scanner : Scanner} {c c' : Compiler} {fault : Fault}
    (h : (start scanner).run c = .error fault c') : c'.labels = c.labels := by
  unfold start at h
  rcases run_bind_eq_error_iff.mp h with h | ⟨_, _, hset, h⟩
  · cases h
  cases hset
  rcases run_bind_eq_error_iff.mp h with h | ⟨_, _, _, h⟩
  · rw [run_scanning] at h
    split at h
    · cases h
    · cases h
      rfl
  · cases h

namespace Compiler

/-- The code that is added on a request, whether it succeeds or not. -/
def added (c : Compiler) : Request -> List Instr
  | .load _ => []
  | .compile => (c.after Compile.classUnit).code.toList.drop c.code.size

/-- All the code that is written on requests, and the compiler behind them. -/
def serve : Compiler -> List Request -> List Instr × Compiler
  | c, [] => ([], c)
  | c, request :: rest =>
      let served := (c.after request.step).serve rest
      (c.added request ++ served.1, served.2)

theorem serve_append (c : Compiler) (front rest : List Request) :
    (c.serve (front ++ rest)).2 = ((c.serve front).2.serve rest).2 := by
  induction front generalizing c with
  | nil => rfl
  | cons request front ih => exact ih _

theorem labels_after_load (c : Compiler) (text : String) :
    (c.after (Compile.load text)).labels = c.labels := by
  unfold after
  cases hrun : (Compile.load text).run c with
  | ok _ c1 =>
      rcases Compile.run_load_eq_ok_iff.mp hrun with ⟨_, s, _, _, rfl⟩
      rfl
  | error fault c1 =>
      unfold Compile.load at hrun
      split at hrun
      · exact Compile.labels_of_start_error hrun
      · cases hrun
        rfl

/-- A closed tree stops a class at once. -/
theorem run_classUnit_of_closed {c : Compiler} (h : c.treeOpen = false) :
    Compile.classUnit.run c = .error .closedTree c := by
  have hwrite : (Compile.writeMark (.opening .«class»)).run c = .error .closedTree c := by
    rw [Compile.run_writeMark, h]
    rfl
  unfold Compile.classUnit Compile.enter
  apply Compile.run_bind_eq_error_iff.mpr
  apply Or.inl
  exact Compile.run_bind_eq_error_iff.mpr (Or.inl hwrite)

/-- A request defines labels that it has drawn, each of them once. -/
theorem exists_drawn_added (c : Compiler) (request : Request) :
    exists labels, (c.after request.step).labels = c.labels + labels ∧
      Drawn c.labels labels (definedLabels (c.added request)) := by
  cases request with
  | load text => exact ⟨0, labels_after_load c text, drawn_nil c.labels 0⟩
  | compile =>
      cases hopen : c.treeOpen with
      | false =>
          have hafter : c.after Compile.classUnit = c := by
            unfold after
            rw [run_classUnit_of_closed hopen]
          refine ⟨0, ?_, ?_⟩
          · show (c.after Compile.classUnit).labels = _
            rw [hafter]
            rfl
          · rw [added, hafter, List.drop_eq_nil_of_le (by simp)]
            exact drawn_nil c.labels 0
      | true =>
          rcases Compile.exists_calls_classUnit hopen with
            ⟨calls, d, g, _, _, hcalls, _, hends, _⟩
          rcases hcalls.exists_makes with ⟨_, code, labels, _, hmakes, hperm⟩
          refine ⟨labels, hends.labels.trans hmakes.labels, ?_⟩
          have hadded : c.added .compile = code := by
            rw [added, hends.code, hmakes.code]
            simp
          rw [hadded]
          exact ((drawn_range c.labels labels).perm hperm).left

/-- Compiling a class is a sequence of calls wherever the compiler stands. -/
theorem exists_performAll_classUnit (c : Compiler) :
    exists calls : List Call,
      (Call.performAll calls).run c = Compile.classUnit.run c := by
  cases hopen : c.treeOpen with
  | true =>
      rcases Compile.exists_calls_classUnit hopen with ⟨calls, _, _, last, _, _, hrun, _⟩
      exact ⟨calls ++ [last], hrun⟩
  | false =>
      refine ⟨[.stop .closedTree], ?_⟩
      rw [Call.performAll_singleton, run_classUnit_of_closed hopen]
      rfl

theorem exists_drawn_serve (c : Compiler) (requests : List Request) :
    exists labels, (c.serve requests).2.labels = c.labels + labels ∧
      Drawn c.labels labels (definedLabels (c.serve requests).1) := by
  induction requests generalizing c with
  | nil => exact ⟨0, rfl, drawn_nil c.labels 0⟩
  | cons request rest ih =>
      rcases c.exists_drawn_added request with ⟨first, hlabels, hfirst⟩
      rcases ih (c.after request.step) with ⟨others, hserved, hothers⟩
      rw [hlabels] at hserved hothers
      refine ⟨first + others, ?_, ?_⟩
      · rw [serve, hserved, Nat.add_assoc]
      · rw [serve, definedLabels_append]
        exact hfirst.append hothers

end Compiler

/-- The code of a class that is compiled from the start of a source jumps within its
functions. -/
theorem jumpsWithin_of_run {text : String} {c c1 c2 : Compiler}
    (hload : (Compile.load text).run c = .ok () c1) (hrun : Compile.classUnit.run c1 = .ok () c2) :
    JumpsWithin c2.code.toList := by
  rcases Compile.run_load_eq_ok_iff.mp hload with ⟨_, s, _, _, rfl⟩
  rcases (c.started s).exists_drawn_added .compile with ⟨_, _, hdrawn⟩
  have hadded : (c.started s).added .compile = c2.code.toList := by
    unfold Compiler.added Compiler.after
    rw [hrun]
    rfl
  rw [hadded] at hdrawn
  rcases Compile.classUnit_makes hrun with ⟨unit, d, _, hmakes, rfl⟩
  have hcode : d.code = #[] ++ (unit.code (c.started s).scope (c.started s).labels).toArray :=
    hmakes.code
  have hflatten : d.code.toList =
      ((unit.placed (c.started s).scope (c.started s).labels).map
        (Placed.code unit.size)).flatten := by
    rw [hcode]
    simp [Class.code, List.flatMap]
  show JumpsWithin d.code.toList
  have hnodup : (definedLabels d.code.toList).Nodup := hdrawn.1
  rw [hflatten] at hnodup ⊢
  apply jumpsWithin_flatten _ hnodup
  intro part hpart
  rcases List.mem_map.mp hpart with ⟨p, _, rfl⟩
  exact p.exists_code_eq unit.size

/-- On any requests, no two labels that a compiler writes have one name.  The count of
labels never gets smaller, neither from request to request nor from call to call while a
class is compiled.  In the code of every class that is accepted afterwards, jumps go to
labels within their function. -/
theorem labels_unique_and_jumps_resolved (c : Compiler) (requests : List Request) :
    ((definedLabels (c.serve requests).1).map Instr.labelText).Nodup ∧
      (forall front, front <+: requests ->
        (c.serve front).2.labels ≤ (c.serve requests).2.labels) ∧
      (exists calls : List Call,
        (Call.performAll calls).run (c.serve requests).2 =
            Compile.classUnit.run (c.serve requests).2 ∧
          forall front front', front <+: front' -> front' <+: calls ->
            ((c.serve requests).2.after (Call.performAll front)).labels ≤
              ((c.serve requests).2.after (Call.performAll front')).labels) ∧
      forall text c1 c2, (Compile.load text).run (c.serve requests).2 = .ok () c1 ->
        Compile.classUnit.run c1 = .ok () c2 -> JumpsWithin c2.code.toList := by
  refine ⟨?_, ?_, ?_, ?_⟩
  · rcases c.exists_drawn_serve requests with ⟨_, _, hdrawn⟩
    exact hdrawn.1.map fun _ _ => Instr.labelText_injective
  · intro front hfront
    rcases hfront with ⟨rest, rfl⟩
    rcases (c.serve front).2.exists_drawn_serve rest with ⟨_, hlabels, _⟩
    rw [Compiler.serve_append, hlabels]
    exact Nat.le_add_right _ _
  · rcases (c.serve requests).2.exists_performAll_classUnit with ⟨calls, hcalls⟩
    refine ⟨calls, hcalls, ?_⟩
    intro front front' hfront _
    exact Call.labels_le_of_prefix hfront _
  · intro text c1 c2 hload hrun
    exact jumpsWithin_of_run hload hrun

theorem jumps_resolved_of_counter :
    exists c1 c2, (Compile.load Syntax.Class.counter.text).run {} = .ok () c1 ∧
      Compile.classUnit.run c1 = .ok () c2 ∧ JumpsWithin c2.code.toList := by
  rcases Compile.exists_run_counter with ⟨c1, c2, hload, hrun⟩
  exact ⟨c1, c2, hload, hrun, (labels_unique_and_jumps_resolved {} []).2.2.2 _ _ _ hload hrun⟩

end Jack
