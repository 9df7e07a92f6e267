import Jack.Proofs.Calls.Routines
import Jack.Proofs.Completeness
import Jack.Proofs.Recognition.Class
import Jack.Proofs.TreeInjectivity

/-!
# The tree is nested

At every moment of a run, the text of the tree is a sequence of lines in which constructs
are properly nested, and every line is as far in as constructs are open around it.  The
depth that the compiler keeps is the number of constructs that are open.  If the run
succeeds, all constructs are closed, and the lines are the derivation tree of a class.
-/

namespace Jack

open Syntax

/-!
# Nested lines
-/

namespace Tree

/-- Lines of text in which constructs open and close.  Before the lines some constructs
are open, and others behind them; the innermost one stands first. -/
inductive Nests : List Nonterminal -> List String -> List Nonterminal -> Prop where
  | nil (opened : List Nonterminal) : Nests opened [] opened
  | opening {opened opened' : List Nonterminal} {lines : List String}
      (nonterminal : Nonterminal) :
      Nests (nonterminal :: opened) lines opened' ->
      Nests opened (indented opened.length (openingText nonterminal.tag) :: lines) opened'
  | leaf {opened opened' : List Nonterminal} {lines : List String} (token : Token) :
      Nests opened lines opened' ->
      Nests opened (indented opened.length (leafText (leafTag token) token.shown) :: lines) opened'
  | closing {opened opened' : List Nonterminal} {lines : List String}
      (nonterminal : Nonterminal) :
      Nests opened lines opened' ->
      Nests (nonterminal :: opened)
        (indented opened.length (closingText nonterminal.tag) :: lines) opened'

theorem Nests.append {opened opened' opened'' : List Nonterminal} {first second : List String}
    (hfirst : Nests opened first opened') (hsecond : Nests opened' second opened'') :
    Nests opened (first ++ second) opened'' := by
  induction hfirst with
  | nil => exact hsecond
  | opening nonterminal _ ih => exact Nests.opening nonterminal (ih hsecond)
  | leaf token _ ih => exact Nests.leaf token (ih hsecond)
  | closing nonterminal _ ih => exact Nests.closing nonterminal (ih hsecond)

/-- Marks that are written as lines behind the given constructs are nested, and they
change the depth by the number of constructs. -/
structure Turns (opened : List Nonterminal) (marks : List Mark) (opened' : List Nonterminal) :
    Prop where
  nests : Nests opened ((linesFrom opened.length marks).map Line.text) opened'
  levels : (opened.length : Int) + levels marks = opened'.length

theorem turns_leaf (opened : List Nonterminal) (leaf : Option Token) :
    Turns opened (leaf.map Mark.leaf).toList opened := by
  cases leaf with
  | none => exact ⟨Nests.nil opened, by simp [levels]⟩
  | some token => exact ⟨Nests.leaf token (Nests.nil opened), by simp [levels]⟩

end Tree

/-- A call that the frame allows opens and closes constructs as the frame says. -/
theorem Frame.Allows.turns {f f' : Frame} {call : Call} {label : Nat}
    (h : Frame.Allows label f call f') (current : Option Token) :
    Tree.Turns f.opened (call.marks current) f'.opened := by
  cases h with
  | enter f nonterminal =>
      constructor
      · exact Tree.Nests.opening nonterminal (Tree.Nests.nil _)
      · simp [Call.marks, Tree.levels, Frame.push]
  | leave _ nonterminal =>
      have hdepth : ((f'.push nonterminal).opened.length : Int) + -1 = f'.opened.length := by
        simp only [Frame.push, List.length_cons]
        omega
      constructor
      · simp only [Call.marks, Tree.linesFrom, hdepth]
        exact Tree.Nests.closing nonterminal (Tree.Nests.nil _)
      · simpa [Call.marks, Tree.levels] using hdepth
  | take => exact Tree.turns_leaf f.opened current
  | _ => exact Tree.turns_leaf _ none

/-!
# The tree of a compiler
-/

namespace Compiler

/-- The lines of the tree are nested, and the depth is the number of open constructs. -/
structure Nested (c : Compiler) (opened : List Nonterminal) : Prop where
  nests : Tree.Nests [] (c.tree.toList.map Tree.Line.text) opened
  depth : c.depth = opened.length

section

variable {c c' : Compiler} {opened opened' : List Nonterminal}

theorem Nested.turn {marks : List Tree.Mark} (h : c.Nested opened)
    (hturns : Tree.Turns opened marks opened')
    (htree : c'.tree = c.tree ++ (Tree.linesFrom c.depth marks).toArray)
    (hdepth : c'.depth = c.depth + Tree.levels marks) : c'.Nested opened' := by
  constructor
  · rw [htree, h.depth]
    simpa using h.nests.append hturns.nests
  · rw [hdepth, h.depth, hturns.levels]

theorem Calls.nested {f f' : Frame} {calls : List Call} (hcalls : c.Calls f calls c' f')
    (h : c.Nested f.opened) : c'.Nested f'.opened := by
  induction hcalls with
  | nil => exact h
  | cons hrun hallows _ ih =>
      have hmakes := hallows.makes hrun
      exact ih (h.turn (hallows.turns _) hmakes.tree hmakes.depth)

theorem Ends.nested {leaf : Option Token} (hends : c.Ends leaf c') (h : c.Nested opened) :
    c'.Nested opened := by
  apply h.turn (Tree.turns_leaf opened leaf) hends.tree
  rw [hends.depth]
  cases leaf <;> simp [Tree.levels]

theorem nested_started (c : Compiler) (s : Scanner) : (c.started s).Nested [] :=
  ⟨Tree.Nests.nil [], rfl⟩

end

/-- Behind every call of a sequence that one more call ends, the tree is nested. -/
theorem Calls.nested_of_prefix {c d : Compiler} {f g : Frame} {calls front : List Call}
    {last : Call} (hcalls : c.Calls f calls d g) (h : c.Nested f.opened)
    (hend : (c.after (Call.performAll (calls ++ [last]))).Nested g.opened)
    (hfront : front <+: calls ++ [last]) :
    exists opened, (c.after (Call.performAll front)).Nested opened := by
  rcases List.prefix_concat_iff.mp hfront with rfl | ⟨others, rfl⟩
  · exact ⟨g.opened, hend⟩
  · rcases hcalls.exists_of_append with ⟨e, k, hfirst, _⟩
    have hafter : c.after (Call.performAll front) = e := by
      unfold after
      rw [hfirst.run]
    rw [hafter]
    exact ⟨k.opened, hfirst.nested h⟩

/-- The run of a class writes its derivation tree. -/
theorem exists_class_of_run {c c' : Compiler} {s : Scanner}
    (h : Compile.classUnit.run (c.started s) = .ok () c') :
    exists unit : Syntax.Class, c'.tree.toList = Tree.linesFrom 0 unit.marks ∧
      Tree.leaves (c'.tree.toList.map Tree.Line.mark) = unit.tokens := by
  rcases Compile.classUnit_makes h with ⟨unit, d, _, hmakes, rfl⟩
  have htree : d.tree = #[] ++ (Tree.linesFrom 0 unit.marks).toArray := hmakes.tree
  have hlines : d.tree.toList = Tree.linesFrom 0 unit.marks := by simp [htree]
  refine ⟨unit, hlines, ?_⟩
  show Tree.leaves (d.tree.toList.map Tree.Line.mark) = unit.tokens
  rw [hlines, Tree.map_mark_linesFrom, unit.leaves_marks]

end Compiler

/-!
# Runs
-/

/-- The run on a source that is taken up is a sequence of calls, and the tree is nested
behind each of them, the last one of a run that fails included.  If the run succeeds, no
construct is left open, and the tree is the derivation tree of a class with the leaves as
its tokens. -/
theorem tree_nested_throughout {text : String} {c c1 : Compiler}
    (hload : (Compile.load text).run c = .ok () c1) :
    (exists calls : List Call,
      (Call.performAll calls).run c1 = Compile.classUnit.run c1 ∧
        forall front, front <+: calls ->
          exists opened, (c1.after (Call.performAll front)).Nested opened) ∧
      forall c2, Compile.classUnit.run c1 = .ok () c2 ->
        c2.Nested [] ∧ c2.depth = 0 ∧
          exists unit : Syntax.Class, c2.tree.toList = Tree.linesFrom 0 unit.marks ∧
            Tree.leaves (c2.tree.toList.map Tree.Line.mark) = unit.tokens := by
  rcases Compile.run_load_eq_ok_iff.mp hload with ⟨_, s, _, _, rfl⟩
  have hstart := Compiler.nested_started c s
  rcases Compile.exists_calls_classUnit (c := c.started s) rfl with
    ⟨calls, d, g, last, leaf, hcalls, hrun, hends, hclosed⟩
  have hend := hends.nested (hcalls.nested hstart)
  constructor
  · refine ⟨calls ++ [last], hrun, ?_⟩
    intro front hfront
    apply hcalls.nested_of_prefix hstart _ hfront
    unfold Compiler.after at hend ⊢
    rw [hrun]
    exact hend
  · intro c2 hok
    have hafter : (c.started s).after Compile.classUnit = c2 := by
      unfold Compiler.after
      rw [hok]
    rw [hafter, hclosed c2 hok] at hend
    exact ⟨hend, hend.depth, Compiler.exists_class_of_run hok⟩

theorem tree_nested_of_counter :
    exists c1 c2, (Compile.load Syntax.Class.counter.text).run {} = .ok () c1 ∧
      Compile.classUnit.run c1 = .ok () c2 ∧
      (exists calls : List Call,
        (Call.performAll calls).run c1 = Compile.classUnit.run c1 ∧
          forall front, front <+: calls ->
            exists opened, (c1.after (Call.performAll front)).Nested opened) ∧
      c2.Nested [] ∧ c2.depth = 0 := by
  rcases Compile.exists_run_counter with ⟨c1, c2, hload, hrun⟩
  rcases tree_nested_throughout hload with ⟨hcalls, hclass⟩
  rcases hclass c2 hrun with ⟨hnested, hdepth, _⟩
  exact ⟨c1, c2, hload, hrun, hcalls, hnested, hdepth⟩

end Jack
