import Jack.Proofs.Acceptance.Class
import Jack.Proofs.Sources
import Jack.Proofs.Spelling

/-!
# Every class is accepted

A class that is written out is compiled, whatever was compiled before, if its names can
be looked up: the names it assigns to have an entry, and where an expression calls a
subroutine on a name it can be told what is called.  The tree that is written is the tree
of the class.
-/

namespace Jack

open Syntax

/-- A class as a text, with a blank behind every token. -/
def Syntax.Class.text (unit : Syntax.Class) : String :=
  String.ofList (Token.print unit.tokens)

/-- A class is taken up at its first token. -/
theorem Compile.exists_load_of_class {unit : Syntax.Class} {text : String}
    (h : tokenize text = (unit.tokens, none)) (c : Compiler) :
    exists s, (load text).run c = .ok () (c.started s) ∧ s.Shows unit.tokens := by
  have hcons : unit.tokens = .keyword .«class» :: unit.tokens.tail := rfl
  rw [hcons] at h
  rcases exists_load_of_tokens h c with ⟨s, hload, hstands⟩
  exact ⟨s, hload, _, _, hcons, hstands⟩

theorem Compiler.compile_of_resolved {unit : Syntax.Class} {text : String} {c : Compiler}
    (htext : tokenize text = (unit.tokens, none)) (hresolved : unit.Resolved c.scope c.labels) :
    (c.compile text).fault = none ∧
      (c.compile text).written =
        some (unit.code c.scope c.labels, Tree.linesFrom 0 unit.marks) := by
  rcases Compile.exists_load_of_class htext c with ⟨s, hload, hshows⟩
  rcases Compile.exists_run_classUnit (c := c.started s) rfl hshows hresolved with
    ⟨d, hrun, hmakes⟩
  rw [compile_of_load hload, hrun]
  exact ⟨rfl, congrArg some (hmakes.written rfl rfl rfl)⟩

/-- A class with a method and a function.  The function calls the method on a parameter, and
a subroutine of a class that is not at hand. -/
def Syntax.Class.counter : Syntax.Class where
  name := "Counter"
  vars := [⟨false, ⟨.int, "count", []⟩⟩]
  subroutines :=
    [⟨.method, some .int, "get", [], ⟨[], .cons (.give (.mk (.var "count") .nil)) .nil⟩⟩,
     ⟨.function, none, "wait", [⟨.named "Counter", "counter"⟩],
       ⟨[⟨⟨.int, "start", ["steps"]⟩⟩],
         .cons (.assign "start" (.mk (.callOn "counter" "get" .nil) .nil))
           (.cons
             (.loop (.mk (.callOn "Keyboard" "keyPressed" .nil) .nil)
               (.cons (.assign "steps"
                 (.mk (.var "steps") (.cons .add (.integer "1") .nil))) .nil))
             (.cons .leave .nil))⟩⟩]

theorem Syntax.Class.isLexeme_counter :
    forall token, token ∈ Syntax.Class.counter.tokens -> token.IsLexeme := by
  decide +kernel

theorem Syntax.Class.clear_counter :
    Syntax.Class.counter.Clear ({} : Compiler).scope ({} : Compiler).labels := by
  decide +kernel

/-- The class is compiled by a new compiler. -/
theorem Compile.exists_run_counter :
    exists c1 c2, (load Syntax.Class.counter.text).run {} = .ok () c1 ∧
      classUnit.run c1 = .ok () c2 := by
  have htokens := Token.tokenize_print Syntax.Class.isLexeme_counter
  rcases exists_load_of_class htokens {} with ⟨s, hload, hshows⟩
  rcases exists_run_classUnit (c := Compiler.started {} s) rfl hshows
    Syntax.Class.clear_counter.resolved with ⟨d, hrun, _⟩
  exact ⟨_, _, hload, hrun⟩

/-- A class whose tokens are words, numbers, strings and symbols can be written out, and
every text that is read as the class is compiled in every state of the compiler, provided
that its names can be looked up.  All tokens of the class are leaves of the tree that is
written, each once and in order. -/
theorem compile_accepts_class {unit : Syntax.Class} {c : Compiler}
    (hlexemes : forall token, token ∈ unit.tokens -> token.IsLexeme)
    (hclear : unit.Clear c.scope c.labels) :
    tokenize unit.text = (unit.tokens, none) ∧
      (forall text, tokenize text = (unit.tokens, none) ->
        (c.compile text).fault = none ∧
          (c.compile text).written =
            some (unit.code c.scope c.labels, Tree.linesFrom 0 unit.marks)) ∧
      Tree.leaves unit.marks = unit.tokens := by
  refine ⟨Token.tokenize_print hlexemes, ?_, unit.leaves_marks⟩
  intro text htext
  exact Compiler.compile_of_resolved htext hclear.resolved

theorem compile_accepts_counter :
    (forall token, token ∈ Syntax.Class.counter.tokens -> token.IsLexeme) ∧
      Syntax.Class.counter.Clear ({} : Compiler).scope ({} : Compiler).labels ∧
      (({} : Compiler).compile Syntax.Class.counter.text).fault = none ∧
      (({} : Compiler).compile Syntax.Class.counter.text).written =
        some (Syntax.Class.counter.code ({} : Compiler).scope ({} : Compiler).labels,
          Tree.linesFrom 0 Syntax.Class.counter.marks) := by
  have hlexemes := Syntax.Class.isLexeme_counter
  have hclear := Syntax.Class.clear_counter
  rcases compile_accepts_class hlexemes hclear with ⟨htokens, hcompile, _⟩
  exact ⟨hlexemes, hclear, hcompile _ htokens⟩

end Jack
