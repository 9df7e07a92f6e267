import Jack.Proofs.Recognition.Statement
import Jack.Proofs.Stream

/-!
# Steps that are bound to succeed

A step accepts some marks if it succeeds wherever their leaves stand ahead, and then
writes these marks.  The source goes on behind the leaves, so that the scanner moves
on from each of them.  Steps that accept their marks compose to routines that do.
-/

namespace Jack

/-!
# Tokens that stand ahead
-/

namespace Scanner

/-- The tokens stand ahead of the scanner, which is at the first of them, and no fault
ends them. -/
def Shows (s : Scanner) (tokens : List Token) : Prop :=
  exists token rest, tokens = token :: rest ∧ s.StandsAt token rest

theorem Shows.current {s : Scanner} {tokens : List Token} (h : s.Shows tokens) :
    s.current = tokens.head? := by
  rcases h with ⟨token, rest, rfl, hcurrent, _⟩
  exact hcurrent

theorem Shows.length_le {s : Scanner} {tokens : List Token} (h : s.Shows tokens) :
    tokens.length ≤ s.rest.length + 2 := by
  rcases h with ⟨token, rest, rfl, hstands⟩
  have hle := hstands.length_le
  rw [List.length_cons]
  omega

theorem Shows.exists_takes {s : Scanner} {token : Token} {follow : List Token}
    (h : s.Shows (token :: follow)) (hfollow : follow ≠ []) :
    exists s', s.Takes [token] s' := by
  rcases h with ⟨first, rest, hsplit, hstands⟩
  cases hsplit
  cases follow with
  | nil => exact absurd rfl hfollow
  | cons second rest =>
      rcases hstands.exists_moves with ⟨s', hmoves, _⟩
      exact ⟨s', takes_singleton_iff.mpr ⟨hstands.1, hmoves⟩⟩

theorem Takes.shows {s s' : Scanner} {taken follow : List Token} (htakes : s.Takes taken s')
    (h : s.Shows (taken ++ follow)) (hfollow : follow ≠ []) : s'.Shows follow := by
  rcases h with ⟨first, others, hsplit, hstands⟩
  cases follow with
  | nil => exact absurd rfl hfollow
  | cons token rest => exact ⟨token, rest, rfl, htakes.standsAt hstands hsplit.symm⟩

end Scanner

namespace Compiler

/-- The compiler can write, its names and its next label are given, and it is about to
read the tokens. -/
structure Ready (c : Compiler) (σ : Scope) (label : Nat) (tokens : List Token) : Prop where
  treeOpen : c.treeOpen = true
  scope : c.scope = σ
  labels : c.labels = label
  shows : c.scanner.Shows tokens

theorem Yields.ready {c c' : Compiler} {σ : Scope} {label : Nat} {marks : List Tree.Mark}
    {code : List Instr} {labels : Nat} {follow : List Token}
    (h : c.Yields marks code labels c')
    (hready : c.Ready σ label (Tree.leaves marks ++ follow)) (hfollow : follow ≠ []) :
    c'.Ready σ (label + labels) follow := by
  constructor
  · rw [h.treeOpen]
    exact hready.treeOpen
  · rw [h.scope]
    exact hready.scope
  · rw [h.labels, hready.labels]
  · exact h.takes.shows hready.shows hfollow

theorem Ready.exists_leaf {c : Compiler} {σ : Scope} {label : Nat} {token : Token}
    {follow : List Token} (h : c.Ready σ label (token :: follow)) (hfollow : follow ≠ []) :
    exists c', c.Yields [.leaf token] [] 0 c' := by
  rcases h.shows.exists_takes hfollow with ⟨s, htakes⟩
  exact ⟨_, s, htakes, rfl⟩

end Compiler

namespace Compile

/-!
# Acceptance
-/

/-- Where the leaves of the marks stand ahead, and other tokens behind them, the step
succeeds with a result, and it adds marks, code and labels. -/
def Accepts (σ : Scope) (label : Nat) (step : CompileM α) (a : α) (marks : List Tree.Mark)
    (code : List Instr) (labels : Nat) (follow : List Token) : Prop :=
  follow ≠ [] -> forall c : Compiler, c.Ready σ label (Tree.leaves marks ++ follow) ->
    exists c', step.run c = .ok a c' ∧ c.Yields marks code labels c'

section

variable {σ : Scope} {label : Nat} {follow : List Token}

theorem Accepts.bind {first : CompileM α} {second : α -> CompileM β} {a : α} {b : β}
    {marks marks' : List Tree.Mark} {code code' : List Instr} {labels labels' : Nat}
    (hfirst : Accepts σ label first a marks code labels (Tree.leaves marks' ++ follow))
    (hsecond : Accepts σ (label + labels) (second a) b marks' code' labels' follow) :
    Accepts σ label (first >>= second) b (marks ++ marks') (code ++ code')
      (labels + labels') follow := by
  intro hfollow c hready
  rw [Tree.leaves_append, List.append_assoc] at hready
  have hrest : Tree.leaves marks' ++ follow ≠ [] := List.append_ne_nil_of_right_ne_nil _ hfollow
  rcases hfirst hrest c hready with ⟨c1, hrun, hyields⟩
  rcases hsecond hfollow c1 (hyields.ready hready hrest) with ⟨c2, hrun', hyields'⟩
  refine ⟨c2, ?_, hyields.trans hyields'⟩
  rw [run_bind_of_ok hrun]
  exact hrun'

theorem accepts_pure (a : α) : Accepts σ label (pure a) a [] [] 0 follow := by
  intro _ c _
  exact ⟨c, rfl, Compiler.Yields.refl c⟩

/-!
The rules below take a routine apart, one step after the other.  They differ in what
the first step writes.
-/

section

variable {second : α -> CompileM β} {first : CompileM α} {a : α} {b : β}
  {marks marks' : List Tree.Mark} {code code' : List Instr} {labels : Nat}

theorem Accepts.look
    (hfirst : Accepts σ label first a [] [] 0 (Tree.leaves marks ++ follow))
    (hsecond : Accepts σ label (second a) b marks code labels follow) :
    Accepts σ label (first >>= second) b marks code labels follow := by
  have h := hfirst.bind hsecond
  rwa [Nat.zero_add] at h

theorem Accepts.mark {mark : Tree.Mark}
    (hfirst : Accepts σ label first a [mark] [] 0 (Tree.leaves marks ++ follow))
    (hsecond : Accepts σ label (second a) b marks code labels follow) :
    Accepts σ label (first >>= second) b (mark :: marks) code labels follow := by
  have h := hfirst.bind hsecond
  rwa [Nat.zero_add] at h

theorem Accepts.write
    (hfirst : Accepts σ label first a [] code 0 (Tree.leaves marks ++ follow))
    (hsecond : Accepts σ label (second a) b marks code' labels follow) :
    Accepts σ label (first >>= second) b marks (code ++ code') labels follow := by
  have h := hfirst.bind hsecond
  rwa [Nat.zero_add] at h

/-- The first step reads a construct that draws no labels.  Behind the construct stand
the leaves of what the second step reads. -/
theorem Accepts.part {behind : List Token}
    (hfirst : Accepts σ label first a marks code 0 behind)
    (hsecond : Accepts σ label (second a) b marks' code' labels follow)
    (hbehind : behind = Tree.leaves marks' ++ follow) :
    Accepts σ label (first >>= second) b (marks ++ marks') (code ++ code') labels follow := by
  subst hbehind
  have h := hfirst.bind hsecond
  rwa [Nat.zero_add] at h

theorem Accepts.result (hfirst : Accepts σ label first a marks code labels follow)
    (f : α -> β) :
    Accepts σ label (first >>= fun x => pure (f x)) (f a) marks code labels follow := by
  intro hfollow c hready
  rcases hfirst hfollow c hready with ⟨c', hrun, hyields⟩
  refine ⟨c', ?_, hyields⟩
  rw [run_bind_of_ok hrun]
  rfl

end

/-- A step that only asks for names gives the answer of the scope. -/
theorem accepts_answer {step : CompileM α} (hstep : Scope.Asks step) {a : α}
    (h : σ.answer step = some a) : Accepts σ label step a [] [] 0 follow := by
  intro _ c hready
  rw [← hready.scope] at h
  exact ⟨c, (hstep _ _ _).mpr ⟨rfl, h⟩, Compiler.Yields.refl c⟩

/-!
# Writing
-/

theorem accepts_emitAll (code : List Instr) :
    Accepts σ label (emitAll code) () [] code 0 follow := by
  intro _ c _
  exact ⟨_, run_emitAll code c, yields_emitAll (run_emitAll code c)⟩

theorem accepts_emit (instr : Instr) :
    Accepts σ label (emit instr) () [] [instr] 0 follow := by
  intro _ c _
  exact ⟨_, run_emit instr c, yields_emit (run_emit instr c)⟩

theorem accepts_drawLabel : Accepts σ label drawLabel label [] [] 1 follow := by
  intro _ c hready
  have hrun : drawLabel.run c = .ok c.labels { c with labels := c.labels + 1 } := rfl
  rw [hready.labels] at hrun
  exact ⟨_, hrun, (yields_drawLabel hrun).2⟩

theorem accepts_enter (nonterminal : Nonterminal) :
    Accepts σ label (enter nonterminal) () [.opening nonterminal] [] 0 follow := by
  intro _ c hready
  have hyields : c.Yields [.opening nonterminal] [] 0 _ := ⟨c.scanner, .nil _, rfl⟩
  exact ⟨_, run_enter_eq_ok_iff.mpr ⟨hready.treeOpen, hyields⟩, hyields⟩

theorem accepts_leave (nonterminal : Nonterminal) :
    Accepts σ label (leave nonterminal) () [.closing nonterminal] [] 0 follow := by
  intro _ c hready
  have hyields : c.Yields [.closing nonterminal] [] 0 _ := ⟨c.scanner, .nil _, rfl⟩
  exact ⟨_, run_leave_eq_ok_iff.mpr ⟨hready.treeOpen, hyields⟩, hyields⟩

/-!
# Taking tokens
-/

theorem accepts_takeSymbol (sign : Symbol) :
    Accepts σ label (takeSymbol sign) () [.leaf (.symbol sign)] [] 0 follow := by
  intro hfollow c hready
  rcases hready.exists_leaf hfollow with ⟨c', hyields⟩
  exact ⟨c', run_takeSymbol_eq_ok_iff.mpr ⟨hready.treeOpen, hyields⟩, hyields⟩

theorem accepts_takeIdentifier (name : String) :
    Accepts σ label takeIdentifier name [.leaf (.identifier name)] [] 0 follow := by
  intro hfollow c hready
  rcases hready.exists_leaf hfollow with ⟨c', hyields⟩
  exact ⟨c', run_takeIdentifier_eq_ok_iff.mpr ⟨hready.treeOpen, hyields⟩, hyields⟩

theorem accepts_takeKeyword {word : Keyword} {words : List Keyword} (hword : word ∈ words) :
    Accepts σ label (takeKeyword words) word [.leaf (.keyword word)] [] 0 follow := by
  intro hfollow c hready
  rcases hready.exists_leaf hfollow with ⟨c', hyields⟩
  exact ⟨c', run_takeKeyword_eq_ok_iff.mpr ⟨hword, hready.treeOpen, hyields⟩, hyields⟩

theorem accepts_takeInteger (digits : String) :
    Accepts σ label takeInteger (Token.integerValue digits) [.leaf (.integer digits)] [] 0
      follow := by
  intro hfollow c hready
  rcases hready.exists_leaf hfollow with ⟨c', hyields⟩
  exact ⟨c', run_takeInteger_eq_ok_iff.mpr ⟨digits, rfl, hready.treeOpen, hyields⟩, hyields⟩

theorem accepts_take (token : Token) :
    Accepts σ label (take token) () [.leaf token] [] 0 follow := by
  intro hfollow c hready
  rcases hready.exists_leaf hfollow with ⟨c', hyields⟩
  have hcurrent : c.scanner.current = some token := hready.shows.current
  exact ⟨c', (run_take_eq_ok_iff hcurrent).mpr ⟨hready.treeOpen, hyields⟩, hyields⟩

/-!
# Looking at the current token
-/

theorem accepts_current : Accepts σ label current follow.head? [] [] 0 follow := by
  intro _ c hready
  have hcurrent : c.scanner.current = follow.head? := hready.shows.current
  rw [← hcurrent]
  exact ⟨c, run_current c, Compiler.Yields.refl c⟩

theorem accepts_atSymbol_true {sign : Symbol} (h : follow.head? = some (.symbol sign)) :
    Accepts σ label (atSymbol sign) true [] [] 0 follow := by
  intro _ c hready
  have hcurrent : c.scanner.current = follow.head? := hready.shows.current
  refine ⟨c, ?_, Compiler.Yields.refl c⟩
  rw [run_atSymbol, hcurrent, h, decide_eq_true rfl]

theorem accepts_atSymbol_false {sign : Symbol} (h : follow.head? ≠ some (.symbol sign)) :
    Accepts σ label (atSymbol sign) false [] [] 0 follow := by
  intro _ c hready
  have hcurrent : c.scanner.current = follow.head? := hready.shows.current
  refine ⟨c, ?_, Compiler.Yields.refl c⟩
  rw [run_atSymbol, hcurrent, decide_eq_false h]

theorem accepts_atKeyword_true {words : List Keyword} {word : Keyword} (hword : word ∈ words)
    (h : follow.head? = some (.keyword word)) :
    Accepts σ label (atKeyword words) true [] [] 0 follow := by
  intro _ c hready
  have hcurrent : c.scanner.current = follow.head? := hready.shows.current
  refine ⟨c, ?_, Compiler.Yields.refl c⟩
  rw [run_atKeyword, hcurrent, decide_eq_true ⟨word, hword, h⟩]

theorem accepts_atKeyword_false {words : List Keyword}
    (h : forall word, word ∈ words -> follow.head? ≠ some (.keyword word)) :
    Accepts σ label (atKeyword words) false [] [] 0 follow := by
  intro _ c hready
  have hcurrent : c.scanner.current = follow.head? := hready.shows.current
  refine ⟨c, ?_, Compiler.Yields.refl c⟩
  rw [run_atKeyword, hcurrent, decide_eq_false]
  intro hexists
  rcases hexists with ⟨word, hword, hhead⟩
  exact h word hword hhead

end

end Compile
end Jack
