import Jack.Proofs.Stream

/-!
# Taking up sources

A source is taken up at its first token, with empty outputs.  Compiling it is to take it
up and then to compile a class.
-/

namespace Jack

/-- The compiler at a token of a new source.  Only the tables of names, the sizes and the
count of labels are kept. -/
def Compiler.started (c : Compiler) (s : Scanner) : Compiler :=
  { c with
    scanner := s
    code := #[]
    tree := #[]
    treeOpen := true
    depth := 0
    className := none
    subroutineName := none }

namespace Compile

theorem run_start_eq_ok_iff {scanner : Scanner} {c c' : Compiler} :
    (start scanner).run c = .ok () c' ↔
      exists s, Scanner.advance.run scanner = .ok () s ∧ c' = c.started s := by
  unfold start
  constructor
  · intro h
    rcases run_bind_eq_ok_iff.mp h with ⟨_, _, hset, h⟩
    cases hset
    rcases run_bind_eq_ok_iff.mp h with ⟨_, _, hmove, hset⟩
    cases hset
    rcases run_scanning_eq_ok_iff.mp hmove with ⟨s, hadvance, rfl⟩
    exact ⟨s, hadvance, rfl⟩
  · intro h
    rcases h with ⟨s, hadvance, rfl⟩
    apply run_bind_eq_ok_iff.mpr
    refine ⟨(), _, rfl, ?_⟩
    apply run_bind_eq_ok_iff.mpr
    exact ⟨(), _, run_scanning_eq_ok_iff.mpr ⟨s, hadvance, rfl⟩, rfl⟩

/-- A text that is taken up can be read, and the scanner moves to its first token. -/
theorem run_load_eq_ok_iff {text : String} {c c' : Compiler} :
    (load text).run c = .ok () c' ↔
      exists scanner s, Scanner.ofText text = .ok scanner ∧
        Scanner.advance.run scanner = .ok () s ∧ c' = c.started s := by
  unfold load
  cases htext : Scanner.ofText text with
  | error fault =>
      constructor
      · intro h
        cases h
      · intro h
        rcases h with ⟨_, _, hscanner, _⟩
        cases hscanner
  | ok scanner =>
      rw [run_start_eq_ok_iff]
      constructor
      · intro h
        rcases h with ⟨s, hs⟩
        exact ⟨scanner, s, rfl, hs⟩
      · intro h
        rcases h with ⟨_, s, hscanner, hs⟩
        cases hscanner
        exact ⟨s, hs⟩

/-- The first token of the text becomes the current one, and the others follow. -/
theorem tokenize_of_load {text : String} {c c' : Compiler}
    (h : (load text).run c = .ok () c') :
    exists token, c'.scanner.current = some token ∧
      tokenize text = (token :: c'.scanner.tokens.1, c'.scanner.tokens.2) := by
  rcases run_load_eq_ok_iff.mp h with ⟨scanner, s, htext, hadvance, rfl⟩
  unfold tokenize
  rw [htext]
  cases hnext : scanner.next with
  | none =>
      rw [Scanner.run_advance_of_next_none hnext] at hadvance
      cases hadvance
  | some token =>
      exact ⟨token, Scanner.current_of_advance hnext hadvance,
        Scanner.tokens_of_advance hnext hadvance⟩

/-- The tokens of the text stand ahead. -/
theorem ahead_of_load {text : String} {c c' : Compiler} (h : (load text).run c = .ok () c') :
    c'.scanner.ahead = (tokenize text).1 := by
  rcases tokenize_of_load h with ⟨token, hcurrent, htokens⟩
  rw [htokens]
  simp [Scanner.ahead, hcurrent]

/-- A text with tokens and no fault is taken up. -/
theorem exists_load_of_tokens {text : String} {token : Token} {rest : List Token}
    (h : tokenize text = (token :: rest, none)) (c : Compiler) :
    exists s, (load text).run c = .ok () (c.started s) ∧ s.StandsAt token rest := by
  unfold tokenize at h
  cases htext : Scanner.ofText text with
  | error fault =>
      rw [htext] at h
      cases h
  | ok scanner =>
      rw [htext] at h
      rcases Scanner.exists_advance_of_tokens h with ⟨_, s, hadvance, hcurrent, htokens⟩
      exact ⟨s, run_load_eq_ok_iff.mpr ⟨scanner, s, htext, hadvance, rfl⟩, hcurrent, htokens⟩

end Compile

namespace Compiler

/-- Compiling a source that is taken up is to compile a class. -/
theorem compile_of_load {text : String} {c c1 : Compiler}
    (h : (Compile.load text).run c = .ok () c1) :
    c.compile text =
      match Compile.classUnit.run c1 with
      | .ok () d => ⟨none, some d.written, d⟩
      | .error fault d => ⟨some fault, some d.written, d⟩ := by
  rcases Compile.run_load_eq_ok_iff.mp h with ⟨scanner, s, htext, hadvance, hc1⟩
  have hstart := Compile.run_start_eq_ok_iff.mpr ⟨s, hadvance, hc1⟩
  have hrun : (do Compile.start scanner; Compile.classUnit : CompileM Unit) c =
      Compile.classUnit.run c1 := Compile.run_bind_of_ok hstart
  unfold compile
  rw [htext]
  cases hclass : Compile.classUnit.run c1 with
  | ok _ d => simp only [hrun, hclass]
  | error fault d => simp only [hrun, hclass]

theorem exists_load_of_compile {c : Compiler} {text : String}
    (h : (c.compile text).fault = none) :
    exists c1 c2, (Compile.load text).run c = .ok () c1 ∧
      Compile.classUnit.run c1 = .ok () c2 ∧ c.compile text = ⟨none, some c2.written, c2⟩ := by
  unfold compile at h ⊢
  split at h
  · cases h
  · next scanner htext =>
      split at h
      · next c2 hrun =>
          rcases Compile.run_bind_eq_ok_iff.mp hrun with ⟨_, c1, hstart, hclass⟩
          rcases Compile.run_start_eq_ok_iff.mp hstart with ⟨s, hs⟩
          exact ⟨c1, c2, Compile.run_load_eq_ok_iff.mpr ⟨scanner, s, htext, hs⟩, hclass, rfl⟩
      · cases h

end Compiler
end Jack
