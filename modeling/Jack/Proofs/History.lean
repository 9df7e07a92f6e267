import Jack.Proofs.Pairs.Class

/-!
# What a compilation depends on

Of all that a compiler has met before, two things bear on the next source: the entries in the
tables of other classes, and the count of labels.  Two compilers that agree on the former
compile every source alike, with labels that are moved by the difference of the latter.  This
holds as well if sources before were refused halfway.
-/

namespace Jack

/-!
# The class of a text
-/

/-- The class that a text declares: the name behind its first word. -/
def declaredClass (text : String) : Option String :=
  match (tokenize text).1 with
  | .keyword .«class» :: .identifier name :: _ => some name
  | _ => none

/-- A scanner that meets two different tokens has moved from the first to the second. -/
theorem Scanner.Takes.exists_ahead_eq {s s' : Scanner} {token second : Token}
    (h : s.Takes [token, second] s') (hne : token ≠ second) :
    exists rest, s.ahead = token :: second :: rest := by
  cases h with
  | @cons _ s1 _ _ _ hcurrent hmoves hrest =>
      cases hrest with
      | cons hcurrent1 _ _ =>
          have hahead : s1.ahead = second :: s1.tokens.1 := by simp [ahead, hcurrent1]
          unfold Moves at hmoves
          cases hnext : s.next with
          | none =>
              rw [if_neg (by simp [hasNext, hnext])] at hmoves
              rw [hmoves, hcurrent] at hcurrent1
              exact absurd (Option.some.inj hcurrent1) hne
          | some found =>
              rw [if_pos (by simp [hasNext, hnext])] at hmoves
              exact ⟨s1.tokens.1, by rw [ahead_of_advance hcurrent hnext hmoves, hahead]⟩

theorem declaredClass_of_takes {text name : String} {scanner s s' : Scanner}
    (htext : Scanner.ofText text = .ok scanner) (hadvance : Scanner.advance.run scanner = .ok () s)
    (h : s.Takes [.keyword .«class», .identifier name] s') : declaredClass text = some name := by
  have hload : (Compile.load text).run {} = .ok () (Compiler.started {} s) :=
    Compile.run_load_eq_ok_iff.mpr ⟨scanner, s, htext, hadvance, rfl⟩
  rcases h.exists_ahead_eq (by simp) with ⟨rest, hahead⟩
  have htokens : (tokenize text).1 = .keyword .«class» :: .identifier name :: rest := by
    rw [← Compile.ahead_of_load hload, ← hahead]
    rfl
  unfold declaredClass
  rw [htokens]

/-!
# Outcomes of a pair
-/

theorem Compile.run_start_of_error {scanner s : Scanner} {fault : Fault}
    (h : Scanner.advance.run scanner = .error fault s) (c : Compiler) :
    (start scanner).run c =
      .error fault { c with scanner := s, code := #[], tree := #[], treeOpen := true } := by
  unfold start
  apply run_bind_eq_error_iff.mpr
  refine Or.inr ⟨(), _, rfl, ?_⟩
  apply run_bind_eq_error_iff.mpr
  apply Or.inl
  rw [run_scanning, h]

/-- The outcome of a run. -/
def Outcome.ofRun : EStateM.Result Fault Compiler Unit -> Outcome
  | .ok () c => ⟨none, some c.written, c⟩
  | .error fault c => ⟨some fault, some c.written, c⟩

theorem Compiler.compile_of_fault {text : String} {fault : Fault}
    (h : Scanner.ofText text = .error fault) (c : Compiler) :
    c.compile text = ⟨some fault, none, c⟩ := by
  unfold compile
  rw [h]

theorem Compiler.compile_of_text {text : String} {scanner : Scanner}
    (h : Scanner.ofText text = .ok scanner) (c : Compiler) :
    c.compile text =
      .ofRun ((Compile.start scanner >>= fun _ => Compile.classUnit).run c) := by
  unfold compile
  rw [h]
  rfl

namespace Pair

/-- Two outcomes for one source.  The fault, if any, and the tree are the same.  The code is
the same when the labels of each compiler are moved by the count that the other one started
from, and both have drawn equally many labels.  If the source is accepted, its class has the
same table and the same size, and the tables of all other classes stay as they were. -/
structure Matches (π : Pair) (o o' : Outcome) : Prop where
  fault : o'.fault = o.fault
  tree : o'.written.map Prod.snd = o.written.map Prod.snd
  code : o'.written.map (fun written => written.1.map (Instr.shift π.first.labels)) =
    o.written.map fun written => written.1.map (Instr.shift π.second.labels)
  labels : o'.compiler.labels + π.first.labels = o.compiler.labels + π.second.labels
  tables : o.fault = none -> exists name table, π.own = some name ∧
    o.compiler.classes.get? name = some table ∧ o'.compiler.classes.get? name = some table ∧
    o'.compiler.sizes.get? name = o.compiler.sizes.get? name ∧
    forall other, other ≠ name ->
      o.compiler.classes.get? other = π.first.classes.get? other ∧
        o'.compiler.classes.get? other = π.second.classes.get? other

/-- The source is stopped since it asks for a class that is not known, although the other
compiler knows it. -/
def Stopped (own : Option String) (c d : Compiler) (o : Outcome) : Prop :=
  exists fault, o.fault = some fault ∧ Misses own c d fault

section

variable {π : Pair}

theorem WroteSame.code_toList {c d : Compiler} (h : π.WroteSame c d) :
    d.code.toList.map (Instr.shift π.first.labels) =
      c.code.toList.map (Instr.shift π.second.labels) := by
  rw [← Array.toList_map, ← Array.toList_map, h.code]

theorem matches_of_refused (fault : Fault) :
    π.Matches ⟨some fault, none, π.first⟩ ⟨some fault, none, π.second⟩ := by
  constructor
  · rfl
  · rfl
  · rfl
  · exact Nat.add_comm _ _
  · intro h
    cases h

theorem Agree.matches_or_stopped {result result' : EStateM.Result Fault Compiler Unit}
    (h : π.Agree (fun t u => exists name, π.Sized name t u) Eq result result') :
    π.Matches (.ofRun result) (.ofRun result') ∨
      Stopped π.own π.first π.second (.ofRun result) ∨
      Stopped π.own π.second π.first (.ofRun result') := by
  cases h with
  | ok _ halike =>
      apply Or.inl
      constructor
      · rfl
      · exact congrArg some (congrArg Array.toList halike.tree)
      · exact congrArg some halike.code_toList
      · exact halike.labels
      · intro _
        rcases halike.tables with ⟨name, hsized⟩
        rcases hsized.table with ⟨table, hfirst, hsecond⟩
        exact ⟨name, table, hsized.own, hfirst, hsecond, hsized.size, hsized.others⟩
  | error hwrote =>
      apply Or.inl
      constructor
      · rfl
      · exact congrArg some (congrArg Array.toList hwrote.tree)
      · exact congrArg some hwrote.code_toList
      · exact hwrote.labels
      · intro hnone
        cases hnone
  | first hmisses => exact Or.inr (Or.inl ⟨_, rfl, hmisses⟩)
  | second hmisses => exact Or.inr (Or.inr ⟨_, rfl, hmisses⟩)

/-- The outputs are empty when the first token is moved to. -/
theorem wroteSame_of_empty {c d : Compiler} (hcode : c.code = #[] ∧ d.code = #[])
    (htree : c.tree = #[] ∧ d.tree = #[])
    (hlabels : c.labels = π.first.labels ∧ d.labels = π.second.labels) : π.WroteSame c d := by
  constructor
  · rw [htree.1, htree.2]
  · rw [hcode.1, hcode.2, Array.map_empty, Array.map_empty]
  · rw [hlabels.1, hlabels.2, Nat.add_comm]

theorem alike_started (hcompatible : π.Compatible) (s : Scanner) :
    π.Alike π.Fresh (π.first.started s) (π.second.started s) :=
  { toWroteSame := wroteSame_of_empty ⟨rfl, rfl⟩ ⟨rfl, rfl⟩ ⟨rfl, rfl⟩
    scanner := rfl
    treeOpen := rfl
    depth := rfl
    tables := ⟨hcompatible, rfl, rfl, rfl⟩ }

theorem agree_start (hcompatible : π.Compatible) (scanner : Scanner) :
    π.Agree π.Fresh Eq ((Compile.start scanner).run π.first)
      ((Compile.start scanner).run π.second) := by
  cases hadvance : Scanner.advance.run scanner with
  | ok _ s =>
      rw [Compile.run_start_eq_ok_iff.mpr ⟨s, hadvance, rfl⟩,
        Compile.run_start_eq_ok_iff.mpr ⟨s, hadvance, rfl⟩]
      exact .ok rfl (alike_started hcompatible s)
  | error fault s =>
      rw [Compile.run_start_of_error hadvance, Compile.run_start_of_error hadvance]
      exact .error (wroteSame_of_empty ⟨rfl, rfl⟩ ⟨rfl, rfl⟩ ⟨rfl, rfl⟩)

end

/-- A source has the same outcome in two compilers that agree on the classes they both know,
unless it asks for a class that only one of them knows. -/
theorem matches_or_stopped {p q : Compiler} {text : String}
    (hcompatible : Compatible ⟨p, q, declaredClass text⟩) :
    Matches ⟨p, q, declaredClass text⟩ (p.compile text) (q.compile text) ∨
      Stopped (declaredClass text) p q (p.compile text) ∨
      Stopped (declaredClass text) q p (q.compile text) := by
  cases htext : Scanner.ofText text with
  | error fault =>
      rw [Compiler.compile_of_fault htext, Compiler.compile_of_fault htext]
      exact Or.inl (matches_of_refused fault)
  | ok scanner =>
      rw [Compiler.compile_of_text htext, Compiler.compile_of_text htext]
      apply Agree.matches_or_stopped
      apply (agree_start hcompatible scanner).bind
      intro _ _ c d hstart _ halike
      apply agree_classUnit halike
      intro name s htakes
      rcases Compile.run_start_eq_ok_iff.mp hstart with ⟨s1, hadvance, hc⟩
      rw [hc] at htakes
      exact declaredClass_of_takes htext hadvance htakes

end Pair

/-!
# Histories
-/

/-- The entries that a compiler has for the names of a class.  There are none of them if it
does not know the class. -/
def Compiler.answers (c : Compiler) (name : String) : Option (Option String -> Option Entry) :=
  (c.classes.get? name).map Table.get?

theorem Pair.compatible_of_answers {p q : Compiler} {own : Option String}
    (h : forall name, own ≠ some name -> q.answers name = p.answers name) :
    Compatible ⟨p, q, own⟩ := by
  intro name table other hown hfirst hsecond
  have hanswers := h name hown
  unfold Compiler.answers at hanswers
  rw [show p.classes.get? name = some table from hfirst,
    show q.classes.get? name = some other from hsecond] at hanswers
  exact Option.some.inj hanswers

theorem Pair.not_misses_of_answers {p q : Compiler} {own : Option String} {fault : Fault}
    (h : forall name, own ≠ some name -> q.answers name = p.answers name) :
    ¬ Misses own p q fault := by
  intro hmisses
  rcases hmisses with ⟨name, hown, _, hfirst, hsecond⟩
  have hanswers := congrArg Option.isSome (h name hown)
  unfold Compiler.answers at hanswers
  rw [Option.isSome_map, Option.isSome_map, hfirst, hsecond] at hanswers
  cases hanswers

/-- Two compilers, whatever they have compiled or refused before, compile a source alike if
they give the same answers for all classes but the one that the source declares. -/
theorem compile_depends_on_answers_and_labels {p q : Compiler} {text : String}
    (h : forall name, declaredClass text ≠ some name -> q.answers name = p.answers name) :
    Pair.Matches ⟨p, q, declaredClass text⟩ (p.compile text) (q.compile text) := by
  rcases Pair.matches_or_stopped (Pair.compatible_of_answers h) with
    hmatches | ⟨fault, _, hmisses⟩ | ⟨fault, _, hmisses⟩
  · exact hmatches
  · exact absurd hmisses (Pair.not_misses_of_answers h)
  · exact absurd hmisses (Pair.not_misses_of_answers fun name hown => (h name hown).symm)

/-- A compiler that knows a class with a method. -/
def Compiler.informed : Compiler :=
  (({} : Compiler).compile "class B \x7b method int f() \x7b \x7d \x7d").compiler

/-- The compiler after it has refused another class within a loop. -/
def Compiler.interrupted : Compiler :=
  (Compiler.informed.compile "class A \x7b method int g() \x7b while (").compiler

/-- The class that was refused, written to its end. -/
def finishedText : String :=
  "class A \x7b method int g(B b) \x7b while (b.f()) \x7b \x7d \x7d \x7d"

/-- The class is compiled as if it had not been refused before. -/
theorem compile_matches_after_refusal :
    Compiler.interrupted.labels ≠ Compiler.informed.labels ∧
      (forall name, declaredClass finishedText ≠ some name ->
        Compiler.interrupted.answers name = Compiler.informed.answers name) ∧
      Pair.Matches ⟨Compiler.informed, Compiler.interrupted, declaredClass finishedText⟩
        (Compiler.informed.compile finishedText) (Compiler.interrupted.compile finishedText) := by
  have hdeclared : declaredClass finishedText = some "A" := by decide +kernel
  have hclasses : Compiler.interrupted.classes =
      Compiler.informed.classes.set "A" ((Compiler.interrupted.classes.get? "A").getD {}) := by
    decide +kernel
  have hanswers : forall name, declaredClass finishedText ≠ some name ->
      Compiler.interrupted.answers name = Compiler.informed.answers name := by
    intro name hother
    have hne : name ≠ "A" := fun heq => hother (heq ▸ hdeclared)
    unfold Compiler.answers
    rw [hclasses, Bindings.get?_set_of_ne _ _ hne]
  exact ⟨by decide +kernel, hanswers, compile_depends_on_answers_and_labels hanswers⟩

end Jack
