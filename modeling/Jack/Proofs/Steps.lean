import Jack.Proofs.Syntax

/-!
# Steps of the compiler

A routine that succeeds takes tokens from the scanner and appends to what was
written.  The relation `Compiler.Yields` records this: which marks and which code
were appended, and how many labels were drawn.  Nothing else changes.  Since every
token that is taken becomes a leaf, the marks also say which tokens were taken.

Each primitive step is characterised by the relation, and relations compose, so
that routines are read off from their steps.
-/

namespace Jack

/-!
# Moving along the tokens
-/

namespace Scanner

/-- One token further, or at the same one if it is the last. -/
def Moves (s s' : Scanner) : Prop :=
  if s.hasNext then Scanner.advance.run s = .ok () s' else s' = s

/-- The tokens that are met on the way from one place to another.  At the last
token of a source the scanner stays, and the token is met again. -/
inductive Takes : Scanner -> List Token -> Scanner -> Prop where
  | nil (s : Scanner) : Takes s [] s
  | cons {s s' s'' : Scanner} {token : Token} {rest : List Token} :
      s.current = some token -> s.Moves s' -> Takes s' rest s'' ->
      Takes s (token :: rest) s''

theorem takes_nil_iff {s s' : Scanner} : s.Takes [] s' ↔ s' = s := by
  constructor
  · intro h
    cases h
    rfl
  · intro h
    rw [h]
    exact Takes.nil s

theorem takes_singleton_iff {s s' : Scanner} {token : Token} :
    s.Takes [token] s' ↔ s.current = some token ∧ s.Moves s' := by
  constructor
  · intro h
    cases h with
    | cons hcurrent hmoves hrest =>
        cases hrest
        exact ⟨hcurrent, hmoves⟩
  · intro h
    rcases h with ⟨hcurrent, hmoves⟩
    exact Takes.cons hcurrent hmoves (Takes.nil s')

theorem Takes.append {s s' s'' : Scanner} {first second : List Token}
    (hfirst : s.Takes first s') (hsecond : s'.Takes second s'') :
    s.Takes (first ++ second) s'' := by
  induction hfirst with
  | nil s => exact hsecond
  | cons hcurrent hmoves _ ih => exact Takes.cons hcurrent hmoves (ih hsecond)

end Scanner

/-!
# Lines of marks
-/

namespace Tree

/-- How many more constructs are open behind some marks than before them. -/
def levels : List Mark -> Int
  | [] => 0
  | .opening _ :: rest => 1 + levels rest
  | .closing _ :: rest => -1 + levels rest
  | .leaf _ :: rest => levels rest

/-- Marks as lines, the first of them at a given depth. -/
def linesFrom (depth : Int) : List Mark -> List Line
  | [] => []
  | .opening nonterminal :: rest =>
      ⟨depth, .opening nonterminal⟩ :: linesFrom (depth + 1) rest
  | .closing nonterminal :: rest =>
      ⟨depth + -1, .closing nonterminal⟩ :: linesFrom (depth + -1) rest
  | .leaf token :: rest => ⟨depth, .leaf token⟩ :: linesFrom depth rest

theorem levels_append (first second : List Mark) :
    levels (first ++ second) = levels first + levels second := by
  induction first with
  | nil => simp [levels]
  | cons mark rest ih =>
      cases mark with
      | opening nonterminal =>
          simp only [List.cons_append, levels, ih]
          omega
      | closing nonterminal =>
          simp only [List.cons_append, levels, ih]
          omega
      | leaf token => simpa [levels] using ih

theorem linesFrom_append (depth : Int) (first second : List Mark) :
    linesFrom depth (first ++ second) =
      linesFrom depth first ++ linesFrom (depth + levels first) second := by
  induction first generalizing depth with
  | nil => simp [linesFrom, levels]
  | cons mark rest ih =>
      cases mark with
      | opening nonterminal => simp [linesFrom, levels, ih, Int.add_assoc]
      | closing nonterminal => simp [linesFrom, levels, ih, Int.add_assoc]
      | leaf token => simp [linesFrom, levels, ih]

end Tree

/-!
# What a routine yields
-/

namespace Compiler

/-- The compiler at another place of the source, with more written. -/
def extend (c : Compiler) (scanner : Scanner) (marks : List Tree.Mark)
    (code : List Instr) (labels : Nat) : Compiler :=
  { c with
    scanner := scanner
    code := c.code ++ code.toArray
    tree := c.tree ++ (Tree.linesFrom c.depth marks).toArray
    depth := c.depth + Tree.levels marks
    labels := c.labels + labels }

/-- From the first compiler to the second, the leaves of the marks were taken, and
marks, code and labels were added. -/
def Yields (c : Compiler) (marks : List Tree.Mark) (code : List Instr) (labels : Nat)
    (c' : Compiler) : Prop :=
  exists scanner, c.scanner.Takes (Tree.leaves marks) scanner ∧
    c' = c.extend scanner marks code labels

theorem extend_extend (c : Compiler) (s s' : Scanner)
    (marks marks' : List Tree.Mark) (code code' : List Instr) (labels labels' : Nat) :
    (c.extend s marks code labels).extend s' marks' code' labels' =
      c.extend s' (marks ++ marks') (code ++ code') (labels + labels') := by
  simp [extend, Tree.linesFrom_append, Tree.levels_append, Int.add_assoc, Nat.add_assoc]

theorem Yields.refl (c : Compiler) : c.Yields [] [] 0 c := by
  refine ⟨c.scanner, Scanner.Takes.nil _, ?_⟩
  simp [extend, Tree.linesFrom, Tree.levels]

theorem Yields.trans {c c' c'' : Compiler} {marks marks' : List Tree.Mark}
    {code code' : List Instr} {labels labels' : Nat}
    (hfirst : c.Yields marks code labels c')
    (hsecond : c'.Yields marks' code' labels' c'') :
    c.Yields (marks ++ marks') (code ++ code') (labels + labels') c'' := by
  rcases hfirst with ⟨s, htakes, rfl⟩
  rcases hsecond with ⟨s', htakes', rfl⟩
  refine ⟨s', ?_, extend_extend c s s' marks marks' code code' labels labels'⟩
  rw [Tree.leaves_append]
  exact htakes.append htakes'

theorem Yields.takes {c c' : Compiler} {marks : List Tree.Mark} {code : List Instr}
    {labels : Nat} (h : c.Yields marks code labels c') :
    c.scanner.Takes (Tree.leaves marks) c'.scanner := by
  rcases h with ⟨s, htakes, rfl⟩
  exact htakes

theorem Yields.treeOpen {c c' : Compiler} {marks : List Tree.Mark} {code : List Instr}
    {labels : Nat} (h : c.Yields marks code labels c') : c'.treeOpen = c.treeOpen := by
  rcases h with ⟨s, _, rfl⟩
  rfl

theorem Yields.code {c c' : Compiler} {marks : List Tree.Mark} {code : List Instr}
    {labels : Nat} (h : c.Yields marks code labels c') :
    c'.code = c.code ++ code.toArray := by
  rcases h with ⟨s, _, rfl⟩
  rfl

theorem Yields.tree {c c' : Compiler} {marks : List Tree.Mark} {code : List Instr}
    {labels : Nat} (h : c.Yields marks code labels c') :
    c'.tree = c.tree ++ (Tree.linesFrom c.depth marks).toArray := by
  rcases h with ⟨s, _, rfl⟩
  rfl

theorem Yields.labels {c c' : Compiler} {marks : List Tree.Mark} {code : List Instr}
    {labels : Nat} (h : c.Yields marks code labels c') :
    c'.labels = c.labels + labels := by
  rcases h with ⟨s, _, rfl⟩
  rfl

end Compiler

namespace Compile

/-!
# Sequences of steps
-/

theorem run_bind_eq_ok_iff {first : CompileM α} {second : α -> CompileM β}
    {c c'' : Compiler} {b : β} :
    (first >>= second).run c = .ok b c'' ↔
      exists a c', first.run c = .ok a c' ∧ (second a).run c' = .ok b c'' := by
  rw [EStateM.run_bind]
  cases first.run c with
  | ok a c' =>
      constructor
      · intro h
        exact ⟨a, c', rfl, h⟩
      · intro h
        rcases h with ⟨_, _, hfirst, hsecond⟩
        cases hfirst
        exact hsecond
  | error fault c' => simp

theorem run_bind_eq_error_iff {first : CompileM α} {second : α -> CompileM β}
    {c c'' : Compiler} {fault : Fault} :
    (first >>= second).run c = .error fault c'' ↔
      first.run c = .error fault c'' ∨
        exists a c', first.run c = .ok a c' ∧ (second a).run c' = .error fault c'' := by
  rw [EStateM.run_bind]
  cases first.run c with
  | ok a c' =>
      constructor
      · intro h
        exact Or.inr ⟨a, c', rfl, h⟩
      · intro h
        rcases h with h | ⟨_, _, hfirst, hsecond⟩
        · cases h
        · cases hfirst
          exact hsecond
  | error fault' c' => simp

theorem run_bind_of_ok {first : CompileM α} {second : α -> CompileM β}
    {c c' : Compiler} {a : α} (h : first.run c = .ok a c') :
    (first >>= second).run c = (second a).run c' := by
  rw [EStateM.run_bind, h]

/-!
# Writing
-/

theorem run_emit (instr : Instr) (c : Compiler) :
    (emit instr).run c = .ok () (c.extend c.scanner [] [instr] 0) := by
  simp [EStateM.run, emit, Compiler.extend, Tree.linesFrom, Tree.levels]

theorem run_emitAll (code : List Instr) (c : Compiler) :
    (emitAll code).run c = .ok () (c.extend c.scanner [] code 0) := by
  induction code generalizing c with
  | nil => simp [emitAll, Compiler.extend, Tree.linesFrom, Tree.levels]
  | cons instr rest ih =>
      rw [emitAll, run_bind_of_ok (run_emit instr c), ih]
      rw [Compiler.extend_extend]
      rfl

theorem yields_emitAll {code : List Instr} {c c' : Compiler}
    (h : (emitAll code).run c = .ok () c') : c.Yields [] code 0 c' := by
  rw [run_emitAll] at h
  cases h
  exact ⟨c.scanner, Scanner.Takes.nil _, rfl⟩

theorem yields_emit {instr : Instr} {c c' : Compiler}
    (h : (emit instr).run c = .ok () c') : c.Yields [] [instr] 0 c' := by
  rw [run_emit] at h
  cases h
  exact ⟨c.scanner, Scanner.Takes.nil _, rfl⟩

theorem yields_drawLabel {c c' : Compiler} {label : Nat}
    (h : drawLabel.run c = .ok label c') : label = c.labels ∧ c.Yields [] [] 1 c' := by
  cases h
  refine ⟨rfl, c.scanner, Scanner.Takes.nil _, ?_⟩
  simp [Compiler.extend, Tree.linesFrom, Tree.levels]

theorem run_writeMark (mark : Tree.Mark) (c : Compiler) :
    (writeMark mark).run c =
      if c.treeOpen then .ok () { c with tree := c.tree.push ⟨c.depth, mark⟩ }
      else .error .closedTree c := rfl

theorem run_writeMark_eq_ok_iff {mark : Tree.Mark} {c c' : Compiler} :
    (writeMark mark).run c = .ok () c' ↔
      c.treeOpen = true ∧ c' = { c with tree := c.tree.push ⟨c.depth, mark⟩ } := by
  rw [run_writeMark]
  cases c.treeOpen with
  | true => simp [eq_comm]
  | false => simp

theorem run_enter_eq_ok_iff {nonterminal : Nonterminal} {c c' : Compiler} :
    (enter nonterminal).run c = .ok () c' ↔
      c.treeOpen = true ∧ c.Yields [.opening nonterminal] [] 0 c' := by
  have hextend : ({ c with
        tree := c.tree.push ⟨c.depth, .opening nonterminal⟩
        depth := c.depth + 1 } : Compiler) =
      c.extend c.scanner [.opening nonterminal] [] 0 := by
    simp [Compiler.extend, Tree.linesFrom, Tree.levels]
  unfold enter
  constructor
  · intro h
    rcases run_bind_eq_ok_iff.mp h with ⟨_, d, hwrite, hdeepen⟩
    rcases run_writeMark_eq_ok_iff.mp hwrite with ⟨hopen, rfl⟩
    cases hdeepen
    exact ⟨hopen, c.scanner, Scanner.Takes.nil _, hextend⟩
  · intro h
    rcases h with ⟨hopen, s, htakes, rfl⟩
    cases Scanner.takes_nil_iff.mp htakes
    rw [run_bind_of_ok (run_writeMark_eq_ok_iff.mpr ⟨hopen, rfl⟩), ← hextend]
    rfl

theorem run_leave_eq_ok_iff {nonterminal : Nonterminal} {c c' : Compiler} :
    (leave nonterminal).run c = .ok () c' ↔
      c.treeOpen = true ∧ c.Yields [.closing nonterminal] [] 0 c' := by
  have hextend : ({ c with
        tree := c.tree.push ⟨c.depth + -1, .closing nonterminal⟩
        depth := c.depth + -1 } : Compiler) =
      c.extend c.scanner [.closing nonterminal] [] 0 := by
    simp [Compiler.extend, Tree.linesFrom, Tree.levels]
  unfold leave
  constructor
  · intro h
    rcases run_bind_eq_ok_iff.mp h with ⟨_, d, hdeepen, hwrite⟩
    cases hdeepen
    rcases run_writeMark_eq_ok_iff.mp hwrite with ⟨hopen, rfl⟩
    exact ⟨hopen, c.scanner, Scanner.Takes.nil _, hextend⟩
  · intro h
    rcases h with ⟨hopen, s, htakes, rfl⟩
    cases Scanner.takes_nil_iff.mp htakes
    rw [← hextend]
    exact run_writeMark_eq_ok_iff.mpr ⟨hopen, rfl⟩

/-!
# Taking tokens
-/

theorem run_current (c : Compiler) : current.run c = .ok c.scanner.current c := rfl

theorem run_scanning (step : ScanM α) (c : Compiler) :
    (scanning step).run c =
      match step.run c.scanner with
      | .ok a scanner => .ok a { c with scanner := scanner }
      | .error fault scanner => .error fault { c with scanner := scanner } := rfl

theorem run_scanning_eq_ok_iff {step : ScanM α} {c c' : Compiler} {a : α} :
    (scanning step).run c = .ok a c' ↔
      exists scanner, step.run c.scanner = .ok a scanner ∧
        c' = { c with scanner := scanner } := by
  rw [run_scanning]
  cases step.run c.scanner with
  | ok b scanner =>
      constructor
      · intro h
        cases h
        exact ⟨scanner, rfl, rfl⟩
      · intro h
        rcases h with ⟨_, hstep, rfl⟩
        cases hstep
        rfl
  | error fault scanner => simp

theorem run_moveOn (c : Compiler) :
    moveOn.run c =
      if c.scanner.hasNext then (scanning Scanner.advance).run c else .ok () c := rfl

theorem run_moveOn_eq_ok_iff {c c' : Compiler} :
    moveOn.run c = .ok () c' ↔
      exists scanner, c.scanner.Moves scanner ∧ c' = { c with scanner := scanner } := by
  rw [run_moveOn]
  unfold Scanner.Moves
  cases c.scanner.hasNext with
  | false =>
      constructor
      · intro h
        cases h
        exact ⟨c.scanner, rfl, rfl⟩
      · intro h
        rcases h with ⟨_, rfl, rfl⟩
        rfl
  | true => simpa using run_scanning_eq_ok_iff

/-- The scanner is not moved at the last token, so a fault comes from a token ahead. -/
theorem exists_scanner_of_moveOn_error {c c' : Compiler} {fault : Fault}
    (h : moveOn.run c = .error fault c') :
    exists scanner, c.scanner.hasNext = true ∧
      Scanner.advance.run c.scanner = .error fault scanner ∧
      c' = { c with scanner := scanner } := by
  rw [run_moveOn] at h
  split at h
  · next hnext =>
      rw [run_scanning] at h
      split at h
      · cases h
      · next scanner hadvance =>
          cases h
          exact ⟨scanner, hnext, hadvance, rfl⟩
  · cases h

theorem run_take_eq_ok_iff {token : Token} {c c' : Compiler}
    (hcurrent : c.scanner.current = some token) :
    (take token).run c = .ok () c' ↔
      c.treeOpen = true ∧ c.Yields [.leaf token] [] 0 c' := by
  have hextend : forall scanner, ({ c with
        scanner := scanner
        tree := c.tree.push ⟨c.depth, .leaf token⟩ } : Compiler) =
      c.extend scanner [.leaf token] [] 0 := by
    intro scanner
    simp [Compiler.extend, Tree.linesFrom, Tree.levels]
  unfold take
  constructor
  · intro h
    rcases run_bind_eq_ok_iff.mp h with ⟨_, d, hwrite, hmove⟩
    rcases run_writeMark_eq_ok_iff.mp hwrite with ⟨hopen, rfl⟩
    rcases run_moveOn_eq_ok_iff.mp hmove with ⟨scanner, hmoves, rfl⟩
    exact ⟨hopen, scanner, Scanner.takes_singleton_iff.mpr ⟨hcurrent, hmoves⟩,
      hextend scanner⟩
  · intro h
    rcases h with ⟨hopen, scanner, htakes, rfl⟩
    rcases Scanner.takes_singleton_iff.mp htakes with ⟨_, hmoves⟩
    rw [run_bind_of_ok (run_writeMark_eq_ok_iff.mpr ⟨hopen, rfl⟩), ← hextend]
    exact run_moveOn_eq_ok_iff.mpr ⟨scanner, hmoves, rfl⟩

/-- If the scanner cannot move on, the token is a leaf of the tree already. -/
theorem exists_scanner_of_take_error {token : Token} {c c' : Compiler} {fault : Fault}
    (hopen : c.treeOpen = true) (h : (take token).run c = .error fault c') :
    exists scanner, c.scanner.hasNext = true ∧
      Scanner.advance.run c.scanner = .error fault scanner ∧
      c' = c.extend scanner [.leaf token] [] 0 := by
  unfold take at h
  rw [run_bind_of_ok (run_writeMark_eq_ok_iff.mpr ⟨hopen, rfl⟩)] at h
  rcases exists_scanner_of_moveOn_error h with ⟨scanner, hnext, hadvance, rfl⟩
  refine ⟨scanner, hnext, hadvance, ?_⟩
  simp [Compiler.extend, Tree.linesFrom, Tree.levels]

theorem current_of_yields_leaf {token : Token} {rest : List Tree.Mark} {code : List Instr}
    {labels : Nat} {c c' : Compiler}
    (h : c.Yields (.leaf token :: rest) code labels c') :
    c.scanner.current = some token := by
  rcases h with ⟨s, htakes, _⟩
  cases htakes with
  | cons hcurrent _ _ => exact hcurrent

theorem run_takeSymbol_eq_ok_iff {sign : Symbol} {c c' : Compiler} :
    (takeSymbol sign).run c = .ok () c' ↔
      c.treeOpen = true ∧ c.Yields [.leaf (.symbol sign)] [] 0 c' := by
  unfold takeSymbol
  rw [run_bind_of_ok (run_current c)]
  constructor
  · intro h
    split at h
    · next s hcurrent =>
        split at h
        · next hsign =>
            rw [hsign] at h hcurrent
            exact (run_take_eq_ok_iff hcurrent).mp h
        · cases h
    · cases h
  · intro h
    rcases h with ⟨hopen, hyields⟩
    have hcurrent := current_of_yields_leaf hyields
    rw [hcurrent]
    simpa using (run_take_eq_ok_iff hcurrent).mpr ⟨hopen, hyields⟩

theorem run_takeIdentifier_eq_ok_iff {name : String} {c c' : Compiler} :
    takeIdentifier.run c = .ok name c' ↔
      c.treeOpen = true ∧ c.Yields [.leaf (.identifier name)] [] 0 c' := by
  unfold takeIdentifier
  rw [run_bind_of_ok (run_current c)]
  constructor
  · intro h
    split at h
    · next found hcurrent =>
        rcases run_bind_eq_ok_iff.mp h with ⟨_, d, htake, hpure⟩
        cases hpure
        exact (run_take_eq_ok_iff hcurrent).mp htake
    · cases h
  · intro h
    rcases h with ⟨hopen, hyields⟩
    have hcurrent := current_of_yields_leaf hyields
    rw [hcurrent]
    exact run_bind_of_ok ((run_take_eq_ok_iff hcurrent).mpr ⟨hopen, hyields⟩)

theorem run_takeKeyword_eq_ok_iff {words : List Keyword} {word : Keyword}
    {c c' : Compiler} :
    (takeKeyword words).run c = .ok word c' ↔
      word ∈ words ∧ c.treeOpen = true ∧ c.Yields [.leaf (.keyword word)] [] 0 c' := by
  unfold takeKeyword
  rw [run_bind_of_ok (run_current c)]
  constructor
  · intro h
    split at h
    · next found hcurrent =>
        split at h
        · next hmem =>
            rcases run_bind_eq_ok_iff.mp h with ⟨_, d, htake, hpure⟩
            cases hpure
            exact ⟨hmem, (run_take_eq_ok_iff hcurrent).mp htake⟩
        · cases h
    · cases h
  · intro h
    rcases h with ⟨hmem, hopen, hyields⟩
    have hcurrent := current_of_yields_leaf hyields
    rw [hcurrent]
    simp only [hmem, if_true]
    exact run_bind_of_ok ((run_take_eq_ok_iff hcurrent).mpr ⟨hopen, hyields⟩)

theorem run_takeInteger_eq_ok_iff {value : Nat} {c c' : Compiler} :
    takeInteger.run c = .ok value c' ↔
      exists digits, Token.integerValue digits = value ∧ c.treeOpen = true ∧
        c.Yields [.leaf (.integer digits)] [] 0 c' := by
  unfold takeInteger
  rw [run_bind_of_ok (run_current c)]
  constructor
  · intro h
    split at h
    · next digits hcurrent =>
        rcases run_bind_eq_ok_iff.mp h with ⟨_, d, htake, hpure⟩
        cases hpure
        exact ⟨digits, rfl, (run_take_eq_ok_iff hcurrent).mp htake⟩
    · cases h
  · intro h
    rcases h with ⟨digits, rfl, hopen, hyields⟩
    have hcurrent := current_of_yields_leaf hyields
    rw [hcurrent]
    exact run_bind_of_ok ((run_take_eq_ok_iff hcurrent).mpr ⟨hopen, hyields⟩)

theorem run_takeString_of_eq_ok {value : String} {c c' : Compiler}
    (h : takeString.run c = .ok value c') :
    exists text, c.scanner.current = some (.string text) ∧
      c.Yields [.leaf (.string text)] (stringCode (Text.escape text)) 0 c' := by
  unfold takeString at h
  rw [run_bind_of_ok (run_current c)] at h
  split at h
  · next text hcurrent =>
      rcases run_bind_eq_ok_iff.mp h with ⟨_, d, hemit, h⟩
      rcases run_bind_eq_ok_iff.mp h with ⟨_, d', htake, hpure⟩
      cases hpure
      have hcode := yields_emitAll hemit
      have hcurrent' : d.scanner.current = some (.string text) := by
        rcases hcode with ⟨s, htakes, rfl⟩
        cases Scanner.takes_nil_iff.mp htakes
        exact hcurrent
      have hleaf := ((run_take_eq_ok_iff hcurrent').mp htake).2
      exact ⟨text, hcurrent, by simpa using hcode.trans hleaf⟩
  · cases h

theorem run_takeType_eq_ok_iff {word : String} {c c' : Compiler} :
    takeType.run c = .ok word c' ↔
      exists type : Syntax.TypeName, type.word = word ∧ c.treeOpen = true ∧
        c.Yields [.leaf type.token] [] 0 c' := by
  unfold takeType
  rw [run_bind_of_ok (run_current c)]
  constructor
  · intro h
    split at h
    · next name hcurrent =>
        exact ⟨.named word, rfl, run_takeIdentifier_eq_ok_iff.mp h⟩
    · rw [map_eq_pure_bind] at h
      rcases run_bind_eq_ok_iff.mp h with ⟨k, d, htake, hpure⟩
      cases hpure
      rcases run_takeKeyword_eq_ok_iff.mp htake with ⟨hmem, hyields⟩
      simp only [List.mem_cons, List.not_mem_nil, or_false] at hmem
      rcases hmem with rfl | rfl | rfl
      · exact ⟨.int, rfl, hyields⟩
      · exact ⟨.char, rfl, hyields⟩
      · exact ⟨.boolean, rfl, hyields⟩
  · intro h
    rcases h with ⟨type, rfl, hyields⟩
    have hcurrent := current_of_yields_leaf hyields.2
    cases type with
    | named name =>
        rw [show c.scanner.current = some (.identifier name) from hcurrent]
        exact run_takeIdentifier_eq_ok_iff.mpr hyields
    | int =>
        rw [show c.scanner.current = some (.keyword .int) from hcurrent, map_eq_pure_bind]
        exact run_bind_of_ok (run_takeKeyword_eq_ok_iff.mpr ⟨by decide, hyields⟩)
    | char =>
        rw [show c.scanner.current = some (.keyword .char) from hcurrent, map_eq_pure_bind]
        exact run_bind_of_ok (run_takeKeyword_eq_ok_iff.mpr ⟨by decide, hyields⟩)
    | boolean =>
        rw [show c.scanner.current = some (.keyword .boolean) from hcurrent,
          map_eq_pure_bind]
        exact run_bind_of_ok (run_takeKeyword_eq_ok_iff.mpr ⟨by decide, hyields⟩)

/-!
# Looking at the current token
-/

theorem run_currentKeyword (c : Compiler) :
    currentKeyword.run c =
      match c.scanner.keyword with
      | .ok word => .ok word c
      | .error fault => .error fault c := rfl

theorem run_atSymbol (sign : Symbol) (c : Compiler) :
    (atSymbol sign).run c = .ok (decide (c.scanner.current = some (.symbol sign))) c := by
  unfold atSymbol
  rw [run_bind_of_ok (run_current c)]
  split
  · next s hcurrent => simp [hcurrent]
  · next hother =>
      have : c.scanner.current ≠ some (.symbol sign) := hother sign
      simp [this]

theorem run_atKeyword (words : List Keyword) (c : Compiler) :
    (atKeyword words).run c =
      .ok (decide (exists word, word ∈ words ∧ c.scanner.current = some (.keyword word))) c := by
  unfold atKeyword
  rw [run_bind_of_ok (run_current c)]
  split
  · next k hcurrent => simp [hcurrent]
  · next hother =>
      have hnone : forall word, c.scanner.current ≠ some (.keyword word) := hother
      simp [hnone]

end Compile
end Jack
