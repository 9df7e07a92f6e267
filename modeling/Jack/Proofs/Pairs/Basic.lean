import Jack.Proofs.Labels
import Jack.Proofs.Program

/-!
# Pairs of runs

Two compilers with different pasts take up the same source.  What they do is compared step
by step: the labels of the one are those of the other, moved by the difference of the two
counts, and everything else that they write is the same.  The runs part only where one of
them asks for the table of a class that the other compiler knows and it does not.

What a step finds in the tables, and what it leaves there, is a relation between the tables
of the two compilers.  Steps are composed along these relations.
-/

namespace Jack

/-!
# Labels with other numbers
-/

namespace Instr

/-- Give the label of a command another number. -/
def relabel (f : Nat -> Nat) : Instr -> Instr
  | .label number => .label (f number)
  | .goto number => .goto (f number)
  | .ifGoto number => .ifGoto (f number)
  | instr => instr

/-- Move the label of a command up by a distance. -/
def shift (distance : Nat) : Instr -> Instr :=
  relabel fun number => number + distance

theorem relabel_of_plain {instr : Instr} (h : instr.isPlain = true) (f : Nat -> Nat) :
    instr.relabel f = instr := by
  cases instr with
  | label number => cases h
  | goto number => cases h
  | ifGoto number => cases h
  | _ => rfl

end Instr

/-!
# Compilers that are alike
-/

/-- Two compilers that take up one source, and the class that the source declares. -/
structure Pair where
  first : Compiler
  second : Compiler
  own : Option String

namespace Pair

/-- The compilers have written the same but for labels, which differ as the counts of the
pair do. -/
structure WroteSame (π : Pair) (c d : Compiler) : Prop where
  tree : d.tree = c.tree
  code : d.code.map (Instr.shift π.first.labels) = c.code.map (Instr.shift π.second.labels)
  labels : d.labels + π.first.labels = c.labels + π.second.labels

/-- The compilers have written the same and have come to the same place.  Their tables are in
a relation. -/
structure Alike (π : Pair) (T : Tables -> Tables -> Prop) (c d : Compiler) : Prop extends
    π.WroteSame c d where
  scanner : d.scanner = c.scanner
  treeOpen : d.treeOpen = c.treeOpen
  depth : d.depth = c.depth
  tables : T c.tables d.tables

/-- The fault of a compiler that has no table of a class, where the other compiler has one.
The class is not the one that is compiled. -/
def Misses (own : Option String) (c d : Compiler) (fault : Fault) : Prop :=
  exists name, own ≠ some name ∧ fault = .missingKey (.text name) ∧
    c.classes.get? name = none ∧ (d.classes.get? name).isSome = true

/-- Two runs end alike, or one of them misses a class. -/
inductive Agree (π : Pair) (T : Tables -> Tables -> Prop) (R : α -> α -> Prop) :
    EStateM.Result Fault Compiler α -> EStateM.Result Fault Compiler α -> Prop where
  | ok {a b : α} {c d : Compiler} :
      R a b -> π.Alike T c d -> Agree π T R (.ok a c) (.ok b d)
  | error {fault : Fault} {c d : Compiler} :
      π.WroteSame c d -> Agree π T R (.error fault c) (.error fault d)
  | first {fault : Fault} {c : Compiler} {other : EStateM.Result Fault Compiler α} :
      Misses π.own π.first π.second fault -> Agree π T R (.error fault c) other
  | second {fault : Fault} {d : Compiler} {other : EStateM.Result Fault Compiler α} :
      Misses π.own π.second π.first fault -> Agree π T R other (.error fault d)

/-- Two steps agree wherever the compilers are alike. -/
def Paired (π : Pair) (T T' : Tables -> Tables -> Prop) (R : α -> α -> Prop)
    (step step' : CompileM α) : Prop :=
  forall c d, π.Alike T c d -> π.Agree T' R (step.run c) (step'.run d)

/-- A step gives the same result in both compilers, and keeps the relation between their
tables. -/
def Same (π : Pair) (T : Tables -> Tables -> Prop) (step : CompileM α) : Prop :=
  π.Paired T T Eq step step

section

variable {π : Pair} {T T' T'' : Tables -> Tables -> Prop} {c d : Compiler}

theorem Alike.mono (h : π.Alike T c d) (himp : T c.tables d.tables -> T' c.tables d.tables) :
    π.Alike T' c d :=
  { h with tables := himp h.tables }

theorem Alike.withScanner (h : π.Alike T c d) (scanner : Scanner) :
    π.Alike T { c with scanner := scanner } { d with scanner := scanner } :=
  { h with scanner := rfl }

theorem Alike.withTables (h : π.Alike T c d) {t u : Tables} (htables : T' t u) :
    π.Alike T' (c.withTables t) (d.withTables u) :=
  { h with tables := htables }

/-!
# Sequences of steps
-/

section

variable {R : α -> α -> Prop} {S : β -> β -> Prop} {first first' : CompileM α}
  {second second' : α -> CompileM β}

theorem Agree.bind (hfirst : π.Agree T R (first.run c) (first'.run d))
    (hsecond : forall a b c' d', first.run c = .ok a c' -> R a b -> π.Alike T c' d' ->
      π.Agree T' S ((second a).run c') ((second' b).run d')) :
    π.Agree T' S ((first >>= second).run c) ((first' >>= second').run d) := by
  rw [EStateM.run_bind, EStateM.run_bind]
  generalize hrun : first.run c = result at hfirst ⊢
  generalize first'.run d = result' at hfirst ⊢
  cases hfirst with
  | ok hvalue halike => exact hsecond _ _ _ _ hrun hvalue halike
  | error halike => exact .error halike
  | first hmisses => exact .first hmisses
  | second hmisses => exact .second hmisses

theorem Paired.bind (hfirst : π.Paired T T' R first first')
    (hsecond : forall a b, R a b -> π.Paired T' T'' S (second a) (second' b)) :
    π.Paired T T'' S (first >>= second) (first' >>= second') := by
  intro c d h
  exact (hfirst c d h).bind fun a b c' d' _ hvalue halike => hsecond a b hvalue c' d' halike

/-- The same result is passed on. -/
theorem Paired.next (hfirst : π.Paired T T' Eq first first')
    (hsecond : forall a, π.Paired T' T'' S (second a) (second' a)) :
    π.Paired T T'' S (first >>= second) (first' >>= second') := by
  apply hfirst.bind
  intro a b hvalue
  rw [← hvalue]
  exact hsecond a

theorem Same.bind (hfirst : π.Same T first) (hsecond : forall a, π.Same T (second a)) :
    π.Same T (first >>= second) :=
  Paired.next hfirst hsecond

theorem Agree.mono {result result' : EStateM.Result Fault Compiler α}
    (h : π.Agree T R result result') (himp : forall t u, T t u -> T' t u) :
    π.Agree T' R result result' := by
  cases h with
  | ok hvalue halike => exact .ok hvalue (halike.mono (himp _ _))
  | error halike => exact .error halike
  | first hmisses => exact .first hmisses
  | second hmisses => exact .second hmisses

theorem Paired.mono (h : π.Paired T T' R first first')
    (himp : forall t u, T' t u -> T'' t u) : π.Paired T T'' R first first' :=
  fun c d halike => (h c d halike).mono himp

end

/-!
# Steps that look at the scanner
-/

variable {step : CompileM α}

theorem same_pure (a : α) : π.Same T (pure a) :=
  fun _ _ h => .ok rfl h

theorem same_throw (fault : Fault) : π.Same T (throw fault : CompileM α) :=
  fun _ _ h => .error h.toWroteSame

/-- The result is read off the scanner. -/
theorem same_of_scanner {f : Scanner -> α} (hrun : forall c, step.run c = .ok (f c.scanner) c) :
    π.Same T step := by
  intro c d h
  rw [hrun, hrun, h.scanner]
  exact .ok rfl h

/-- The step always fails, with a fault that is read off the scanner. -/
theorem same_of_fault {f : Scanner -> Fault}
    (hrun : forall c, step.run c = .error (f c.scanner) c) : π.Same T step := by
  intro c d h
  rw [hrun, hrun, h.scanner]
  exact .error h.toWroteSame

open Compile

theorem same_bound : π.Same T bound :=
  same_of_scanner (f := fun s => 4 * (s.rest.length + 4)) fun _ => rfl

theorem same_current : π.Same T current :=
  same_of_scanner run_current

theorem same_atSymbol (sign : Symbol) : π.Same T (atSymbol sign) :=
  same_of_scanner (f := fun s => decide (s.current = some (.symbol sign))) (run_atSymbol sign)

theorem same_atKeyword (words : List Keyword) : π.Same T (atKeyword words) :=
  same_of_scanner
    (f := fun s => decide (exists word, word ∈ words ∧ s.current = some (.keyword word)))
    (run_atKeyword words)

theorem same_unexpectedKind (expected : Token.Kind) :
    π.Same T (unexpectedKind expected : CompileM α) :=
  same_of_fault (f := fun s => .unexpectedKind (some expected.number) s.kind?) fun _ => rfl

theorem same_currentKeyword : π.Same T currentKeyword := by
  intro c d h
  rw [run_currentKeyword, run_currentKeyword, h.scanner]
  cases c.scanner.keyword with
  | ok word => exact .ok rfl h
  | error fault => exact .error h.toWroteSame

/-!
# Writing
-/

theorem paired_emit {instr instr' : Instr}
    (hshift : instr'.shift π.first.labels = instr.shift π.second.labels) :
    π.Paired T T Eq (emit instr) (emit instr') := by
  intro c d h
  have hcode : (d.code.push instr').map (Instr.shift π.first.labels) =
      (c.code.push instr).map (Instr.shift π.second.labels) := by
    rw [Array.map_push, Array.map_push, h.code, hshift]
  exact .ok rfl { h with code := hcode }

theorem same_emit {instr : Instr} (h : instr.isPlain = true) : π.Same T (emit instr) := by
  apply paired_emit
  unfold Instr.shift
  rw [Instr.relabel_of_plain h, Instr.relabel_of_plain h]

theorem same_emitAll {code : List Instr} (h : code.all Instr.isPlain = true) :
    π.Same T (emitAll code) := by
  induction code with
  | nil => exact same_pure ()
  | cons instr rest ih =>
      rw [List.all_cons, Bool.and_eq_true] at h
      exact (same_emit h.1).bind fun _ => ih h.2

theorem same_writeMark (mark : Tree.Mark) : π.Same T (writeMark mark) := by
  intro c d h
  rw [run_writeMark, run_writeMark, h.treeOpen]
  split
  · have htree : d.tree.push ⟨d.depth, mark⟩ = c.tree.push ⟨c.depth, mark⟩ := by
      rw [h.tree, h.depth]
    exact .ok rfl { h with tree := htree, treeOpen := rfl }
  · exact .error h.toWroteSame

theorem same_deepen (levels : Int) : π.Same T (deepen levels) := by
  intro c d h
  have hdepth : d.depth + levels = c.depth + levels := by rw [h.depth]
  exact .ok rfl { h with depth := hdepth }

theorem same_enter (nonterminal : Nonterminal) : π.Same T (enter nonterminal) :=
  (same_writeMark _).bind fun _ => same_deepen 1

theorem same_leave (nonterminal : Nonterminal) : π.Same T (leave nonterminal) :=
  (same_deepen (-1)).bind fun _ => same_writeMark _

theorem same_closeTree : π.Same T closeTree :=
  fun _ _ h => .ok rfl { h with treeOpen := rfl }

/-- Two labels that are drawn differ as the counts of the pair do. -/
def SameLabel (π : Pair) (label label' : Nat) : Prop :=
  label' + π.first.labels = label + π.second.labels

theorem paired_drawLabel : π.Paired T T π.SameLabel drawLabel drawLabel := by
  intro c d h
  have hlabels : d.labels + 1 + π.first.labels = c.labels + 1 + π.second.labels := by
    have := h.labels
    omega
  exact .ok h.labels { h with labels := hlabels }

theorem SameLabel.paired_label {label label' : Nat} (h : π.SameLabel label label') :
    π.Paired T T Eq (emit (.label label)) (emit (.label label')) :=
  paired_emit (congrArg Instr.label h)

theorem SameLabel.paired_goto {label label' : Nat} (h : π.SameLabel label label') :
    π.Paired T T Eq (emit (.goto label)) (emit (.goto label')) :=
  paired_emit (congrArg Instr.goto h)

theorem SameLabel.paired_ifGoto {label label' : Nat} (h : π.SameLabel label label') :
    π.Paired T T Eq (emit (.ifGoto label)) (emit (.ifGoto label')) :=
  paired_emit (congrArg Instr.ifGoto h)

/-!
# Taking tokens
-/

theorem same_moveOn : π.Same T moveOn := by
  intro c d h
  rw [run_moveOn, run_moveOn, h.scanner]
  split
  · rw [run_scanning, run_scanning, h.scanner]
    cases Scanner.advance.run c.scanner with
    | ok _ scanner => exact .ok rfl (h.withScanner scanner)
    | error fault scanner => exact .error (h.withScanner scanner).toWroteSame
  · exact .ok rfl h

theorem same_take (token : Token) : π.Same T (take token) :=
  (same_writeMark _).bind fun _ => same_moveOn

theorem same_takeKeyword (words : List Keyword) : π.Same T (takeKeyword words) := by
  apply same_current.bind
  intro token
  split
  · split
    · exact (same_take _).bind fun _ => same_pure _
    · exact same_throw _
  · exact same_unexpectedKind _

theorem same_takeSymbol (sign : Symbol) : π.Same T (takeSymbol sign) := by
  apply same_current.bind
  intro token
  split
  · split
    · exact same_take _
    · exact same_throw _
  · exact same_unexpectedKind _

theorem same_takeIdentifier : π.Same T takeIdentifier := by
  apply same_current.bind
  intro token
  split
  · exact (same_take _).bind fun _ => same_pure _
  · exact same_unexpectedKind _

theorem same_takeInteger : π.Same T takeInteger := by
  apply same_current.bind
  intro token
  split
  · exact (same_take _).bind fun _ => same_pure _
  · exact same_unexpectedKind _

theorem same_takeString : π.Same T takeString := by
  apply same_current.bind
  intro token
  split
  · next text =>
      exact (same_emitAll (Syntax.plain_stringCode _)).bind fun _ =>
        (same_take _).bind fun _ => same_pure _
  · exact same_unexpectedKind _

theorem same_takeType : π.Same T takeType := by
  apply same_current.bind
  intro token
  split
  · exact same_takeIdentifier
  · rw [map_eq_pure_bind]
    exact (same_takeKeyword _).bind fun word => same_pure _

/-!
# Repetition
-/

theorem same_repeatWithin {applies : CompileM Bool} (happlies : π.Same T applies)
    (hstep : π.Same T step) (n : Nat) : π.Same T (repeatWithin applies step n) := by
  induction n with
  | zero => exact same_throw _
  | succ n ih =>
      apply happlies.bind
      intro again
      cases again with
      | false => exact same_pure []
      | true => exact hstep.bind fun first => ih.bind fun others => same_pure (first :: others)

theorem same_repeatWhile {applies : CompileM Bool} (happlies : π.Same T applies)
    (hstep : π.Same T step) : π.Same T (repeatWhile applies step) :=
  same_bound.bind fun n => same_repeatWithin happlies hstep n

end

end Pair
end Jack
