import Mathlib.Data.List.Nodup
import Jack.Proofs.History

/-!
# The order of sources

Sources with different classes are compiled one after the other by a new compiler.  In
another order of the same sources a class is compiled alike, up to the numbers of its labels,
unless it is stopped in one of the orders: an expression calls a subroutine on a name whose
class comes before it in the other order only.
-/

namespace Jack

/-!
# Code up to labels
-/

namespace Instr

/-- The label that a command defines or jumps to. -/
def label? : Instr -> Option Nat
  | .label number => some number
  | .goto number => some number
  | .ifGoto number => some number
  | _ => none

/-- Commands that differ by a distance of their labels have the label of the one at that
distance. -/
theorem eq_relabel_of_shift {instr instr' : Instr} {distance distance' : Nat}
    (h : instr'.shift distance = instr.shift distance') :
    instr' = instr.relabel (fun number => number + distance' - distance) ∧
      forall number, instr.label? = some number -> distance ≤ number + distance' := by
  cases instr <;> cases instr' <;> simp_all [shift, relabel, label?] <;> omega

end Instr

/-- The labels of some code, where they are defined and where it jumps to them. -/
def mentionedLabels (code : List Instr) : List Nat :=
  code.filterMap Instr.label?

/-- The second code is the first one with other names for its labels.  Different labels get
different names. -/
def Renamed (code code' : List Instr) : Prop :=
  exists f : Nat -> Nat,
    (forall label other, label ∈ mentionedLabels code -> other ∈ mentionedLabels code ->
      f label = f other -> label = other) ∧
    code' = code.map (Instr.relabel f)

theorem eq_map_relabel_of_shift {code code' : List Instr} {distance distance' : Nat}
    (h : code'.map (Instr.shift distance) = code.map (Instr.shift distance')) :
    code' = code.map (Instr.relabel fun number => number + distance' - distance) ∧
      forall label, label ∈ mentionedLabels code -> distance ≤ label + distance' := by
  induction code generalizing code' with
  | nil =>
      rw [List.map_nil, List.map_eq_nil_iff] at h
      subst h
      exact ⟨rfl, by simp [mentionedLabels]⟩
  | cons instr rest ih =>
      cases code' with
      | nil => cases h
      | cons instr' rest' =>
          rw [List.map_cons, List.map_cons] at h
          injection h with hfirst hrest
          rcases Instr.eq_relabel_of_shift hfirst with ⟨heq, hle⟩
          rcases ih hrest with ⟨hmap, hlabels⟩
          constructor
          · rw [List.map_cons, ← heq, ← hmap]
          · intro label hmem
            rcases List.mem_filterMap.mp hmem with ⟨found, hfound, hlabel⟩
            rcases List.mem_cons.mp hfound with rfl | hfound
            · exact hle label hlabel
            · exact hlabels label (List.mem_filterMap.mpr ⟨found, hfound, hlabel⟩)

theorem renamed_of_shift {code code' : List Instr} {distance distance' : Nat}
    (h : code'.map (Instr.shift distance) = code.map (Instr.shift distance')) :
    Renamed code code' := by
  rcases eq_map_relabel_of_shift h with ⟨hmap, hle⟩
  refine ⟨_, ?_, hmap⟩
  intro label other hlabel hother heq
  have hlabel := hle label hlabel
  have hother := hle other hother
  omega

/-- Two outcomes for a source with the same fault, if any, with the same tree, and with the
same code up to the names of labels. -/
structure Outcome.SameUpToLabels (o o' : Outcome) : Prop where
  fault : o'.fault = o.fault
  written : o.written = none ∧ o'.written = none ∨
    exists code code' tree, o.written = some (code, tree) ∧ o'.written = some (code', tree) ∧
      Renamed code code'

theorem Pair.Matches.sameUpToLabels {π : Pair} {o o' : Outcome} (h : π.Matches o o') :
    o.SameUpToLabels o' := by
  refine ⟨h.fault, ?_⟩
  have htree := h.tree
  have hcode := h.code
  cases hfirst : o.written with
  | none =>
      rw [hfirst, Option.map_none, Option.map_eq_none_iff] at htree
      exact Or.inl ⟨rfl, htree⟩
  | some written =>
      cases hsecond : o'.written with
      | none =>
          rw [hfirst, hsecond] at htree
          cases htree
      | some written' =>
          rw [hfirst, hsecond] at htree hcode
          have htree : written'.2 = written.2 := Option.some.inj htree
          refine Or.inr ⟨written.1, written'.1, written.2, rfl, ?_,
            renamed_of_shift (Option.some.inj hcode)⟩
          rw [← htree]

/-!
# Sources one after the other
-/

namespace Compiler

/-- The compiler after some sources. -/
def compileAll (c : Compiler) : List String -> Compiler
  | [] => c
  | text :: rest => (c.compile text).compiler.compileAll rest

/-- Every source is accepted after the ones before it. -/
def AcceptsAll (c : Compiler) : List String -> Prop
  | [] => True
  | text :: rest => (c.compile text).fault = none ∧ (c.compile text).compiler.AcceptsAll rest

theorem compileAll_append (c : Compiler) (front back : List String) :
    c.compileAll (front ++ back) = (c.compileAll front).compileAll back := by
  induction front generalizing c with
  | nil => rfl
  | cons text rest ih => exact ih _

theorem acceptsAll_append {c : Compiler} {front back : List String} :
    c.AcceptsAll (front ++ back) ↔ c.AcceptsAll front ∧ (c.compileAll front).AcceptsAll back := by
  induction front generalizing c with
  | nil => simp [AcceptsAll, compileAll]
  | cons text rest ih => simp [AcceptsAll, compileAll, ih, and_assoc]

/-- An accepted source gives a table to its class and leaves all other tables. -/
theorem tables_of_accepted {c : Compiler} {text : String} (h : (c.compile text).fault = none) :
    exists name table, declaredClass text = some name ∧
      (c.compile text).compiler.classes.get? name = some table ∧
      forall other, other ≠ name ->
        (c.compile text).compiler.classes.get? other = c.classes.get? other := by
  have hself : Pair.Compatible ⟨c, c, declaredClass text⟩ :=
    Pair.compatible_of_answers fun _ _ => rfl
  rcases Pair.matches_or_stopped hself with hmatches | ⟨_, hfault, _⟩ | ⟨_, hfault, _⟩
  · rcases hmatches.tables h with ⟨name, table, hown, htable, _, _, hothers⟩
    exact ⟨name, table, hown, htable, fun other hne => (hothers other hne).1⟩
  · rw [h] at hfault
    cases hfault
  · rw [h] at hfault
    cases hfault

/-- The table of a class stays if no later source declares the class. -/
theorem get?_compileAll_of_not_mem {c : Compiler} {texts : List String} {name : String}
    (haccepts : c.AcceptsAll texts) (h : some name ∉ texts.map declaredClass) :
    (c.compileAll texts).classes.get? name = c.classes.get? name := by
  induction texts generalizing c with
  | nil => rfl
  | cons text rest ih =>
      rw [List.map_cons, List.mem_cons, not_or] at h
      rcases tables_of_accepted haccepts.1 with ⟨declared, _, hdeclared, _, hothers⟩
      have hne : name ≠ declared := by
        intro heq
        rw [hdeclared, heq] at h
        exact h.1 rfl
      rw [compileAll, ih haccepts.2 h.2, hothers name hne]

/-- A class that one of the sources declares has a table behind them. -/
theorem isSome_get?_compileAll {c : Compiler} {texts : List String} {name : String}
    (haccepts : c.AcceptsAll texts)
    (h : (c.classes.get? name).isSome = true ∨ some name ∈ texts.map declaredClass) :
    ((c.compileAll texts).classes.get? name).isSome = true := by
  induction texts generalizing c with
  | nil => simpa [compileAll] using h
  | cons text rest ih =>
      rcases tables_of_accepted haccepts.1 with ⟨declared, table, hdeclared, htable, hothers⟩
      apply ih haccepts.2
      by_cases hname : name = declared
      · rw [hname, htable]
        exact Or.inl rfl
      · rw [hothers name hname]
        rcases h with h | h
        · exact Or.inl h
        · rw [List.map_cons, List.mem_cons, hdeclared] at h
          exact Or.inr (h.resolve_left fun heq => hname (Option.some.inj heq))

/-- A class with a table was declared by one of the sources, where it got its table. -/
theorem exists_source_of_table {texts : List String} {name : String} {table : Table Entry}
    (haccepts : ({} : Compiler).AcceptsAll texts) (hnodup : (texts.map declaredClass).Nodup)
    (htable : (({} : Compiler).compileAll texts).classes.get? name = some table) :
    exists front text back, texts = front ++ text :: back ∧ declaredClass text = some name ∧
      ({} : Compiler).AcceptsAll front ∧
      ((({} : Compiler).compileAll front).compile text).fault = none ∧
      ((({} : Compiler).compileAll front).compile text).compiler.classes.get? name =
        some table := by
  have hmem : some name ∈ texts.map declaredClass := by
    by_contra hmem
    rw [get?_compileAll_of_not_mem haccepts hmem] at htable
    cases htable
  rcases List.mem_map.mp hmem with ⟨text, htext, hdeclared⟩
  rcases List.append_of_mem htext with ⟨front, back, rfl⟩
  rcases acceptsAll_append.mp haccepts with ⟨hfront, haccepted, hback⟩
  refine ⟨front, text, back, rfl, hdeclared, hfront, haccepted, ?_⟩
  rw [List.map_append, List.map_cons, hdeclared] at hnodup
  have hlater : some name ∉ back.map declaredClass :=
    (List.nodup_cons.mp hnodup.of_append_right).1
  rwa [compileAll_append, compileAll, get?_compileAll_of_not_mem hback hlater] at htable

/-- Compilers that agree on the classes they both know give a class the same table. -/
theorem table_eq_of_compatible {p q : Compiler} {text name : String} {table table' : Table Entry}
    (hcompatible : Pair.Compatible ⟨p, q, declaredClass text⟩)
    (hdeclared : declaredClass text = some name) (hfirst : (p.compile text).fault = none)
    (hsecond : (q.compile text).fault = none)
    (htable : (p.compile text).compiler.classes.get? name = some table)
    (htable' : (q.compile text).compiler.classes.get? name = some table') : table' = table := by
  rcases Pair.matches_or_stopped hcompatible with hmatches | ⟨_, hfault, _⟩ | ⟨_, hfault, _⟩
  · rcases hmatches.tables hfirst with ⟨found, own, hown, hget, hget', _⟩
    have hfound : found = name := Option.some.inj (hown.symm.trans hdeclared)
    subst hfound
    rw [Option.some.inj (htable.symm.trans hget), Option.some.inj (htable'.symm.trans hget')]
  · rw [hfirst] at hfault
    cases hfault
  · rw [hsecond] at hfault
    cases hfault

/-- Accepted sources in two orders give the same table to a class that both declare.  Texts
that declare one class are the same text. -/
theorem tables_eq_of_accepted {before before' : List String}
    (haccepts : ({} : Compiler).AcceptsAll before)
    (haccepts' : ({} : Compiler).AcceptsAll before')
    (hnodup : (before.map declaredClass).Nodup) (hnodup' : (before'.map declaredClass).Nodup)
    (hsame : forall text, text ∈ before -> forall text', text' ∈ before' ->
      declaredClass text = declaredClass text' -> text = text')
    {name : String} {table table' : Table Entry}
    (htable : (({} : Compiler).compileAll before).classes.get? name = some table)
    (htable' : (({} : Compiler).compileAll before').classes.get? name = some table') :
    table' = table := by
  -- the classes that the source asks for were declared before it, so the induction is on
  -- the number of sources
  induction hlength : before.length using Nat.strongRecOn
    generalizing before before' name table table' with
  | ind length ih =>
      subst hlength
      rcases exists_source_of_table haccepts hnodup htable with
        ⟨front, text, back, rfl, hdeclared, hfront, haccepted, hget⟩
      rcases exists_source_of_table haccepts' hnodup' htable' with
        ⟨front', text', back', rfl, hdeclared', hfront', haccepted', hget'⟩
      have htext : text = text' :=
        hsame text (by simp) text' (by simp) (hdeclared.trans hdeclared'.symm)
      subst htext
      rw [List.map_append] at hnodup hnodup'
      have hshorter : front.length < (front ++ text :: back).length := by simp
      have hcompatible : Pair.Compatible
          ⟨({} : Compiler).compileAll front, ({} : Compiler).compileAll front',
            declaredClass text⟩ := by
        intro other known known' _ hknown hknown'
        have hfronts : forall text, text ∈ front -> forall text', text' ∈ front' ->
            declaredClass text = declaredClass text' -> text = text' :=
          fun text hmem text' hmem' =>
            hsame text (List.mem_append_left _ hmem) text' (List.mem_append_left _ hmem')
        rw [ih _ hshorter hfront hfront' hnodup.of_append_left hnodup'.of_append_left hfronts
          hknown hknown' rfl]
      exact table_eq_of_compatible hcompatible hdeclared haccepted haccepted' hget hget'

end Compiler

/-!
# Two orders
-/

/-- A source is stopped since it asks for a class that is declared before it in another
order, and not in its own. -/
def Lacks (before other : List String) (o : Outcome) : Prop :=
  exists name, o.fault = some (.missingKey (.text name)) ∧
    some name ∉ before.map declaredClass ∧ some name ∈ other.map declaredClass

theorem Pair.Stopped.lacks {own : Option String} {before other : List String} {o : Outcome}
    (hbefore : ({} : Compiler).AcceptsAll before) (hother : ({} : Compiler).AcceptsAll other)
    (h : Stopped own (({} : Compiler).compileAll before) (({} : Compiler).compileAll other) o) :
    Lacks before other o := by
  rcases h with ⟨fault, hfault, name, _, rfl, hmissing, hknown⟩
  refine ⟨name, hfault, ?_, ?_⟩
  · intro hmem
    have hsome := Compiler.isSome_get?_compileAll hbefore (Or.inr hmem)
    rw [hmissing] at hsome
    cases hsome
  · by_contra hmem
    rw [Compiler.get?_compileAll_of_not_mem hother hmem] at hknown
    cases hknown

/-- Sources that declare different classes are compiled in two orders, and those before a
source are accepted in both.  Then the source has the same outcome in both orders, with the
same code up to the names of labels, or it is stopped in one of them for lack of a class that
is declared before it in the other. -/
theorem order_matters_only_for_missing_classes {before after before' after' : List String}
    {text : String} (horders : (before' ++ text :: after').Perm (before ++ text :: after))
    (hnames : ((before ++ text :: after).map declaredClass).Nodup)
    (hbefore : ({} : Compiler).AcceptsAll before)
    (hbefore' : ({} : Compiler).AcceptsAll before') :
    ((({} : Compiler).compileAll before).compile text).SameUpToLabels
        ((({} : Compiler).compileAll before').compile text) ∨
      Lacks before before' ((({} : Compiler).compileAll before).compile text) ∨
      Lacks before' before ((({} : Compiler).compileAll before').compile text) := by
  have hnames' := (horders.map declaredClass).nodup_iff.mpr hnames
  have hinjective := List.inj_on_of_nodup_map hnames
  rw [List.map_append] at hnames hnames'
  have hsame : forall text, text ∈ before -> forall text', text' ∈ before' ->
      declaredClass text = declaredClass text' -> text = text' := by
    intro text hmem text' hmem'
    exact hinjective (List.mem_append_left _ hmem)
      (horders.mem_iff.mp (List.mem_append_left _ hmem'))
  have hcompatible : Pair.Compatible
      ⟨({} : Compiler).compileAll before, ({} : Compiler).compileAll before',
        declaredClass text⟩ := by
    intro name table table' _ htable htable'
    rw [Compiler.tables_eq_of_accepted hbefore hbefore' hnames.of_append_left
      hnames'.of_append_left hsame htable htable']
  rcases Pair.matches_or_stopped hcompatible with hmatches | hstopped | hstopped
  · exact Or.inl hmatches.sameUpToLabels
  · exact Or.inr (Or.inl (hstopped.lacks hbefore hbefore'))
  · exact Or.inr (Or.inr (hstopped.lacks hbefore' hbefore))

/-- A class with a method. -/
def calleeText : String :=
  "class B \x7b method int g() \x7b return 1; \x7d \x7d"

/-- A class that calls the method in an expression. -/
def callerText : String :=
  "class A \x7b function int f() \x7b var B b; return b.g(); \x7d \x7d"

theorem order_of_caller_and_callee :
    ([calleeText] ++ callerText :: []).Perm ([] ++ callerText :: [calleeText]) ∧
      (([] ++ callerText :: [calleeText]).map declaredClass).Nodup ∧
      ({} : Compiler).AcceptsAll [] ∧ ({} : Compiler).AcceptsAll [calleeText] ∧
      (((({} : Compiler).compileAll []).compile callerText).SameUpToLabels
          ((({} : Compiler).compileAll [calleeText]).compile callerText) ∨
        Lacks [] [calleeText] ((({} : Compiler).compileAll []).compile callerText) ∨
        Lacks [calleeText] [] ((({} : Compiler).compileAll [calleeText]).compile callerText)) := by
  have horders : ([calleeText] ++ callerText :: []).Perm ([] ++ callerText :: [calleeText]) :=
    List.Perm.swap _ _ _
  have hnames : (([] ++ callerText :: [calleeText]).map declaredClass).Nodup := by decide +kernel
  have hcallee : ({} : Compiler).AcceptsAll [calleeText] := ⟨by decide +kernel, trivial⟩
  exact ⟨horders, hnames, trivial, hcallee,
    order_matters_only_for_missing_classes horders hnames trivial hcallee⟩

/-- The caller is refused before the callee and accepted after it. -/
theorem acceptance_depends_on_order :
    ([callerText, calleeText].map declaredClass).Nodup ∧
      (({} : Compiler).compile callerText).fault ≠ none ∧
      ((({} : Compiler).compileAll [calleeText]).compile callerText).fault = none := by
  decide +kernel

end Jack
