import Jack.Proofs.Program
import Jack.Proofs.Recognition.Statement

/-!
# What the routines for declarations and classes accept

A routine for declarations that succeeds has read a tree, too, and it has filed the
names of the tree.  So a class that is compiled has the tables and the code of a tree.
-/

namespace Jack
namespace Compile

open Syntax

/-!
# Repetition
-/

/-- Steps that are taken one after the other, one for each item. -/
inductive Chain (Step : Compiler -> ι -> Compiler -> Prop) :
    Compiler -> List ι -> Compiler -> Prop where
  | nil (c : Compiler) : Chain Step c [] c
  | cons {c c' c'' : Compiler} {item : ι} {rest : List ι} :
      Step c item c' -> Chain Step c' rest c'' -> Chain Step c (item :: rest) c''

theorem repeatWithin_chain {applies : CompileM Bool} {step : CompileM α}
    {Step : Compiler -> ι -> Compiler -> Prop} {value : ι -> α}
    (happlies : forall c, exists answer, applies.run c = .ok answer c)
    (hstep : forall {c a c'}, step.run c = .ok a c' ->
      exists item, value item = a ∧ Step c item c')
    {n : Nat} {c c' : Compiler} {results : List α}
    (h : (repeatWithin applies step n).run c = .ok results c') :
    exists items : List ι, items.map value = results ∧ Chain Step c items c' := by
  induction n generalizing c results with
  | zero => cases h
  | succ n ih =>
      unfold repeatWithin at h
      rcases happlies c with ⟨answer, hanswer⟩
      rw [run_bind_of_ok hanswer] at h
      cases answer with
      | false =>
          cases h
          exact ⟨[], rfl, Chain.nil _⟩
      | true =>
          rcases run_bind_eq_ok_iff.mp h with ⟨first, c1, hfirst, h⟩
          rcases run_bind_eq_ok_iff.mp h with ⟨others, c2, hothers, hpure⟩
          cases hpure
          rcases hstep hfirst with ⟨item, hvalue, hitem⟩
          rcases ih hothers with ⟨items, hvalues, hitems⟩
          exact ⟨item :: items, by simp [hvalue, hvalues], Chain.cons hitem hitems⟩

theorem repeatWhile_chain {applies : CompileM Bool} {step : CompileM α}
    {Step : Compiler -> ι -> Compiler -> Prop} {value : ι -> α}
    (happlies : forall c, exists answer, applies.run c = .ok answer c)
    (hstep : forall {c a c'}, step.run c = .ok a c' ->
      exists item, value item = a ∧ Step c item c')
    {c c' : Compiler} {results : List α}
    (h : (repeatWhile applies step).run c = .ok results c') :
    exists items : List ι, items.map value = results ∧ Chain Step c items c' := by
  unfold repeatWhile at h
  rw [run_bind_of_ok (run_bound c)] at h
  exact repeatWithin_chain happlies hstep h

/-- Declarations that stand one behind the other change the tables in turn. -/
theorem Chain.makes {marks : ι -> List Tree.Mark} {items : List ι} {c c' : Compiler}
    (next : Tables -> ι -> Tables)
    (h : Chain (fun c item c' => c.Makes (marks item) [] 0 (next c.tables item) c') c items c') :
    c.Makes (items.flatMap marks) [] 0 (items.foldl next c.tables) c' := by
  induction h with
  | nil c => exact (Compiler.Yields.refl c).makes
  | cons hitem _ ih =>
      rw [hitem.tables] at ih
      exact hitem.trans ih

/-!
# Declarations
-/

theorem fileLocally_makes {storage : Storage} (hstorage : storage = .var ∨ storage = .argument)
    {e : Entry} {c c' : Compiler} (h : (fileLocally e).run c = .ok () c') :
    c.Makes [] [] 0 (c.tables.mapTable storage fun table => table.insert e) c' := by
  rw [((run_fileLocally_eq_ok_iff hstorage).mp h).2]
  exact Compiler.makes_withTables c _

theorem fileInClass_makes {e : Entry} {c c' : Compiler}
    (h : (fileInClass e).run c = .ok () c') :
    c.Makes [] [] 0
      { c.tables with scope := c.scope.mapClass fun table => table.insert e } c' := by
  rw [(run_fileInClass_eq_ok_iff.mp h).2]
  exact Compiler.makes_withTables c _

theorem declare_makes {category : Category} {type : Option String} {name : String}
    {c c' : Compiler} (h : (declare category type).run c = .ok name c') :
    c.Makes [.leaf (.identifier name)] [] 0 (c.tables.declare category name type) c' := by
  unfold declare at h
  rcases run_bind_eq_ok_iff.mp h with ⟨found, c1, hidentifier, h⟩
  have hleaf := (run_takeIdentifier_eq_ok_iff.mp hidentifier).2.makes
  have hfiled : found = name ∧ c1.Makes [] [] 0 (c1.tables.declare category found type) c' := by
    cases category with
    | className =>
        cases h
        exact ⟨rfl, Compiler.makes_withTables c1 _⟩
    | subroutine =>
        rcases run_bind_eq_ok_iff.mp h with ⟨_, c2, huse, h⟩
        rcases run_bind_eq_ok_iff.mp h with ⟨_, c3, hfile, hpure⟩
        cases hpure
        have hused : c1.Makes [] [] 0 { c1.tables with subroutineName := some name } c2 := by
          cases huse
          exact Compiler.makes_withTables c1 _
        cases huse
        exact ⟨rfl, hused.trans (fileInClass_makes hfile)⟩
    | stored storage =>
        cases storage with
        | var =>
            rcases run_bind_eq_ok_iff.mp h with ⟨_, c2, hfile, hpure⟩
            cases hpure
            exact ⟨rfl, fileLocally_makes (Or.inl rfl) hfile⟩
        | argument =>
            rcases run_bind_eq_ok_iff.mp h with ⟨_, c2, hfile, hpure⟩
            cases hpure
            exact ⟨rfl, fileLocally_makes (Or.inr rfl) hfile⟩
        | static =>
            rcases run_bind_eq_ok_iff.mp h with ⟨_, c2, hfile, hpure⟩
            cases hpure
            exact ⟨rfl, fileInClass_makes hfile⟩
        | field =>
            rcases run_bind_eq_ok_iff.mp h with ⟨_, c2, hfile, hpure⟩
            cases hpure
            exact ⟨rfl, fileInClass_makes hfile⟩
  rcases hfiled with ⟨hname, hfiled⟩
  subst hname
  rw [hleaf.tables] at hfiled
  simpa using hleaf.trans hfiled

theorem declareNames_makes {storage : Storage} {count : Nat} {c c' : Compiler}
    (h : (declareNames (.stored storage)).run c = .ok count c') :
    exists names : Names, names.all.length = count ∧
      c.Makes (names.tokens.map .leaf) [] 0
        (c.tables.mapTable storage (names.file storage)) c' := by
  unfold declareNames at h
  rcases run_bind_eq_ok_iff.mp h with ⟨word, c1, htype, h⟩
  rcases run_bind_eq_ok_iff.mp h with ⟨first, c2, hfirst, h⟩
  rcases run_bind_eq_ok_iff.mp h with ⟨others, c3, hothers, h⟩
  rcases run_bind_eq_ok_iff.mp h with ⟨_, c4, hsemicolon, hpure⟩
  cases hpure
  rcases run_takeType_eq_ok_iff.mp htype with ⟨type, hword, _, hleaf⟩
  subst hword
  have hfirst := declare_makes hfirst
  have hsemicolon := (run_takeSymbol_eq_ok_iff.mp hsemicolon).2
  have hstep : forall {c a c'},
      (do
        takeSymbol .comma
        declare (.stored storage) (some type.word) : CompileM String).run c = .ok a c' ->
      exists name : String, name = a ∧
        c.Makes [.leaf (.symbol .comma), .leaf (.identifier name)] [] 0
          (c.tables.mapTable storage fun table =>
            table.insert (entryOf (.stored storage) name (some type.word))) c' := by
    intro c a c' h
    rcases run_bind_eq_ok_iff.mp h with ⟨_, d, hcomma, hdeclare⟩
    have hcomma := (run_takeSymbol_eq_ok_iff.mp hcomma).2.makes
    have hdeclare := declare_makes hdeclare
    rw [hcomma.tables] at hdeclare
    exact ⟨a, rfl, by simpa [Tables.declare] using hcomma.trans hdeclare⟩
  rcases repeatWhile_chain (fun c => ⟨_, run_atSymbol .comma c⟩) hstep hothers with
    ⟨names, hnames, hlist⟩
  subst hnames
  have hlist := hlist.makes fun t name =>
    t.mapTable storage fun table => table.insert (entryOf (.stored storage) name (some type.word))
  rw [hleaf.makes.tables] at hfirst
  rw [hfirst.tables, Tables.declare, Tables.foldl_mapTable] at hlist
  have hmarks : (⟨type, first, names⟩ : Names).tokens.map Tree.Mark.leaf =
      [Tree.Mark.leaf type.token] ++ ([Tree.Mark.leaf (.identifier first)] ++
        ((names.flatMap fun name => [Tree.Mark.leaf (.symbol .comma), .leaf (.identifier name)]) ++
          [Tree.Mark.leaf (.symbol .semicolon)])) := by
    simp [Names.tokens, List.map_flatMap]
  refine ⟨⟨type, first, names⟩, by simp [Names.all], ?_⟩
  rw [hmarks]
  exact
    hleaf.makes.trans (hfirst.trans (hlist.yields hsemicolon))

theorem eq_of_run_currentKeyword {word : Keyword} {c c' : Compiler}
    (h : currentKeyword.run c = .ok word c') : c' = c := by
  rw [run_currentKeyword] at h
  split at h
  · cases h
    rfl
  · cases h

theorem classVarDec_makes {count : Nat} {c c' : Compiler}
    (h : classVarDec.run c = .ok count c') :
    exists v : ClassVar, v.names.all.length = count ∧
      c.Makes v.marks [] 0 (c.tables.mapTable v.storage v.file) c' := by
  unfold classVarDec at h
  rcases run_bind_eq_ok_iff.mp h with ⟨_, c1, henter, h⟩
  rcases run_bind_eq_ok_iff.mp h with ⟨_, c2, hcurrent, h⟩
  rcases run_bind_eq_ok_iff.mp h with ⟨word, c3, hkeyword, h⟩
  rcases run_bind_eq_ok_iff.mp h with ⟨_, c4, hnames, h⟩
  rcases run_bind_eq_ok_iff.mp h with ⟨_, c5, hleave, hpure⟩
  cases hpure
  have hopening := (run_enter_eq_ok_iff.mp henter).2
  have hclosing := (run_leave_eq_ok_iff.mp hleave).2
  rcases run_takeKeyword_eq_ok_iff.mp hkeyword with ⟨hword, _, hleaf⟩
  rcases declareNames_makes hnames with ⟨names, hcount, hnames⟩
  rw [eq_of_run_currentKeyword hcurrent] at hleaf
  have hfront := (hopening.trans hleaf).makes
  rw [hfront.tables] at hnames
  have hparts := (hfront.trans hnames).yields hclosing
  simp only [List.mem_cons, List.not_mem_nil, or_false] at hword
  rcases hword with hword | hword
  · subst hword
    refine ⟨⟨true, names⟩, hcount, ?_⟩
    simpa [ClassVar.marks, ClassVar.tokens, ClassVar.file, ClassVar.storage, Tree.enclose]
      using hparts
  · subst hword
    refine ⟨⟨false, names⟩, hcount, ?_⟩
    simpa [ClassVar.marks, ClassVar.tokens, ClassVar.file, ClassVar.storage, Tree.enclose]
      using hparts

theorem varDec_makes {count : Nat} {c c' : Compiler} (h : varDec.run c = .ok count c') :
    exists v : LocalVar, v.names.all.length = count ∧
      c.Makes v.marks [] 0 (c.tables.mapTable .var v.file) c' := by
  unfold varDec at h
  rcases run_bind_eq_ok_iff.mp h with ⟨_, c1, henter, h⟩
  rcases run_bind_eq_ok_iff.mp h with ⟨word, c2, hkeyword, h⟩
  rcases run_bind_eq_ok_iff.mp h with ⟨_, c3, hnames, h⟩
  rcases run_bind_eq_ok_iff.mp h with ⟨_, c4, hleave, hpure⟩
  cases hpure
  have hopening := (run_enter_eq_ok_iff.mp henter).2
  have hclosing := (run_leave_eq_ok_iff.mp hleave).2
  rcases run_takeKeyword_eq_ok_iff.mp hkeyword with ⟨hword, _, hleaf⟩
  have hwordEq : word = .var := by simpa using hword
  subst hwordEq
  rcases declareNames_makes hnames with ⟨names, hcount, hnames⟩
  have hfront := (hopening.trans hleaf).makes
  rw [hfront.tables] at hnames
  refine ⟨⟨names⟩, hcount, ?_⟩
  simpa [LocalVar.marks, LocalVar.tokens, LocalVar.file, Tree.enclose] using
    (hfront.trans hnames).yields hclosing

/-!
# Subroutines
-/

theorem parameter_makes {c c' : Compiler} (h : parameter.run c = .ok () c') :
    exists p : Parameter,
      c.Makes (p.tokens.map .leaf) [] 0 (c.tables.mapTable .argument p.file) c' := by
  unfold parameter at h
  rcases run_bind_eq_ok_iff.mp h with ⟨word, c1, htype, h⟩
  rcases run_bind_eq_ok_iff.mp h with ⟨name, c2, hname, hpure⟩
  cases hpure
  rcases run_takeType_eq_ok_iff.mp htype with ⟨type, hword, _, hleaf⟩
  subst hword
  have hname := declare_makes hname
  rw [hleaf.makes.tables] at hname
  refine ⟨⟨type, name⟩, ?_⟩
  exact hleaf.makes.trans hname

theorem moreParameters_makes {results : List Unit} {c c' : Compiler}
    (h : (repeatWhile (atSymbol .comma) (do
        takeSymbol .comma
        parameter)).run c = .ok results c') :
    exists others : List Parameter, others.length = results.length ∧
      c.Makes ((others.flatMap fun p => .symbol .comma :: p.tokens).map .leaf) [] 0
        (c.tables.mapTable .argument fun table =>
          others.foldl (fun table p => p.file table) table) c' := by
  have hstep : forall {c a c'},
      (do
        takeSymbol .comma
        parameter : CompileM Unit).run c = .ok a c' ->
      exists p : Parameter, () = a ∧
        c.Makes ((.symbol .comma :: p.tokens).map .leaf) [] 0
          (c.tables.mapTable .argument p.file) c' := by
    intro c a c' h
    rcases run_bind_eq_ok_iff.mp h with ⟨_, d, hcomma, hparameter⟩
    have hcomma := (run_takeSymbol_eq_ok_iff.mp hcomma).2.makes
    rcases parameter_makes hparameter with ⟨p, hp⟩
    rw [hcomma.tables] at hp
    exact ⟨p, rfl, by simpa using hcomma.trans hp⟩
  rcases repeatWhile_chain (fun c => ⟨_, run_atSymbol .comma c⟩) hstep h with
    ⟨others, hresults, hothers⟩
  have hothers := hothers.makes fun t (p : Parameter) => t.mapTable .argument p.file
  rw [Tables.foldl_mapLocals (Or.inr rfl)] at hothers
  refine ⟨others, by simp [← hresults], ?_⟩
  rw [List.map_flatMap]
  exact hothers

theorem parameterList_makes {count : Nat} {c c' : Compiler}
    (h : parameterList.run c = .ok count c') :
    exists parameters : List Parameter, parameters.length = count ∧
      c.Makes (Parameter.listMarks parameters) [] 0
        (c.tables.mapTable .argument fun table =>
          parameters.foldl (fun table p => p.file table) table) c' := by
  unfold parameterList at h
  rcases run_bind_eq_ok_iff.mp h with ⟨_, c1, henter, h⟩
  have hopening := (run_enter_eq_ok_iff.mp henter).2.makes
  rw [run_bind_of_ok (run_atSymbol _ _)] at h
  simp only [pure_bind] at h
  split at h
  · next hparen =>
      rcases run_bind_eq_ok_iff.mp h with ⟨others, c2, hothers, h⟩
      rcases run_bind_eq_ok_iff.mp h with ⟨_, c3, hleave, hpure⟩
      cases hpure
      have hclosing := (run_leave_eq_ok_iff.mp hleave).2
      rcases moreParameters_makes hothers with ⟨parameters, hcount, hmore⟩
      cases parameters with
      | nil =>
          rw [hopening.tables] at hmore
          refine ⟨[], by simpa using hcount, ?_⟩
          simpa [Parameter.listMarks, Parameter.listTokens, Tree.enclose] using
            (hopening.trans hmore).yields hclosing
      | cons p parameters =>
          -- At the closing parenthesis there is no comma.
          have htakes := hmore.takes
          simp only [List.flatMap_cons, List.cons_append, List.map_cons, Tree.leaves]
            at htakes
          cases htakes with
          | cons hcomma _ _ =>
              rw [of_decide_eq_true hparen] at hcomma
              cases hcomma
  · rcases run_bind_eq_ok_iff.mp h with ⟨_, c2, hfirst, h⟩
    rcases run_bind_eq_ok_iff.mp h with ⟨others, c3, hothers, h⟩
    rcases run_bind_eq_ok_iff.mp h with ⟨_, c4, hleave, hpure⟩
    cases hpure
    have hclosing := (run_leave_eq_ok_iff.mp hleave).2
    rcases parameter_makes hfirst with ⟨first, hfirst⟩
    rcases moreParameters_makes hothers with ⟨parameters, hcount, hmore⟩
    rw [hopening.tables] at hfirst
    rw [hfirst.tables, Tables.mapTable_mapTable] at hmore
    refine ⟨first :: parameters, by simp [hcount, Nat.add_comm], ?_⟩
    simpa [Parameter.listMarks, Parameter.listTokens, Tree.enclose] using
      (hopening.trans (hfirst.trans hmore)).yields hclosing

theorem prologue_yields {type : Option String} {c c' : Compiler}
    (h : (prologue type).run c = .ok () c') :
    c.Yields [] (prologueCode (c.tables.classSize.getD 0) type) 0 c' := by
  unfold prologue at h
  unfold prologueCode
  split at h
  · next hconstructor =>
      rcases run_bind_eq_ok_iff.mp h with ⟨size, c1, hsize, hemit⟩
      rw [Scope.run_classSize] at hsize
      split at hsize
      · next found hfound =>
          have hclassSize : c.tables.classSize = some found := hfound
          cases hsize
          rw [if_pos hconstructor, hclassSize]
          exact yields_emitAll hemit
      · cases hsize
  · next hconstructor =>
      rw [if_neg hconstructor]
      split at h
      · next hmethod =>
          rw [if_pos hmethod]
          exact yields_emitAll h
      · next hmethod =>
          rw [if_neg hmethod]
          cases h
          exact Compiler.Yields.refl _

/-- The tables of the body hold the variables that are declared in it. -/
theorem subroutineBody_makes {name : String} {c c' : Compiler}
    (hname : c.subroutineName = some name) (h : subroutineBody.run c = .ok () c') :
    exists (body : Body) (t : Tables),
      t = c.tables.mapTable .var
        (fun table => body.vars.foldl (fun table v => v.file table) table) ∧
      body.block.Resolved t.scope ∧
      c.Makes body.marks (body.code t.scope name (t.classSize.getD 0) c.labels)
        body.block.labels t c' := by
  unfold subroutineBody at h
  rcases run_bind_eq_ok_iff.mp h with ⟨_, c1, henter, h⟩
  rcases run_bind_eq_ok_iff.mp h with ⟨_, c2, hleft, h⟩
  rcases run_bind_eq_ok_iff.mp h with ⟨counts, c3, hvars, h⟩
  rw [run_bind_of_ok (EStateM.run_get c3)] at h
  rcases run_bind_eq_ok_iff.mp h with ⟨_, c4, hemit, h⟩
  rcases run_bind_eq_ok_iff.mp h with ⟨found, c5, hentry, h⟩
  rcases run_bind_eq_ok_iff.mp h with ⟨type, c6, htype, h⟩
  rcases run_bind_eq_ok_iff.mp h with ⟨_, c7, hprologue, h⟩
  rcases run_bind_eq_ok_iff.mp h with ⟨_, c8, hstatements, h⟩
  rcases run_bind_eq_ok_iff.mp h with ⟨_, c9, hright, hleave⟩
  have hopening := (run_enter_eq_ok_iff.mp henter).2
  have hleft := (run_takeSymbol_eq_ok_iff.mp hleft).2
  have hright := (run_takeSymbol_eq_ok_iff.mp hright).2
  have hclosing := (run_leave_eq_ok_iff.mp hleave).2
  rcases repeatWhile_chain (fun c => ⟨_, run_atKeyword [.var] c⟩) varDec_makes hvars with
    ⟨vars, hcounts, hchain⟩
  subst hcounts
  have hfront := (hopening.trans hleft).makes
  have hvars := hchain.makes fun t (v : LocalVar) => t.mapTable .var v.file
  rw [Tables.foldl_mapLocals (Or.inl rfl), hfront.tables] at hvars
  have hheader := yields_emit hemit
  rcases (Scope.asks_entry _ _ _ _).mp hentry with ⟨hc5, hfound⟩
  rcases (Scope.asks_typeOf _ _ _ _).mp htype with ⟨hc6, htype⟩
  rw [hc6, hc5] at hprologue
  have hprologue := prologue_yields hprologue
  rcases statements_reads hstatements with ⟨block, hresolved, hblock⟩
  -- No table changes behind the variables.
  have htables : c7.tables = c3.tables := hprologue.makes.tables.trans hheader.makes.tables
  have hscope : c7.scope = c3.scope := congrArg Tables.scope htables
  have hlabels : c7.labels = c.labels := by
    rw [hprologue.labels, hheader.labels, hvars.labels, hfront.labels]
    rfl
  have hname3 : c3.subroutineName = some name :=
    (congrArg Tables.subroutineName hvars.tables).trans hname
  rw [hname3] at hheader hfound
  have hjoin : (c3.scope.entry name).join.bind Entry.type = type := by
    rw [hheader.scope] at hfound
    have hentry : c3.scope.entry name = some found := hfound
    cases found with
    | none => cases htype
    | some e =>
        cases htype
        simp [hentry]
  rw [hscope] at hresolved
  rw [hscope, hlabels] at hblock
  rw [hheader.makes.tables] at hprologue
  have hmade := (hfront.trans hvars).yields
    (hheader.trans (hprologue.trans (hblock.trans (hright.trans hclosing))))
  have hfinal := hvars.tables
  rw [← hfinal] at hmade
  refine ⟨⟨vars, block⟩, c3.tables, hfinal, hresolved, ?_⟩
  simpa [Body.marks, Body.code, Body.varCount, Tree.enclose, hjoin] using hmade

theorem takeReturnType_yields {c c' : Compiler} (h : takeReturnType.run c = .ok () c') :
    exists result : Option TypeName,
      c.Yields [.leaf ((result.map TypeName.token).getD (.keyword .void))] [] 0 c' := by
  unfold takeReturnType at h
  rw [run_bind_of_ok (run_atKeyword _ _)] at h
  split at h
  · rcases run_bind_eq_ok_iff.mp h with ⟨word, c1, hkeyword, hpure⟩
    cases hpure
    rcases run_takeKeyword_eq_ok_iff.mp hkeyword with ⟨hword, _, hleaf⟩
    have hwordEq : word = .void := by simpa using hword
    subst hwordEq
    exact ⟨none, hleaf⟩
  · rcases run_bind_eq_ok_iff.mp h with ⟨word, c1, htype, hpure⟩
    cases hpure
    rcases run_takeType_eq_ok_iff.mp htype with ⟨type, _, _, hleaf⟩
    exact ⟨some type, hleaf⟩

theorem exists_kind_of_mem_subroutineWords {word : Keyword} (h : word ∈ subroutineWords) :
    exists kind : SubroutineKind, kind.keyword = word := by
  simp only [subroutineWords, List.mem_cons, List.not_mem_nil, or_false] at h
  rcases h with h | h | h
  · exact ⟨.constructor, h.symm⟩
  · exact ⟨.function, h.symm⟩
  · exact ⟨.method, h.symm⟩

/-- The step of a subroutine that is compiled.  Its body is compiled with the tables that
the subroutine enters. -/
def Compiles (c : Compiler) (s : Subroutine) (c' : Compiler) : Prop :=
  s.body.block.Resolved (c.scope.enter s) ∧
    c.Makes s.marks (s.code (c.scope.enter s) (c.tables.classSize.getD 0) c.labels)
      s.body.block.labels (c.tables.enter s) c'

theorem subroutine_makes {c c' : Compiler} (h : subroutine.run c = .ok () c') :
    exists s : Subroutine, Compiles c s c' := by
  unfold subroutine at h
  rcases run_bind_eq_ok_iff.mp h with ⟨_, c1, henter, h⟩
  rcases run_bind_eq_ok_iff.mp h with ⟨_, c2, hlocals, h⟩
  rcases run_bind_eq_ok_iff.mp h with ⟨_, c3, hcurrent, h⟩
  rcases run_bind_eq_ok_iff.mp h with ⟨word, c4, hkeyword, h⟩
  rcases run_bind_eq_ok_iff.mp h with ⟨_, c5, hresult, h⟩
  rcases run_bind_eq_ok_iff.mp h with ⟨name, c6, hname, hreserve⟩
  have hrest : exists c7,
      c6.Makes [] [] 0
        (c6.tables.mapTable .argument fun table =>
          if word = .method then table.reserveArgument else table) c7 ∧
      (do
        takeSymbol .leftParen
        let _ ← parameterList
        takeSymbol .rightParen
        subroutineBody
        leave .subroutineDec : CompileM Unit).run c7 = .ok () c' := by
    simp only at hreserve
    split at hreserve
    · next hmethod =>
        rcases run_bind_eq_ok_iff.mp hreserve with ⟨_, c7, hobject, hrest⟩
        refine ⟨c7, ?_, hrest⟩
        cases hobject
        simp only [hmethod, if_true]
        exact Compiler.makes_withTables c6 _
    · next hmethod =>
        refine ⟨c6, ?_, hreserve⟩
        simp only [hmethod, if_false]
        rw [Tables.mapTable_id (Or.inr rfl)]
        exact (Compiler.Yields.refl c6).makes
  rcases hrest with ⟨c7, hobject, h⟩
  rcases run_bind_eq_ok_iff.mp h with ⟨_, c8, hleft, h⟩
  rcases run_bind_eq_ok_iff.mp h with ⟨_, c9, hparameters, h⟩
  rcases run_bind_eq_ok_iff.mp h with ⟨_, c10, hright, h⟩
  rcases run_bind_eq_ok_iff.mp h with ⟨_, c11, hbody, hleave⟩
  have hopening := (run_enter_eq_ok_iff.mp henter).2
  have hlocals : c1.Makes [] [] 0
      { c1.tables with scope := { c1.tables.scope with locals := some {} } } c2 := by
    cases hlocals
    exact Compiler.makes_withTables c1 _
  rw [hopening.makes.tables] at hlocals
  rcases run_takeKeyword_eq_ok_iff.mp hkeyword with ⟨hword, _, hleaf⟩
  rcases exists_kind_of_mem_subroutineWords hword with ⟨kind, hkind⟩
  rw [eq_of_run_currentKeyword hcurrent] at hleaf
  subst hkind
  rcases takeReturnType_yields hresult with ⟨result, hresult⟩
  have hhead := (hopening.makes.trans hlocals).yields (hleaf.trans hresult)
  have hname := declare_makes hname
  rw [hhead.tables] at hname
  rw [hname.tables] at hobject
  have hleft := (run_takeSymbol_eq_ok_iff.mp hleft).2
  have hup := (hhead.trans (hname.trans hobject)).yields hleft
  rcases parameterList_makes hparameters with ⟨parameters, _, hparameters⟩
  rw [hup.tables] at hparameters
  have hright := (run_takeSymbol_eq_ok_iff.mp hright).2
  have hdown := (hup.trans hparameters).yields hright
  have hsubroutine : c10.subroutineName = some name :=
    congrArg Tables.subroutineName hdown.tables
  rcases subroutineBody_makes hsubroutine hbody with ⟨body, t, ht, hresolved, hbody⟩
  have hclosing := (run_leave_eq_ok_iff.mp hleave).2
  have hentered : t = c.tables.enter ⟨kind, result, name, parameters, body⟩ := by
    rw [ht, hdown.tables]
    cases kind <;> rfl
  subst hentered
  have hlabels : c10.labels = c.labels := hdown.labels
  rw [hlabels] at hbody
  refine ⟨⟨kind, result, name, parameters, body⟩, hresolved, ?_⟩
  have hmade := (hdown.trans hbody).yields hclosing
  simpa [Subroutine.marks, Subroutine.resultToken, Subroutine.code, Tree.enclose] using hmade

/-!
# Classes
-/

/-- Subroutines that are compiled one after the other share the size of the class. -/
theorem Chain.makes_subroutines {c c' : Compiler} {subroutines : List Subroutine}
    (h : Chain Compiles c subroutines c') :
    (forall p, p ∈ placeAll c.scope c.labels subroutines ->
      p.subroutine.body.block.Resolved p.scope) ∧
    c.Makes (subroutines.flatMap Subroutine.marks)
      ((placeAll c.scope c.labels subroutines).flatMap
        (Placed.code (c.tables.classSize.getD 0)))
      (total (subroutines.map fun s => s.body.block.labels))
      (subroutines.foldl Tables.enter c.tables) c' := by
  induction h with
  | nil c => exact ⟨by simp [placeAll], (Compiler.Yields.refl c).makes⟩
  | @cons c c1 c' s rest hstep _ ih =>
      rcases hstep with ⟨hresolved, hmade⟩
      rcases ih with ⟨hothers, hrest⟩
      have hscope : c1.scope = c.scope.enter s := congrArg Tables.scope hmade.tables
      have hsize : c1.tables.classSize = c.tables.classSize := by
        rw [hmade.tables]
        rfl
      rw [hscope, hmade.labels] at hothers
      rw [hscope, hmade.labels, hsize, hmade.tables] at hrest
      constructor
      · intro p hp
        cases hp with
        | head => exact hresolved
        | tail _ hp => exact hothers p hp
      · exact hmade.trans hrest

theorem classUnit_makes {c c' : Compiler} (h : classUnit.run c = .ok () c') :
    exists (unit : Syntax.Class) (d : Compiler),
      unit.Resolved c.scope c.labels ∧
      c.Makes unit.marks (unit.code c.scope c.labels) unit.labels (unit.tables c.tables) d ∧
      c' = { d with treeOpen := false } := by
  unfold classUnit at h
  rcases run_bind_eq_ok_iff.mp h with ⟨_, c1, henter, h⟩
  rcases run_bind_eq_ok_iff.mp h with ⟨word, c2, hkeyword, h⟩
  rcases run_bind_eq_ok_iff.mp h with ⟨name, c3, hname, h⟩
  rcases run_bind_eq_ok_iff.mp h with ⟨_, c4, hopen, h⟩
  rcases run_bind_eq_ok_iff.mp h with ⟨_, c5, hleft, h⟩
  rcases run_bind_eq_ok_iff.mp h with ⟨counts, c6, hvars, h⟩
  rcases run_bind_eq_ok_iff.mp h with ⟨_, c7, hsize, h⟩
  rcases run_bind_eq_ok_iff.mp h with ⟨_, c8, hsubroutines, h⟩
  rcases run_bind_eq_ok_iff.mp h with ⟨_, c9, hright, h⟩
  rcases run_bind_eq_ok_iff.mp h with ⟨_, c10, hleave, hclose⟩
  have hopening := (run_enter_eq_ok_iff.mp henter).2
  rcases run_takeKeyword_eq_ok_iff.mp hkeyword with ⟨hword, _, hleaf⟩
  have hwordEq : word = .«class» := by simpa using hword
  subst hwordEq
  have hhead := (hopening.trans hleaf).makes
  have hname := declare_makes hname
  rw [hhead.tables] at hname
  have hopen : c3.Makes [] [] 0
      { c3.tables with
        scope := { c3.tables.scope with classes := c3.tables.scope.classes.set name {} } } c4 := by
    cases hopen
    exact Compiler.makes_withTables c3 _
  rw [hname.tables] at hopen
  have hleft := (run_takeSymbol_eq_ok_iff.mp hleft).2
  have hup := (hhead.trans (hname.trans hopen)).yields hleft
  rcases repeatWhile_chain (fun c => ⟨_, run_atKeyword [.static, .field] c⟩)
    classVarDec_makes hvars with ⟨vars, hcounts, hchain⟩
  subst hcounts
  have hvars := hchain.makes fun t (v : ClassVar) => t.mapTable v.storage v.file
  have hsize : c6.Makes [] [] 0
      { c6.tables with
        sizes := c6.tables.sizes.set name (total (vars.map fun v => v.names.all.length)) } c7 := by
    cases hsize
    exact Compiler.makes_withTables c6 _
  rw [hvars.tables, foldl_classVars, hup.tables] at hsize
  rw [foldl_classVars, hup.tables] at hvars
  have hstep : forall {c a c'}, subroutine.run c = .ok a c' ->
      exists s : Subroutine, () = a ∧ Compiles c s c' := by
    intro c a c' h
    rcases subroutine_makes h with ⟨s, hs⟩
    exact ⟨s, rfl, hs⟩
  rcases repeatWhile_chain (fun c => ⟨_, run_atKeyword subroutineWords c⟩) hstep
    hsubroutines with ⟨subroutines, _, hchain⟩
  rcases hchain.makes_subroutines with ⟨hresolved, hbodies⟩
  have hright := (run_takeSymbol_eq_ok_iff.mp hright).2
  have hclosing := (run_leave_eq_ok_iff.mp hleave).2
  have hfront := hup.trans (hvars.trans hsize)
  have hvarTables : c7.tables = Class.varTables ⟨name, vars, subroutines⟩ c.tables := by
    rw [hsize.tables]
    simp only [Tables.declare, Class.varTables, Class.scope, Class.size, Class.varTable,
      Scope.foldl_mapClass]
  have hscope : c7.scope = Class.scope ⟨name, vars, subroutines⟩ c.scope :=
    congrArg Tables.scope hvarTables
  have hlabels : c7.labels = c.labels := hfront.labels
  have hclassSize : c7.tables.classSize.getD 0 = Class.size ⟨name, vars, subroutines⟩ := by
    simp [hvarTables, Tables.classSize, Class.varTables, Class.scope]
  rw [hscope, hlabels] at hresolved
  rw [hscope, hlabels, hclassSize, hvarTables] at hbodies
  have hmade := (hfront.trans hbodies).yields (hright.trans hclosing)
  refine ⟨⟨name, vars, subroutines⟩, c10, hresolved, ?_, ?_⟩
  · simpa [Class.marks, Class.code, Class.placed, Class.labels, Class.tables, Tree.enclose]
      using hmade
  · cases hclose
    rfl

end Compile
end Jack
