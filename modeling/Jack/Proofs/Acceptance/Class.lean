import Jack.Proofs.Acceptance.Declarations

/-!
# Classes that are bound to be compiled

A class whose names can be looked up is accepted up to its last brace.  That brace is the
last token of the source, and the scanner stays at it.
-/

namespace Jack
namespace Compile

open Syntax

section

variable {t : Tables} {label : Nat} {follow : List Token}

/-!
# Subroutines
-/

theorem admits_parameter (p : Parameter) (h : t.scope.Keeps .argument) :
    Admits t label parameter () (p.tokens.map .leaf) [] 0 (t.mapTable .argument p.file)
      follow := by
  have hfile : CanFile t (.stored .argument) := h
  unfold parameter
  refine (accepts_takeType p.type).admits.read ?_ rfl
  exact (admits_declare p.name (some p.type.word) hfile).result fun _ => ()

/-- More parameters, each behind a comma. -/
theorem declares_parameters :
    Declares (atSymbol .comma)
      (do
        takeSymbol .comma
        parameter)
      (fun _ => ()) (fun p => (.symbol .comma :: p.tokens).map .leaf)
      (fun t (p : Parameter) => t.mapTable .argument p.file)
      (fun t => t.scope.Keeps .argument) := by
  constructor
  · intro p
    exact Nat.zero_lt_succ _
  · intro t label p behind
    exact (accepts_atSymbol_true rfl).admits
  · intro t label p behind h
    exact (accepts_takeSymbol .comma).admits.read (admits_parameter p h) rfl
  · intro t p h
    exact h.mapTable _

theorem admits_moreParameters (parameters : List Parameter) (h : t.scope.Keeps .argument) :
    Admits t label
      (repeatWhile (atSymbol .comma) (do
        takeSymbol .comma
        parameter))
      (parameters.map fun _ => ())
      ((parameters.flatMap fun p => .symbol .comma :: p.tokens).map .leaf) [] 0
      (t.mapTable .argument fun table => parameters.foldl (fun table p => p.file table) table)
      (.symbol .rightParen :: follow) := by
  have hcomma : forall t : Tables, Admits t label (atSymbol .comma) false [] [] 0 t
      (.symbol .rightParen :: follow) := by
    intro t
    exact (accepts_atSymbol_false (by simp)).admits
  rw [List.map_flatMap, ← Tables.foldl_mapLocals (Or.inr rfl)]
  exact (declares_parameters.repeats hcomma parameters h).admits

theorem head_type (type : TypeName) (sign : Symbol) : type.token ≠ .symbol sign := by
  cases type <;> simp [TypeName.token]

theorem admits_parameterList (parameters : List Parameter) (h : t.scope.Keeps .argument) :
    Admits t label parameterList parameters.length (Parameter.listMarks parameters) [] 0
      (t.mapTable .argument fun table => parameters.foldl (fun table p => p.file table) table)
      (.symbol .rightParen :: follow) := by
  unfold parameterList
  simp only [pure_bind]
  cases parameters with
  | nil =>
      refine (accepts_enter .parameterList).admits.read ?_ rfl
      refine (accepts_atSymbol_true rfl).admits.read ?_ rfl
      refine (admits_moreParameters [] h).read ?_ rfl
      exact (accepts_leave .parameterList).admits.result fun _ => 0
  | cons first others =>
      have hmarks : Parameter.listMarks (first :: others) =
          [Tree.Mark.opening .parameterList] ++ (first.tokens.map Tree.Mark.leaf ++
            ((others.flatMap fun p => .symbol .comma :: p.tokens).map Tree.Mark.leaf ++
              [Tree.Mark.closing .parameterList])) := by
        simp [Parameter.listMarks, Parameter.listTokens, Tree.enclose]
      rw [hmarks]
      refine (accepts_enter .parameterList).admits.read ?_ rfl
      refine (accepts_atSymbol_false ?_).admits.read ?_ rfl
      · simpa [Parameter.tokens, Tree.leaves] using head_type first.type .rightParen
      refine (admits_parameter first h).read ?_ rfl
      have hmore : Admits (t.mapTable .argument first.file) label _ _ _ _ _ _
          (.symbol .rightParen :: follow) :=
        admits_moreParameters others (keeps_mapTable h first.file)
      rw [Tables.mapTable_mapTable] at hmore
      have hlength : (first :: others).length = 1 + (others.map fun _ => ()).length := by
        rw [List.length_map, List.length_cons, Nat.add_comm]
      rw [hlength]
      refine hmore.read ?_ rfl
      exact (accepts_leave .parameterList).admits.result fun _ => _

theorem admits_classSize {size : Nat} (h : t.classSize = some size) :
    Admits t label classSize size [] [] 0 t follow := by
  intro _ c hprepared
  have hmakes := (Compiler.Yields.refl c).makes
  rw [hprepared.tables] at hmakes
  refine ⟨c, ?_, hmakes⟩
  have hsize : c.className.bind c.sizes.get? = some size := by
    rw [← hprepared.tables] at h
    exact h
  rw [Scope.run_classSize, hsize]

theorem admits_prologue (type : Option String) {size : Nat} (h : t.classSize = some size) :
    Admits t label (prologue type) () [] (prologueCode size type) 0 t follow := by
  unfold prologue prologueCode
  split
  · exact (admits_classSize h).read (accepts_emitAll _).admits rfl
  · split
    · exact (accepts_emitAll _).admits
    · exact admits_pure ()

theorem declares_vars :
    Declares (atKeyword [.var]) varDec (fun v => v.names.all.length) LocalVar.marks
      (fun t (v : LocalVar) => t.mapTable .var v.file) (fun t => t.scope.Keeps .var) := by
  constructor
  · intro v
    rw [LocalVar.leaves_marks]
    exact Nat.zero_lt_succ _
  · intro t label v behind
    refine (accepts_atKeyword_true List.mem_cons_self ?_).admits
    rw [LocalVar.leaves_marks]
    rfl
  · intro t label v behind h
    exact admits_varDec v h
  · intro t v h
    exact h.mapTable _

/-- Behind the variables of a body stands no further one. -/
theorem head_block (block : Block) (follow : List Token) :
    (block.tokens ++ .symbol .rightBrace :: follow).head? ≠ some (.keyword .var) := by
  cases block with
  | nil => simp [Block.tokens]
  | cons first rest => cases first <;> simp [Block.tokens, Statement.tokens]

theorem admits_body {name : String} {size : Nat} {t' : Tables} {body : Body}
    (hvars : t.scope.Keeps .var)
    (ht' : t' = t.mapTable .var
      (fun table => body.vars.foldl (fun table v => v.file table) table))
    (hname : t.subroutineName = some name)
    (hentry : exists e, t'.scope.entry name = some (some e))
    (hsize : t'.classSize = some size)
    (hresolved : body.block.Resolved t'.scope) :
    Admits t label subroutineBody () body.marks (body.code t'.scope name size label)
      body.block.labels t' follow := by
  rcases hentry with ⟨e, hentry⟩
  have hends : forall t : Tables, Admits t label (atKeyword [.var]) false [] [] 0 t
      (Tree.leaves (body.block.marks ++
        [Tree.Mark.leaf (.symbol .rightBrace), .closing .subroutineBody]) ++ follow) := by
    intro t
    refine (accepts_atKeyword_false ?_).admits
    intro word hword
    rw [List.mem_singleton.mp hword]
    simpa [Block.marks, Tree.leaves] using head_block body.block follow
  have hdeclared := (declares_vars.repeats hends body.vars hvars).admits
  rw [Tables.foldl_mapLocals (Or.inl rfl), ← ht'] at hdeclared
  have hend : Admits t' (label + body.block.labels)
      (do
        takeSymbol .rightBrace
        leave .subroutineBody)
      () [.leaf (.symbol .rightBrace), .closing .subroutineBody] [] 0 t' follow :=
    (accepts_takeSymbol .rightBrace).admits.read (accepts_leave .subroutineBody).admits rfl
  have hblock : Admits t' label statements () body.block.marks
      (body.block.code t'.scope label) body.block.labels t' (.symbol .rightBrace :: follow) :=
    (accepts_block hresolved (endsBlock_symbol _ _)).admits
  have hstatements : Admits t' label
      (do
        statements
        takeSymbol .rightBrace
        leave .subroutineBody)
      () _ _ _ t' follow :=
    hblock.bind hend
  have hmarks : body.marks =
      [Tree.Mark.opening .subroutineBody] ++ ([Tree.Mark.leaf (.symbol .leftBrace)] ++
        (body.vars.flatMap LocalVar.marks ++ (body.block.marks ++
          [Tree.Mark.leaf (.symbol .rightBrace), .closing .subroutineBody]))) := by
    simp [Body.marks, Tree.enclose]
  rw [List.append_nil, Nat.add_zero] at hstatements
  rw [hmarks]
  unfold subroutineBody Body.code
  refine (accepts_enter .subroutineBody).admits.read ?_ rfl
  refine (accepts_takeSymbol .leftBrace).admits.read ?_ rfl
  refine hdeclared.read ?_ rfl
  apply admits_get
  intro c hc
  have hclassName : c.className = t'.scope.className := congrArg (fun t => t.scope.className) hc
  have hsubroutine : c.subroutineName = some name := by
    have hsame : c.subroutineName = t'.subroutineName := congrArg Tables.subroutineName hc
    rw [hsame, ht']
    exact hname
  rw [hclassName, hsubroutine]
  refine Admits.write (accepts_emit _).admits ?_
  refine (accepts_answer (Scope.asks_entry _) hentry).admits.read ?_ rfl
  refine (accepts_answer (Scope.asks_typeOf _) rfl).admits.read ?_ rfl
  rw [hentry]
  exact Admits.write (admits_prologue _ hsize) hstatements

theorem accepts_takeReturnType {σ : Scope} (result : Option TypeName) :
    Accepts σ label takeReturnType ()
      [.leaf ((result.map TypeName.token).getD (.keyword .void))] [] 0 follow := by
  unfold takeReturnType
  cases result with
  | none =>
      refine Accepts.look (accepts_atKeyword_true List.mem_cons_self rfl) ?_
      exact (accepts_takeKeyword List.mem_cons_self).result fun _ => ()
  | some type =>
      refine Accepts.look (accepts_atKeyword_false ?_) ?_
      · intro word hword
        rw [List.mem_singleton.mp hword]
        cases type <;> simp [TypeName.token, Tree.leaves]
      · exact (accepts_takeType type).result fun _ => ()

theorem keyword_mem_subroutineWords (kind : SubroutineKind) : kind.keyword ∈ subroutineWords := by
  cases kind <;> decide

/-- A subroutine from its parameters on. -/
theorem admits_parametersAndBody {size : Nat} (s : Subroutine) (hclass : t.scope.HasClass)
    (hsize : t.classSize = some size)
    (hresolved : s.body.block.Resolved (t.scope.enter s)) :
    Admits (t.head s) label
      (do
        takeSymbol .leftParen
        let _ ← parameterList
        takeSymbol .rightParen
        subroutineBody
        leave .subroutineDec)
      ()
      ([Tree.Mark.leaf (.symbol .leftParen)] ++ (Parameter.listMarks s.parameters ++
        ([Tree.Mark.leaf (.symbol .rightParen)] ++
          (s.body.marks ++ [Tree.Mark.closing .subroutineDec]))))
      (s.code (t.scope.enter s) size label) s.body.block.labels (t.enter s) follow := by
  have hbody : Admits
      ((t.head s).mapTable .argument fun table =>
        s.parameters.foldl (fun table p => p.file table) table)
      label subroutineBody () s.body.marks
      (s.code (t.scope.enter s) size label) s.body.block.labels (t.enter s) follow := by
    apply admits_body ?_ (t.enter_eq s) ?_ (Scope.exists_entry_enter hclass s) hsize hresolved
    · rfl
    · rfl
  have hleave : Admits (t.enter s) (label + s.body.block.labels) (leave .subroutineDec) ()
      [.closing .subroutineDec] [] 0 (t.enter s) follow :=
    (accepts_leave .subroutineDec).admits
  have hend : Admits _ label
      (do
        subroutineBody
        leave .subroutineDec)
      () _ _ _ (t.enter s) follow :=
    hbody.bind hleave
  rw [List.append_nil, Nat.add_zero] at hend
  have hkeeps : (t.head s).scope.Keeps .argument := rfl
  refine (accepts_takeSymbol .leftParen).admits.read ?_ rfl
  refine (admits_parameterList s.parameters hkeeps).read ?_ rfl
  exact (accepts_takeSymbol .rightParen).admits.read hend rfl

/-- A subroutine whose names can be looked up. -/
theorem admits_subroutine {size : Nat} (s : Subroutine) (hclass : t.scope.HasClass)
    (hsize : t.classSize = some size)
    (hresolved : s.body.block.Resolved (t.scope.enter s)) :
    Admits t label subroutine () s.marks (s.code (t.scope.enter s) size label)
      s.body.block.labels (t.enter s) follow := by
  let blank : Tables := { t with scope := { t.scope with locals := some {} } }
  let named : Tables := blank.declare .subroutine s.name (some s.kind.keyword.word)
  have hnamed : forall behind, Admits blank label
      (declare .subroutine (some s.kind.keyword.word)) s.name [.leaf (.identifier s.name)] [] 0
      named behind := by
    intro behind
    have hfile : CanFile blank .subroutine := hclass
    exact admits_declare s.name _ hfile
  have hhead : (named.mapTable .argument fun table =>
      if s.kind.keyword = .method then table.reserveArgument else table) = t.head s := rfl
  have hend : Admits (t.head s) label _ () _ _ _ _ follow :=
    admits_parametersAndBody s hclass hsize hresolved
  have hmarks : s.marks =
      [Tree.Mark.opening .subroutineDec] ++ ([Tree.Mark.leaf (.keyword s.kind.keyword)] ++
        ([Tree.Mark.leaf s.resultToken] ++ ([Tree.Mark.leaf (.identifier s.name)] ++
          ([Tree.Mark.leaf (.symbol .leftParen)] ++ (Parameter.listMarks s.parameters ++
            ([Tree.Mark.leaf (.symbol .rightParen)] ++
              (s.body.marks ++ [Tree.Mark.closing .subroutineDec]))))))) := by
    simp [Subroutine.marks, Tree.enclose]
  rw [hmarks]
  unfold subroutine
  refine (accepts_enter .subroutineDec).admits.read ?_ rfl
  refine admits_openLocals.read ?_ rfl
  refine (accepts_currentKeyword rfl).admits.read ?_ rfl
  refine (accepts_takeKeyword (keyword_mem_subroutineWords s.kind)).admits.read ?_ rfl
  refine (accepts_takeReturnType s.result).admits.read ?_ rfl
  refine (hnamed _).read ?_ rfl
  simp only
  split
  · next hmethod =>
      simp only [hmethod, if_true] at hhead
      rw [← hhead] at hend
      exact admits_reserveObject.read hend rfl
  · next hmethod =>
      simp only [hmethod, if_false] at hhead
      rw [Tables.mapTable_id (Or.inr rfl)] at hhead
      rw [hhead]
      exact hend

/-!
# Classes
-/

theorem declares_classVars :
    Declares (atKeyword [.static, .field]) classVarDec (fun v => v.names.all.length)
      ClassVar.marks (fun t (v : ClassVar) => t.mapTable v.storage v.file)
      (fun t => t.scope.HasClass) := by
  constructor
  · intro v
    rw [ClassVar.leaves_marks]
    exact Nat.zero_lt_succ _
  · intro t label v behind
    rw [ClassVar.leaves_marks]
    cases hstatic : v.isStatic with
    | true =>
        have hhead : (v.tokens ++ behind).head? = some (.keyword .static) := by
          simp [ClassVar.tokens, hstatic]
        exact (accepts_atKeyword_true List.mem_cons_self hhead).admits
    | false =>
        have hhead : (v.tokens ++ behind).head? = some (.keyword .field) := by
          simp [ClassVar.tokens, hstatic]
        exact (accepts_atKeyword_true (List.mem_cons_of_mem _ List.mem_cons_self) hhead).admits
  · intro t label v behind h
    exact admits_classVarDec v h
  · intro t v h
    rw [v.mapTable_storage]
    exact h.mapClass _

/-- Subroutines one behind the other, up to the last brace of the class. -/
theorem repeats_subroutines {size : Nat} (subroutines : List Subroutine)
    (hclass : t.scope.HasClass) (hsize : t.classSize = some size)
    (hresolved : forall p, p ∈ placeAll t.scope label subroutines ->
      p.subroutine.body.block.Resolved p.scope) :
    Repeats (atKeyword subroutineWords) subroutine t label (subroutines.map fun _ => ())
      (subroutines.flatMap Subroutine.marks)
      ((placeAll t.scope label subroutines).flatMap (Placed.code size))
      (total (subroutines.map fun s => s.body.block.labels))
      (subroutines.foldl Tables.enter t) [.symbol .rightBrace] := by
  induction subroutines generalizing t label with
  | nil =>
      refine Repeats.nil (accepts_atKeyword_false ?_).admits
      intro word _
      simp
  | cons s rest ih =>
      rw [placeAll, List.forall_mem_cons] at hresolved
      have happlies : Admits t label (atKeyword subroutineWords) true [] [] 0 t
          (Tree.leaves (s.marks ++ rest.flatMap Subroutine.marks) ++
            [Token.symbol .rightBrace]) := by
        refine (accepts_atKeyword_true (keyword_mem_subroutineWords s.kind) ?_).admits
        rw [Tree.leaves_append, Subroutine.leaves_marks]
        rfl
      have hleaf : 0 < (Tree.leaves s.marks).length := by
        rw [Subroutine.leaves_marks]
        exact Nat.zero_lt_succ _
      have hrest := ih (t := t.enter s) (hclass.enter s) hsize hresolved.2
      exact Repeats.cons happlies hleaf (admits_subroutine s hclass hsize hresolved.1) hrest

/-- The marks of a class up to its last brace. -/
def frontMarks (unit : Syntax.Class) : List Tree.Mark :=
  [.opening .«class»] ++ ([.leaf (.keyword .«class»)] ++ ([.leaf (.identifier unit.name)] ++
    ([.leaf (.symbol .leftBrace)] ++ (unit.vars.flatMap ClassVar.marks ++
      unit.subroutines.flatMap Subroutine.marks))))

theorem marks_eq_front (unit : Syntax.Class) :
    unit.marks = frontMarks unit ++ [.leaf (.symbol .rightBrace), .closing .«class»] := by
  simp [Class.marks, frontMarks, Tree.enclose]

theorem admits_classFront (unit : Syntax.Class) (hresolved : unit.Resolved t.scope label) :
    Admits t label classFront () (frontMarks unit) (unit.code t.scope label) unit.labels
      (unit.tables t) [.symbol .rightBrace] := by
  let named : Tables := t.declare .className unit.name none
  let opened : Tables :=
    { named with scope := { named.scope with classes := named.scope.classes.set unit.name {} } }
  have hopened : opened.scope.HasClass :=
    ⟨unit.name, {}, rfl, Bindings.get?_set_self _ _ _⟩
  have hends : forall t : Tables, Admits t label (atKeyword [.static, .field]) false [] [] 0 t
      (Tree.leaves (unit.subroutines.flatMap Subroutine.marks) ++ [.symbol .rightBrace]) := by
    intro t
    refine (accepts_atKeyword_false ?_).admits
    intro word hword
    cases unit.subroutines with
    | nil => simp [Tree.leaves]
    | cons s rest =>
        simp only [List.mem_cons, List.not_mem_nil, or_false] at hword
        rcases hword with rfl | rfl <;>
          cases hkind : s.kind <;>
            simp [Subroutine.tokens, SubroutineKind.keyword, hkind]
  have hvars := (declares_classVars.repeats hends unit.vars hopened).admits
  have hfiled : unit.vars.foldl (fun t v => t.mapTable v.storage v.file) opened =
      { opened with scope := unit.scope t.scope } := by
    rw [foldl_classVars]
    simp only [opened, named, Tables.declare, Class.scope, Class.varTable, Scope.foldl_mapClass]
  rw [hfiled] at hvars
  have hclassSize : (unit.varTables t).classSize = some unit.size :=
    Bindings.get?_set_self _ _ _
  have hsubroutines : Admits (unit.varTables t) label
      (repeatWhile (atKeyword subroutineWords) subroutine) _ _ (unit.code t.scope label)
      unit.labels (unit.tables t) [.symbol .rightBrace] :=
    (repeats_subroutines unit.subroutines (unit.hasClass_scope t.scope) hclassSize
      hresolved).admits
  unfold classFront frontMarks
  refine (accepts_enter .«class»).admits.read ?_ rfl
  refine (accepts_takeKeyword List.mem_cons_self).admits.read ?_ rfl
  have hfile : CanFile t .className := trivial
  refine (admits_declare unit.name none hfile).read ?_ rfl
  refine (admits_openClass unit.name).read ?_ rfl
  refine (accepts_takeSymbol .leftBrace).admits.read ?_ rfl
  refine hvars.read ?_ rfl
  refine (admits_setSize unit.name _).read ?_ rfl
  exact hsubroutines.result fun _ => ()

end

end Compile

/-!
# Sources
-/

theorem Scanner.Shows.takes_last {s : Scanner} {token : Token} (h : s.Shows [token]) :
    s.Takes [token] s := by
  rcases h with ⟨first, rest, hsplit, hcurrent, htokens⟩
  cases hsplit
  refine Scanner.takes_singleton_iff.mpr ⟨hcurrent, ?_⟩
  unfold Scanner.Moves
  rw [if_neg (by simp [Scanner.hasNext, Scanner.next_of_tokens_nil htokens])]

namespace Compile

/-- A class whose names can be looked up is compiled. -/
theorem exists_run_classUnit {c : Compiler} {unit : Syntax.Class} (hopen : c.treeOpen = true)
    (hshows : c.scanner.Shows unit.tokens) (hresolved : unit.Resolved c.scope c.labels) :
    exists d, classUnit.run c = .ok () { d with treeOpen := false } ∧
      c.Makes unit.marks (unit.code c.scope c.labels) unit.labels (unit.tables c.tables) d := by
  have hprepared : c.Prepared c.tables c.labels
      (Tree.leaves (frontMarks unit) ++ [.symbol .rightBrace]) := by
    refine ⟨hopen, rfl, rfl, ?_⟩
    rw [← unit.leaves_marks, marks_eq_front, Tree.leaves_append] at hshows
    exact hshows
  have hbrace : [Token.symbol .rightBrace] ≠ [] := List.cons_ne_nil _ _
  rcases admits_classFront unit hresolved hbrace c hprepared with ⟨c1, hfront, hmakes⟩
  have hlast := hmakes.prepared hprepared hbrace
  let c2 := c1.extend c1.scanner [.leaf (.symbol .rightBrace)] [] 0
  let c3 := c2.extend c2.scanner [.closing .«class»] [] 0
  have hleaf : c1.Yields [.leaf (.symbol .rightBrace)] [] 0 c2 :=
    ⟨c1.scanner, hlast.shows.takes_last, rfl⟩
  have hclosing : c2.Yields [.closing .«class»] [] 0 c3 := ⟨c2.scanner, .nil _, rfl⟩
  have hopen2 : c2.treeOpen = true := hlast.treeOpen
  refine ⟨c3, ?_, ?_⟩
  · have htree : classTree.run c = .ok () c3 := by
      unfold classTree
      rw [run_bind_of_ok hfront,
        run_bind_of_ok (run_takeSymbol_eq_ok_iff.mpr ⟨hlast.treeOpen, hleaf⟩)]
      exact run_leave_eq_ok_iff.mpr ⟨hopen2, hclosing⟩
    rw [classUnit_eq, run_bind_of_ok htree]
    rfl
  · rw [marks_eq_front]
    simpa using hmakes.yields (hleaf.trans hclosing)

end Compile
end Jack
