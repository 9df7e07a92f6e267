import Jack.Proofs.Acceptance.Statement
import Jack.Proofs.Resolution

/-!
# Declarations that are bound to be compiled

Declarations are accepted like statements, but they change the tables, so a step comes
with the tables before and behind it.  Declarations of one kind are read one after the
other as long as one begins at the current token.
-/

namespace Jack

namespace Compiler

/-- The compiler can write, its tables and its next label are given, and it is about to
read the tokens. -/
structure Prepared (c : Compiler) (t : Tables) (label : Nat) (tokens : List Token) : Prop where
  treeOpen : c.treeOpen = true
  tables : c.tables = t
  labels : c.labels = label
  shows : c.scanner.Shows tokens

theorem Prepared.ready {c : Compiler} {t : Tables} {label : Nat} {tokens : List Token}
    (h : c.Prepared t label tokens) : c.Ready t.scope label tokens :=
  ⟨h.treeOpen, congrArg Tables.scope h.tables, h.labels, h.shows⟩

theorem Makes.prepared {c c' : Compiler} {t t' : Tables} {label labels : Nat}
    {marks : List Tree.Mark} {code : List Instr} {follow : List Token}
    (h : c.Makes marks code labels t' c')
    (hprepared : c.Prepared t label (Tree.leaves marks ++ follow)) (hfollow : follow ≠ []) :
    c'.Prepared t' (label + labels) follow := by
  constructor
  · rw [h.treeOpen]
    exact hprepared.treeOpen
  · exact h.tables
  · rw [h.labels, hprepared.labels]
  · exact h.takes.shows hprepared.shows hfollow

end Compiler

namespace Compile

open Syntax

/-!
# Steps that change tables
-/

/-- Where the leaves of the marks stand ahead, and other tokens behind them, the step
succeeds with a result.  It adds marks, code and labels, and it changes the tables. -/
def Admits (t : Tables) (label : Nat) (step : CompileM α) (a : α) (marks : List Tree.Mark)
    (code : List Instr) (labels : Nat) (t' : Tables) (follow : List Token) : Prop :=
  follow ≠ [] -> forall c : Compiler, c.Prepared t label (Tree.leaves marks ++ follow) ->
    exists c', step.run c = .ok a c' ∧ c.Makes marks code labels t' c'

section

variable {t t' t'' : Tables} {label labels labels' : Nat} {follow : List Token}
  {marks marks' : List Tree.Mark} {code code' : List Instr}
  {first : CompileM α} {second : α -> CompileM β} {a : α} {b : β}

theorem Accepts.admits (h : Accepts t.scope label first a marks code labels follow) :
    Admits t label first a marks code labels t follow := by
  intro hfollow c hprepared
  rcases h hfollow c hprepared.ready with ⟨c', hrun, hyields⟩
  have hmakes := hyields.makes
  rw [hprepared.tables] at hmakes
  exact ⟨c', hrun, hmakes⟩

theorem Admits.bind
    (hfirst : Admits t label first a marks code labels t' (Tree.leaves marks' ++ follow))
    (hsecond : Admits t' (label + labels) (second a) b marks' code' labels' t'' follow) :
    Admits t label (first >>= second) b (marks ++ marks') (code ++ code') (labels + labels')
      t'' follow := by
  intro hfollow c hprepared
  rw [Tree.leaves_append, List.append_assoc] at hprepared
  have hrest : Tree.leaves marks' ++ follow ≠ [] := List.append_ne_nil_of_right_ne_nil _ hfollow
  rcases hfirst hrest c hprepared with ⟨c1, hrun, hmakes⟩
  rcases hsecond hfollow c1 (hmakes.prepared hprepared hrest) with ⟨c2, hrun', hmakes'⟩
  refine ⟨c2, ?_, hmakes.trans hmakes'⟩
  rw [run_bind_of_ok hrun]
  exact hrun'

/-- The first step writes no code.  Behind it stand the leaves of what the second step
reads. -/
theorem Admits.read {behind : List Token} (hfirst : Admits t label first a marks [] 0 t' behind)
    (hsecond : Admits t' label (second a) b marks' code labels t'' follow)
    (hbehind : behind = Tree.leaves marks' ++ follow) :
    Admits t label (first >>= second) b (marks ++ marks') code labels t'' follow := by
  subst hbehind
  have h := hfirst.bind hsecond
  rwa [Nat.zero_add] at h

theorem admits_pure (a : α) : Admits t label (pure a) a [] [] 0 t follow :=
  (accepts_pure a).admits

theorem Admits.result (hfirst : Admits t label first a marks code labels t' follow)
    (f : α -> β) :
    Admits t label (first >>= fun x => pure (f x)) (f a) marks code labels t' follow := by
  intro hfollow c hprepared
  rcases hfirst hfollow c hprepared with ⟨c', hrun, hmakes⟩
  refine ⟨c', ?_, hmakes⟩
  rw [run_bind_of_ok hrun]
  rfl

/-- The first step writes code and nothing else. -/
theorem Admits.write (hfirst : Admits t label first a [] code 0 t (Tree.leaves marks ++ follow))
    (hsecond : Admits t label (second a) b marks code' labels t' follow) :
    Admits t label (first >>= second) b marks (code ++ code') labels t' follow := by
  have h := hfirst.bind hsecond
  rwa [Nat.zero_add] at h

/-- Of the compiler at hand only the tables are known. -/
theorem admits_get {next : Compiler -> CompileM β}
    (h : forall c : Compiler, c.tables = t ->
      Admits t label (next c) b marks code labels t' follow) :
    Admits t label (get >>= next) b marks code labels t' follow := by
  intro hfollow c hprepared
  rw [run_bind_of_ok (EStateM.run_get c)]
  exact h c hprepared.tables hfollow c hprepared

/-- The step does nothing but to change the tables. -/
theorem admits_tables
    (h : forall c : Compiler, c.tables = t -> first.run c = .ok a (c.withTables t')) :
    Admits t label first a [] [] 0 t' follow := by
  intro _ c hprepared
  exact ⟨_, h c hprepared.tables, Compiler.makes_withTables c t'⟩

end

/-!
# Repetition
-/

/-- A step that is repeated as long as it applies, with the results of all its runs. -/
inductive Repeats (applies : CompileM Bool) (step : CompileM α) :
    Tables -> Nat -> List α -> List Tree.Mark -> List Instr -> Nat -> Tables -> List Token ->
      Prop where
  | nil {t : Tables} {label : Nat} {follow : List Token} :
      Admits t label applies false [] [] 0 t follow ->
      Repeats applies step t label [] [] [] 0 t follow
  | cons {t t' t'' : Tables} {label labels labels' : Nat} {a : α} {results : List α}
      {marks marks' : List Tree.Mark} {code code' : List Instr} {follow : List Token} :
      Admits t label applies true [] [] 0 t (Tree.leaves (marks ++ marks') ++ follow) ->
      0 < (Tree.leaves marks).length ->
      Admits t label step a marks code labels t' (Tree.leaves marks' ++ follow) ->
      Repeats applies step t' (label + labels) results marks' code' labels' t'' follow ->
      Repeats applies step t label (a :: results) (marks ++ marks') (code ++ code')
        (labels + labels') t'' follow

section

variable {applies : CompileM Bool} {step : CompileM α} {t t' : Tables} {label labels : Nat}
  {results : List α} {marks : List Tree.Mark} {code : List Instr} {follow : List Token}

theorem Repeats.length_le (h : Repeats applies step t label results marks code labels t' follow) :
    results.length ≤ (Tree.leaves marks).length := by
  induction h with
  | nil _ => exact Nat.le_refl 0
  | cons _ hleaf _ _ ih =>
      rw [Tree.leaves_append, List.length_append, List.length_cons]
      omega

theorem Repeats.admits_within
    (h : Repeats applies step t label results marks code labels t' follow) {n : Nat}
    (hn : results.length < n) :
    Admits t label (repeatWithin applies step n) results marks code labels t' follow := by
  induction h generalizing n with
  | nil happlies =>
      rcases Nat.exists_eq_add_of_lt hn with ⟨m, rfl⟩
      unfold repeatWithin
      exact happlies.read (admits_pure []) rfl
  | cons happlies _ hstep _ ih =>
      rcases Nat.exists_eq_add_of_lt (Nat.zero_lt_of_lt hn) with ⟨m, rfl⟩
      rw [List.length_cons] at hn
      unfold repeatWithin
      refine happlies.read ?_ rfl
      exact hstep.bind ((ih (by omega)).result _)

theorem Repeats.admits
    (h : Repeats applies step t label results marks code labels t' follow) :
    Admits t label (repeatWhile applies step) results marks code labels t' follow := by
  intro hfollow c hprepared
  have hle := h.length_le
  have hlength := hprepared.shows.length_le
  rw [List.length_append] at hlength
  have hbound : results.length < 4 * (c.scanner.rest.length + 4) := by omega
  rcases h.admits_within hbound hfollow c hprepared with ⟨c', hrun, hmakes⟩
  refine ⟨c', ?_, hmakes⟩
  unfold repeatWhile
  rw [run_bind_of_ok (run_bound c)]
  exact hrun

end

/-- Declarations of one form.  Each of them keeps the tables fit for the next one. -/
structure Declares (applies : CompileM Bool) (step : CompileM α) (value : ι -> α)
    (marks : ι -> List Tree.Mark) (next : Tables -> ι -> Tables) (Fit : Tables -> Prop) :
    Prop where
  leaf : forall item, 0 < (Tree.leaves (marks item)).length
  applies : forall t label item behind,
    Admits t label applies true [] [] 0 t (Tree.leaves (marks item) ++ behind)
  step : forall t label item behind, Fit t ->
    Admits t label step (value item) (marks item) [] 0 (next t item) behind
  fit : forall t item, Fit t -> Fit (next t item)

theorem Declares.repeats {applies : CompileM Bool} {step : CompileM α} {value : ι -> α}
    {marks : ι -> List Tree.Mark} {next : Tables -> ι -> Tables} {Fit : Tables -> Prop}
    (h : Declares applies step value marks next Fit) {follow : List Token} {label : Nat}
    (hends : forall t, Admits t label applies false [] [] 0 t follow)
    (items : List ι) {t : Tables} (ht : Fit t) :
    Repeats applies step t label (items.map value) (items.flatMap marks) [] 0
      (items.foldl next t) follow := by
  induction items generalizing t with
  | nil => exact Repeats.nil (hends t)
  | cons item rest ih =>
      have happlies : Admits t label applies true [] [] 0 t
          (Tree.leaves (marks item ++ rest.flatMap marks) ++ follow) := by
        rw [Tree.leaves_append, List.append_assoc]
        exact h.applies t label item _
      have hcons := Repeats.cons happlies (h.leaf item) (h.step t label item _ ht)
        (ih (h.fit t item ht))
      exact hcons

/-!
# Declarations
-/

section

variable {t : Tables} {label : Nat} {follow : List Token}

theorem accepts_takeType {σ : Scope} (type : TypeName) :
    Accepts σ label takeType type.word [.leaf type.token] [] 0 follow := by
  intro hfollow c hready
  rcases hready.exists_leaf hfollow with ⟨c', hyields⟩
  exact ⟨c', run_takeType_eq_ok_iff.mpr ⟨type, rfl, hready.treeOpen, hyields⟩, hyields⟩

theorem accepts_currentKeyword {σ : Scope} {word : Keyword}
    (h : follow.head? = some (.keyword word)) :
    Accepts σ label currentKeyword word [] [] 0 follow := by
  intro _ c hready
  have hcurrent : c.scanner.current = follow.head? := hready.shows.current
  refine ⟨c, ?_, Compiler.Yields.refl c⟩
  have hkeyword : c.scanner.keyword = .ok word := by
    unfold Scanner.keyword
    rw [hcurrent, h]
  rw [run_currentKeyword, hkeyword]

theorem admits_openClass (name : String) :
    Admits t label (openClass name) () [] [] 0
      { t with scope := { t.scope with classes := t.scope.classes.set name {} } } follow := by
  apply admits_tables
  intro c hc
  subst hc
  rfl

theorem admits_setSize (name : String) (size : Nat) :
    Admits t label (setSize name size) () [] [] 0 { t with sizes := t.sizes.set name size }
      follow := by
  apply admits_tables
  intro c hc
  subst hc
  rfl

theorem admits_openLocals :
    Admits t label openLocals () [] [] 0 { t with scope := { t.scope with locals := some {} } }
      follow := by
  apply admits_tables
  intro c hc
  subst hc
  rfl

theorem admits_reserveObject :
    Admits t label reserveObject () [] [] 0
      (t.mapTable .argument fun table => table.reserveArgument) follow := by
  apply admits_tables
  intro c hc
  subst hc
  rfl

theorem admits_fileLocally {storage : Storage} (hstorage : storage = .var ∨ storage = .argument)
    (hkeeps : t.scope.Keeps storage) (e : Entry) :
    Admits t label (fileLocally e) () [] [] 0 (t.mapTable storage fun table => table.insert e)
      follow := by
  apply admits_tables
  intro c hc
  subst hc
  exact (run_fileLocally_eq_ok_iff hstorage).mpr ⟨hkeeps, rfl⟩

theorem admits_fileInClass (hclass : t.scope.HasClass) (e : Entry) :
    Admits t label (fileInClass e) () [] [] 0
      { t with scope := t.scope.mapClass fun table => table.insert e } follow := by
  apply admits_tables
  intro c hc
  subst hc
  exact run_fileInClass_eq_ok_iff.mpr ⟨hclass, rfl⟩

/-- There is a table that names of a category are filed in. -/
def CanFile (t : Tables) : Category -> Prop
  | .className => True
  | .subroutine => t.scope.HasClass
  | .stored storage => t.scope.Keeps storage

theorem admits_declare {category : Category} (name : String) (type : Option String)
    (h : CanFile t category) :
    Admits t label (declare category type) name [.leaf (.identifier name)] [] 0
      (t.declare category name type) follow := by
  unfold declare
  refine (accepts_takeIdentifier name).admits.read ?_ rfl
  cases category with
  | className =>
      have huse : Admits t label (useClass (some name)) () [] [] 0
          (t.declare .className name type) follow := by
        apply admits_tables
        intro c hc
        subst hc
        rfl
      exact huse.result fun _ => name
  | subroutine =>
      have huse : Admits t label (useSubroutine (some name)) () [] [] 0
          { t with subroutineName := some name } follow := by
        apply admits_tables
        intro c hc
        subst hc
        rfl
      have hfile : Admits { t with subroutineName := some name } label
          (fileInClass (entryOf .subroutine name type)) () [] [] 0
          (t.declare .subroutine name type) follow := by
        have hclass : ({ t with subroutineName := some name } : Tables).scope.HasClass := h
        exact admits_fileInClass hclass _
      exact huse.read (hfile.result fun _ => name) rfl
  | stored storage =>
      cases storage with
      | var => exact (admits_fileLocally (Or.inl rfl) h _).result fun _ => name
      | argument => exact (admits_fileLocally (Or.inr rfl) h _).result fun _ => name
      | static => exact (admits_fileInClass h _).result fun _ => name
      | field => exact (admits_fileInClass h _).result fun _ => name

theorem keeps_mapTable {storage : Storage} (h : t.scope.Keeps storage)
    (f : Table Entry -> Table Entry) : (t.mapTable storage f).scope.Keeps storage :=
  h.mapTable f

/-- More names of a type, each behind a comma. -/
theorem declares_names (storage : Storage) (type : String) :
    Declares (atSymbol .comma)
      (do
        takeSymbol .comma
        declare (.stored storage) (some type))
      (fun name => name) (fun name => [.leaf (.symbol .comma), .leaf (.identifier name)])
      (fun t name => t.declare (.stored storage) name (some type))
      (fun t => t.scope.Keeps storage) := by
  constructor
  · intro name
    exact Nat.zero_lt_succ _
  · intro t label name behind
    exact (accepts_atSymbol_true rfl).admits
  · intro t label name behind h
    exact (accepts_takeSymbol .comma).admits.read (admits_declare name (some type) h) rfl
  · intro t name h
    exact keeps_mapTable h _

theorem admits_declareNames {storage : Storage} (names : Names) (h : t.scope.Keeps storage) :
    Admits t label (declareNames (.stored storage)) names.all.length
      (names.tokens.map .leaf) [] 0 (t.mapTable storage (names.file storage)) follow := by
  have hcomma : forall t : Tables, Admits t label (atSymbol .comma) false [] [] 0 t
      (.symbol .semicolon :: follow) := by
    intro t
    exact (accepts_atSymbol_false (by simp)).admits
  have hkeeps : (t.declare (.stored storage) names.first (some names.type.word)).scope.Keeps
      storage := keeps_mapTable h _
  have hothers := ((declares_names storage names.type.word).repeats hcomma names.others
    hkeeps).admits
  have hmarks : names.tokens.map Tree.Mark.leaf =
      [Tree.Mark.leaf names.type.token] ++ ([Tree.Mark.leaf (.identifier names.first)] ++
        ((names.others.flatMap fun name =>
          [Tree.Mark.leaf (.symbol .comma), .leaf (.identifier name)]) ++
          [Tree.Mark.leaf (.symbol .semicolon)])) := by
    simp [Names.tokens, List.map_flatMap]
  have htables : names.others.foldl
      (fun t name => t.declare (.stored storage) name (some names.type.word))
      (t.declare (.stored storage) names.first (some names.type.word)) =
        t.mapTable storage (names.file storage) :=
    Tables.foldl_mapTable storage _ _ t _
  have hfile : CanFile t (.stored storage) := h
  rw [List.map_id', htables] at hothers
  rw [hmarks]
  unfold declareNames
  refine (accepts_takeType names.type).admits.read ?_ rfl
  refine (admits_declare names.first (some names.type.word) hfile).read ?_ rfl
  refine hothers.read ?_ rfl
  exact (accepts_takeSymbol .semicolon).admits.result fun _ => names.others.length + 1

theorem admits_classVarDec (v : ClassVar) (h : t.scope.HasClass) :
    Admits t label classVarDec v.names.all.length v.marks [] 0
      (t.mapTable v.storage v.file) follow := by
  have hmarks : v.marks = [Tree.Mark.opening .classVarDec] ++
      ([Tree.Mark.leaf (.keyword (if v.isStatic then .static else .field))] ++
        (v.names.tokens.map Tree.Mark.leaf ++ [Tree.Mark.closing .classVarDec])) := by
    simp [ClassVar.marks, ClassVar.tokens, Tree.enclose]
  have hnames : Admits t label (declareNames (.stored v.storage)) v.names.all.length
      (v.names.tokens.map .leaf) [] 0 (t.mapTable v.storage v.file) follow := by
    apply admits_declareNames
    unfold ClassVar.storage
    cases v.isStatic <;> exact h
  rw [hmarks]
  unfold classVarDec
  refine (accepts_enter .classVarDec).admits.read ?_ rfl
  refine (accepts_currentKeyword rfl).admits.read ?_ rfl
  refine (accepts_takeKeyword (by cases v.isStatic <;> simp)).admits.read ?_ rfl
  have hword : (if (if v.isStatic then Keyword.static else Keyword.field) = Keyword.static
      then Storage.static else Storage.field) = v.storage := by
    unfold ClassVar.storage
    cases v.isStatic <;> rfl
  simp only [hword]
  refine hnames.read ?_ rfl
  exact (accepts_leave .classVarDec).admits.result fun _ => v.names.all.length

theorem admits_varDec (v : LocalVar) (h : t.scope.Keeps .var) :
    Admits t label varDec v.names.all.length v.marks [] 0 (t.mapTable .var v.file) follow := by
  unfold varDec
  have hmarks : v.marks =
      [Tree.Mark.opening .varDec] ++ ([Tree.Mark.leaf (.keyword .var)] ++
        (v.names.tokens.map Tree.Mark.leaf ++ [Tree.Mark.closing .varDec])) := by
    simp [LocalVar.marks, LocalVar.tokens, Tree.enclose]
  rw [hmarks]
  refine (accepts_enter .varDec).admits.read ?_ rfl
  refine (accepts_takeKeyword (by simp)).admits.read ?_ rfl
  refine (admits_declareNames v.names h).read ?_ rfl
  exact (accepts_leave .varDec).admits.result fun _ => v.names.all.length

end

end Compile
end Jack
