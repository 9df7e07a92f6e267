import Jack.Proofs.Pairs.Routines
import Jack.Proofs.Sources

/-!
# Classes of a pair

A class is compiled alike whatever was compiled before.  Nothing that an earlier source has
left is read before it is set anew: the outputs and the depth are set where a source is taken
up, the class at hand where it is named, its table and its size before its subroutines, and
the subroutine at hand with its table where a subroutine begins.
-/

namespace Jack
namespace Pair

open Compile

section

variable {π : Pair} {className : String} {T T' : Tables -> Tables -> Prop} {t u : Tables}

/-!
# Declarations
-/

/-- The step changes the tables of both compilers in one way. -/
theorem paired_of_tables {step : CompileM α} {a : α} {f : Tables -> Tables}
    (hrun : forall c d, T c.tables d.tables ->
      step.run c = .ok a (c.withTables (f c.tables)) ∧
        step.run d = .ok a (d.withTables (f d.tables)))
    (htables : forall t u, T t u -> T' (f t) (f u)) : π.Paired T T' Eq step step := by
  intro c d h
  rcases hrun c d h.tables with ⟨hfirst, hsecond⟩
  rw [hfirst, hsecond]
  exact .ok rfl (h.withTables (htables _ _ h.tables))

theorem InClass.mapClass (h : π.InClass className t u) (g : Table Entry -> Table Entry) :
    π.InClass className { t with scope := t.scope.mapClass g }
      { u with scope := u.scope.mapClass g } := by
  rcases h.table with ⟨table, hfirst, hsecond⟩
  rw [Scope.mapClass_of_get h.firstName hfirst, Scope.mapClass_of_get h.secondName hsecond]
  have htable : exists own, (t.scope.classes.set className (g table)).get? className = some own ∧
      (u.scope.classes.set className (g table)).get? className = some own :=
    ⟨g table, Bindings.get?_set_self _ _ _, Bindings.get?_set_self _ _ _⟩
  have hothers : forall other, other ≠ className ->
      (t.scope.classes.set className (g table)).get? other = π.first.classes.get? other ∧
        (u.scope.classes.set className (g table)).get? other = π.second.classes.get? other := by
    intro other hne
    rw [Bindings.get?_set_of_ne _ _ hne, Bindings.get?_set_of_ne _ _ hne]
    exact h.others other hne
  exact { h with table := htable, others := hothers }

theorem InBody.mapClass (h : π.InBody className t u) (g : Table Entry -> Table Entry) :
    π.InBody className { t with scope := t.scope.mapClass g }
      { u with scope := u.scope.mapClass g } :=
  { toInClass := h.toInClass.mapClass g, size := h.size, locals := h.locals }

/-- An entry is filed in the table of the class, which both compilers have. -/
theorem same_fileInClass (hclass : forall t u, T t u -> π.InClass className t u)
    (hmap : forall t u (g : Table Entry -> Table Entry), T t u ->
      T { t with scope := t.scope.mapClass g } { u with scope := u.scope.mapClass g })
    (e : Entry) : π.Same T (fileInClass e) := by
  apply paired_of_tables (f := fun t =>
    { t with scope := t.scope.mapClass fun table => table.insert e })
  · intro c d h
    have hin := hclass _ _ h
    rcases hin.table with ⟨table, hfirst, hsecond⟩
    exact ⟨run_fileInClass_eq_ok_iff.mpr ⟨⟨className, table, hin.firstName, hfirst⟩, rfl⟩,
      run_fileInClass_eq_ok_iff.mpr ⟨⟨className, table, hin.secondName, hsecond⟩, rfl⟩⟩
  · intro t u h
    exact hmap t u _ h

theorem same_fileLocally (e : Entry) : π.Same (π.InBody className) (fileLocally e) := by
  intro c d h
  rw [run_fileLocally, run_fileLocally, show d.locals = c.locals from h.tables.locals]
  split
  · exact .ok rfl { h with tables := { h.tables with locals := rfl } }
  · exact .error h.toWroteSame

theorem same_declare_inClass {storage : Storage} (h : storage = .static ∨ storage = .field)
    (type : Option String) : π.Same (π.InClass className) (declare (.stored storage) type) := by
  have hfile : forall e, π.Same (π.InClass className) (fileInClass e) :=
    same_fileInClass (fun _ _ h => h) fun _ _ g h => h.mapClass g
  rcases h with rfl | rfl
  · exact same_takeIdentifier.bind fun name => (hfile _).bind fun _ => same_pure name
  · exact same_takeIdentifier.bind fun name => (hfile _).bind fun _ => same_pure name

theorem same_declare_inBody {storage : Storage} (h : storage = .var ∨ storage = .argument)
    (type : Option String) : π.Same (π.InBody className) (declare (.stored storage) type) := by
  rcases h with rfl | rfl
  · exact same_takeIdentifier.bind fun name => (same_fileLocally _).bind fun _ => same_pure name
  · exact same_takeIdentifier.bind fun name => (same_fileLocally _).bind fun _ => same_pure name

theorem same_useSubroutine (name : Option String) :
    π.Same (π.InBody className) (useSubroutine name) :=
  paired_of_tables (f := fun t => { t with subroutineName := name })
    (fun _ _ _ => ⟨rfl, rfl⟩) fun _ _ h => { h with subroutineName := rfl }

theorem same_declare_subroutine (type : Option String) :
    π.Same (π.InBody className) (declare .subroutine type) := by
  have hfile : forall e, π.Same (π.InBody className) (fileInClass e) :=
    same_fileInClass (fun _ _ h => h.toInClass) fun _ _ g h => h.mapClass g
  exact same_takeIdentifier.bind fun name => (same_useSubroutine _).bind fun _ =>
    (hfile _).bind fun _ => same_pure name

theorem same_declareNames {category : Category}
    (hdeclare : forall type, π.Same T (declare category type)) :
    π.Same T (declareNames category) := by
  apply same_takeType.bind
  intro type
  have hmore : π.Same T (takeSymbol .comma >>= fun _ => declare category (some type)) :=
    (same_takeSymbol _).bind fun _ => hdeclare _
  exact (hdeclare _).bind fun _ => (same_repeatWhile (same_atSymbol _) hmore).bind fun _ =>
    (same_takeSymbol _).bind fun _ => same_pure _

theorem same_classVarDec : π.Same (π.InClass className) classVarDec := by
  apply (same_enter _).bind
  intro _
  apply same_currentKeyword.bind
  intro _
  apply (same_takeKeyword _).bind
  intro word
  have hstorage : (if word = .static then Storage.static else Storage.field) = .static ∨
      (if word = .static then Storage.static else Storage.field) = .field := by
    split
    · exact Or.inl rfl
    · exact Or.inr rfl
  exact (same_declareNames (same_declare_inClass hstorage)).bind fun names =>
    (same_leave _).bind fun _ => same_pure names

theorem same_varDec : π.Same (π.InBody className) varDec :=
  (same_enter _).bind fun _ => (same_takeKeyword _).bind fun _ =>
    (same_declareNames (same_declare_inBody (Or.inl rfl))).bind fun names =>
      (same_leave _).bind fun _ => same_pure names

/-!
# Subroutines
-/

theorem same_parameter : π.Same (π.InBody className) parameter :=
  same_takeType.bind fun _ => (same_declare_inBody (Or.inr rfl) _).bind fun _ => same_pure ()

theorem same_parameterList : π.Same (π.InBody className) parameterList := by
  have hmore : π.Same (π.InBody className) (takeSymbol .comma >>= fun _ => parameter) :=
    (same_takeSymbol _).bind fun _ => same_parameter
  have hend : forall first : Nat, π.Same (π.InBody className)
      (repeatWhile (atSymbol .comma) (takeSymbol .comma >>= fun _ => parameter) >>= fun others =>
        leave .parameterList >>= fun _ => pure (first + others.length)) := by
    intro first
    exact (same_repeatWhile (same_atSymbol _) hmore).bind fun _ =>
      (same_leave _).bind fun _ => same_pure _
  apply (same_enter _).bind
  intro _
  apply (same_atSymbol .rightParen).bind
  intro isEmpty
  cases isEmpty with
  | true => exact hend 0
  | false => exact same_parameter.bind fun _ => hend 1

theorem same_prologue (type : Option String) : π.Same (π.InBody className) (prologue type) := by
  unfold prologue
  split
  · exact same_classSize.bind fun _ => same_emitAll rfl
  · split
    · exact same_emitAll rfl
    · exact same_pure ()

theorem same_subroutineBody : π.Same (π.InBody className) subroutineBody := by
  apply (same_enter _).bind
  intro _
  apply (same_takeSymbol _).bind
  intro _
  apply (same_repeatWhile (same_atKeyword _) same_varDec).bind
  intro vars
  apply paired_get.bind
  intro c d h
  have hclass : d.className = c.className := h.tables.secondName.trans h.tables.firstName.symm
  rw [hclass, show d.subroutineName = c.subroutineName from h.tables.subroutineName]
  have hheader : π.Same (π.InBody className)
      (emit (.function (qualified c.className c.subroutineName) (total vars))) :=
    paired_emit rfl
  exact hheader.bind fun _ => (same_entry _).bind fun e => (same_typeOf e).bind fun type =>
    (same_prologue type).bind fun _ => same_statements.bind fun _ =>
      (same_takeSymbol _).bind fun _ => same_leave _

theorem same_takeReturnType : π.Same T takeReturnType := by
  apply (same_atKeyword _).bind
  intro isVoid
  cases isVoid with
  | true => exact (same_takeKeyword _).bind fun _ => same_pure ()
  | false => exact same_takeType.bind fun _ => same_pure ()

/-- The table of the subroutine before is not looked at again. -/
theorem paired_openLocals :
    π.Paired (π.Sized className) (π.InBody className) Eq openLocals openLocals :=
  paired_of_tables (f := fun t => { t with scope := { t.scope with locals := some {} } })
    (fun _ _ _ => ⟨rfl, rfl⟩) fun _ _ h => { h with locals := rfl }

theorem same_reserveObject : π.Same (π.InBody className) reserveObject :=
  paired_of_tables
    (f := fun t =>
      { t with scope := { t.scope with locals := t.scope.locals.map Table.reserveArgument } })
    (fun _ _ _ => ⟨rfl, rfl⟩) fun _ _ h => { h with locals := congrArg (Option.map _) h.locals }

/-- Behind a subroutine its table is not spoken of any more. -/
theorem Same.leaveBody {step : CompileM α} (h : π.Same (π.InBody className) step) :
    π.Paired (π.InBody className) (π.Sized className) Eq step step :=
  Paired.mono h fun _ _ hbody => hbody.toSized

theorem same_subroutine : π.Same (π.Sized className) subroutine := by
  have hrest : π.Same (π.InBody className)
      (takeSymbol .leftParen >>= fun _ => parameterList >>= fun _ =>
        takeSymbol .rightParen >>= fun _ => subroutineBody >>= fun _ => leave .subroutineDec) :=
    (same_takeSymbol _).bind fun _ => same_parameterList.bind fun _ =>
      (same_takeSymbol _).bind fun _ => same_subroutineBody.bind fun _ => same_leave _
  apply (same_enter _).next
  intro _
  apply paired_openLocals.next
  intro _
  apply Same.leaveBody
  apply same_currentKeyword.bind
  intro _
  apply (same_takeKeyword _).bind
  intro word
  apply same_takeReturnType.bind
  intro _
  apply (same_declare_subroutine _).bind
  intro _
  show π.Same _ (if word = .method then _ else _)
  split
  · exact same_reserveObject.bind fun _ => hrest
  · exact hrest

/-!
# Classes
-/

/-- Where a source begins: the compilers have the tables of classes that they had before. -/
structure Fresh (π : Pair) (t u : Tables) : Prop where
  compatible : π.Compatible
  first : t.scope.classes = π.first.classes
  second : u.scope.classes = π.second.classes
  subroutineName : u.subroutineName = t.subroutineName

theorem paired_useClass (hown : π.own = some className) :
    π.Paired π.Fresh (π.InClass className) Eq
      (useClass (some className) >>= fun _ => openClass className)
      (useClass (some className) >>= fun _ => openClass className) := by
  apply paired_of_tables (f := fun t =>
    { t with
      scope := ⟨t.scope.locals, t.scope.classes.set className {}, some className⟩ })
  · intro c d _
    exact ⟨rfl, rfl⟩
  · intro t u h
    refine ⟨h.compatible, hown, rfl, rfl, h.subroutineName,
      ⟨{}, Bindings.get?_set_self _ _ _, Bindings.get?_set_self _ _ _⟩, ?_⟩
    intro other hne
    rw [Bindings.get?_set_of_ne _ _ hne, Bindings.get?_set_of_ne _ _ hne, h.first, h.second]
    exact ⟨rfl, rfl⟩

theorem paired_setSize (size : Nat) :
    π.Paired (π.InClass className) (π.Sized className) Eq (setSize className size)
      (setSize className size) := by
  apply paired_of_tables (f := fun t => { t with sizes := t.sizes.set className size })
  · intro c d _
    exact ⟨rfl, rfl⟩
  · intro t u h
    have hsize : (u.sizes.set className size).get? className =
        (t.sizes.set className size).get? className := by
      rw [Bindings.get?_set_self, Bindings.get?_set_self]
    exact { h with size := hsize }

/-- What stands behind the name of a class. -/
theorem paired_classRest :
    π.Paired (π.InClass className) (π.Sized className) Eq
      (do
        takeSymbol .leftBrace
        let names ← repeatWhile (atKeyword [.static, .field]) classVarDec
        setSize className (total names)
        let _ ← repeatWhile (atKeyword subroutineWords) subroutine
        takeSymbol .rightBrace
        leave .«class»
        closeTree)
      (do
        takeSymbol .leftBrace
        let names ← repeatWhile (atKeyword [.static, .field]) classVarDec
        setSize className (total names)
        let _ ← repeatWhile (atKeyword subroutineWords) subroutine
        takeSymbol .rightBrace
        leave .«class»
        closeTree) := by
  apply (same_takeSymbol _).next
  intro _
  apply (same_repeatWhile (same_atKeyword _) same_classVarDec).next
  intro names
  apply (paired_setSize _).next
  intro _
  exact (same_repeatWhile (same_atKeyword _) same_subroutine).bind fun _ =>
    (same_takeSymbol _).bind fun _ => (same_leave _).bind fun _ => same_closeTree

theorem classUnit_eq_named :
    classUnit = (do
      enter .«class»
      let _ ← takeKeyword [.«class»]
      let name ← takeIdentifier
      (useClass (some name) >>= fun _ => openClass name)
      takeSymbol .leftBrace
      let names ← repeatWhile (atKeyword [.static, .field]) classVarDec
      setSize name (total names)
      let _ ← repeatWhile (atKeyword subroutineWords) subroutine
      takeSymbol .rightBrace
      leave .«class»
      closeTree) := by
  simp [classUnit, declare]

/-- Two compilers that take up one source compile its class alike. -/
theorem agree_classUnit {c d : Compiler} (h : π.Alike π.Fresh c d)
    (hown : forall name s, c.scanner.Takes [.keyword .«class», .identifier name] s ->
      π.own = some name) :
    π.Agree (fun t u => exists name, π.Sized name t u) Eq (classUnit.run c) (classUnit.run d) := by
  rw [classUnit_eq_named]
  apply (same_enter .«class» c d h).bind
  intro _ _ c1 d1 henter _ h1
  apply (same_takeKeyword [.«class»] c1 d1 h1).bind
  intro word _ c2 d2 hkeyword _ h2
  apply (same_takeIdentifier c2 d2 h2).bind
  intro name name' c3 d3 hname hsame h3
  subst hsame
  rcases run_takeKeyword_eq_ok_iff.mp hkeyword with ⟨hword, _, hclass⟩
  have hwordEq : word = .«class» := by simpa using hword
  subst hwordEq
  have hopening := (run_enter_eq_ok_iff.mp henter).2
  have hidentifier := (run_takeIdentifier_eq_ok_iff.mp hname).2
  have hdeclared := hown name _ (hopening.trans (hclass.trans hidentifier)).takes
  apply Agree.mono _ fun t u hsized => ⟨name, hsized⟩
  exact ((paired_useClass hdeclared).next fun _ => paired_classRest) c3 d3 h3

end

end Pair
end Jack
