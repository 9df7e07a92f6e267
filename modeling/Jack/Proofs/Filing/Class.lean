import Mathlib.Logic.Relation
import Jack.Proofs.Filing.Basic
import Jack.Proofs.History

/-!
# Changes of the tables

While a class is compiled, the tables change in five ways only: the class and each of its
subroutines begin with an empty table, a method counts its object, a name is declared, and the
size of the class is kept.  Every run is a sequence of such changes, whether it succeeds or
not, and all of them are made for the class whose name the source declares.
-/

namespace Jack

open Compile

/-!
# Types of declarations
-/

/-- The type is a word that a subroutine begins with. -/
def NamesKind (type : Option String) : Prop :=
  exists word, word ∈ subroutineWords ∧ type = some word.word

/-- A type that is written in a source is none of these words. -/
theorem not_namesKind_of_takeType {c c' : Compiler} {type : String} (hnamed : c.scanner.Named)
    (h : takeType.run c = .ok type c') : ¬ NamesKind (some type) := by
  rcases run_takeType_eq_ok_iff.mp h with ⟨written, rfl, _, hyields⟩
  rintro ⟨word, hmem, htype⟩
  have hword : written.word = word.word := Option.some.inj htype
  cases written with
  | named name =>
      have hname : name = word.word := hword
      have hnone := hnamed.current name (current_of_yields_leaf hyields)
      rw [hname, Keyword.ofWord?_word] at hnone
      cases hnone
  | int =>
      cases Keyword.word_injective (k := .int) hword
      exact absurd hmem (by decide)
  | char =>
      cases Keyword.word_injective (k := .char) hword
      exact absurd hmem (by decide)
  | boolean =>
      cases Keyword.word_injective (k := .boolean) hword
      exact absurd hmem (by decide)

theorem namesKind_of_takeKeyword {c c' : Compiler} {word : Keyword}
    (h : (takeKeyword subroutineWords).run c = .ok word c') : NamesKind (some word.word) :=
  ⟨word, (run_takeKeyword_eq_ok_iff.mp h).1, rfl⟩

/-!
# Changes
-/

/-- Without a table for the class at hand nothing is filed. -/
theorem Scope.mapClass_of_not_hasClass {σ : Scope} (h : ¬ σ.HasClass)
    (f : Table Entry -> Table Entry) : σ.mapClass f = σ := by
  rcases σ with ⟨locals, classes, className⟩
  cases className with
  | none => rfl
  | some name =>
      cases htable : classes.get? name with
      | none => simp [mapClass, htable]
      | some table => exact absurd ⟨name, table, rfl, htable⟩ h

namespace Tables

/-- What may happen to the tables while a class is compiled.  A name that is declared is a
subroutine exactly if its type says so. -/
inductive Change (owner : String) : Tables -> Tables -> Prop where
  | openClass (t : Tables) :
      Change owner t { t with scope := { t.scope with classes := t.scope.classes.set owner {} } }
  | openLocals (t : Tables) :
      Change owner t { t with scope := { t.scope with locals := some {} } }
  | reserveObject (t : Tables) :
      Change owner t { t with scope := t.scope.mapLocals Table.reserveArgument }
  | setSize (t : Tables) (size : Nat) :
      Change owner t { t with sizes := t.sizes.set owner size }
  | declare (t : Tables) {category : Category} (name : String) {type : Option String} :
      category ≠ .className -> (NamesKind type ↔ category = .subroutine) ->
      t.scope.className = some owner -> Change owner t (t.declare category name type)

theorem className_declare {t : Tables} {category : Category} (h : category ≠ .className)
    (name : String) (type : Option String) :
    (t.declare category name type).scope.className = t.scope.className := by
  rcases category with (_ | _ | _ | _) | _ | _
  · rfl
  · rfl
  · rfl
  · rfl
  · exact absurd rfl h
  · rfl

/-- The class at hand stays the same. -/
theorem Change.className {owner : String} {t t' : Tables} (h : t.Change owner t') :
    t'.scope.className = t.scope.className := by
  cases h with
  | declare name hcategory => exact className_declare hcategory name _
  | _ => rfl

/-- One change after the other. -/
abbrev Evolves (owner : String) : Tables -> Tables -> Prop :=
  Relation.ReflTransGen (Change owner)

theorem Evolves.className {owner : String} {t t' : Tables} (h : t.Evolves owner t') :
    t'.scope.className = t.scope.className := by
  induction h with
  | refl => rfl
  | tail _ hchange ih => rw [hchange.className, ih]

end Tables

namespace Compile

/-!
# Steps that file names
-/

/-- Where a class is at hand, the step changes the tables for this class only, whether it
succeeds or not. -/
def Files (owner : String) (step : CompileM α) : Prop :=
  forall c : Compiler, c.scanner.Named -> c.className = some owner ->
    (c.after step).scanner.Named ∧ c.tables.Evolves owner (c.after step).tables

section

variable {owner : String} {step : CompileM α}

theorem Quiet.files (h : Quiet step) : Files owner step := by
  intro c hnamed _
  rw [h.tables]
  exact ⟨h.named c hnamed, .refl⟩

/-- What the second step files may depend on how the first one has got its result. -/
theorem Files.bind_of_run {second : α -> CompileM β} (hfirst : Files owner step)
    (hsecond : forall c a c', c.scanner.Named -> step.run c = .ok a c' ->
      Files owner (second a)) : Files owner (step >>= second) := by
  intro c hnamed hclass
  have hstep := hfirst c hnamed hclass
  cases hrun : step.run c with
  | ok a c' =>
      rw [Compiler.after_of_ok hrun] at hstep
      rw [Compiler.after_bind_of_ok hrun]
      have hclass' : c'.className = some owner := hstep.2.className.trans hclass
      rcases hsecond c a c' hnamed hrun c' hstep.1 hclass' with ⟨hnamed', hevolves⟩
      exact ⟨hnamed', hstep.2.trans hevolves⟩
  | error fault c' =>
      rw [Compiler.after_of_error hrun] at hstep
      rwa [Compiler.after_bind_of_error hrun]

theorem Files.bind {second : α -> CompileM β} (hfirst : Files owner step)
    (hsecond : forall a, Files owner (second a)) : Files owner (step >>= second) :=
  hfirst.bind_of_run fun _ a _ _ _ => hsecond a

/-- The step makes one change and does nothing else. -/
theorem files_of_change (h : forall c : Compiler, c.className = some owner ->
    exists t, c.after step = c.withTables t ∧ c.tables.Change owner t) : Files owner step := by
  intro c hnamed hclass
  rcases h c hclass with ⟨t, hafter, hchange⟩
  rw [hafter]
  exact ⟨hnamed, .single hchange⟩

theorem files_pure (a : α) : Files owner (pure a : CompileM α) :=
  (quiet_pure a).files

theorem files_repeatWithin {applies : CompileM Bool} (happlies : Quiet applies)
    (hstep : Files owner step) (n : Nat) : Files owner (repeatWithin applies step n) := by
  induction n with
  | zero => exact (quiet_throw _).files
  | succ n ih =>
      apply happlies.files.bind
      intro again
      cases again with
      | false => exact files_pure []
      | true => exact hstep.bind fun first => ih.bind fun others => files_pure (first :: others)

theorem files_repeatWhile {applies : CompileM Bool} (happlies : Quiet applies)
    (hstep : Files owner step) : Files owner (repeatWhile applies step) :=
  quiet_bound.files.bind fun n => files_repeatWithin happlies hstep n

end

/-!
# Declarations
-/

theorem after_fileLocally (e : Entry) (c : Compiler) :
    c.after (fileLocally e) =
      c.withTables { c.tables with scope := c.scope.mapLocals fun table => table.insert e } := by
  cases hlocals : c.locals with
  | some table =>
      have hkeeps : c.scope.Keeps .var := by simp [Scope.Keeps, Compiler.scope, hlocals]
      exact Compiler.after_of_ok
        ((run_fileLocally_eq_ok_iff (Or.inl rfl)).mpr ⟨hkeeps, rfl⟩)
  | none =>
      have hscope : c.scope.mapLocals (fun table => table.insert e) = c.scope := by
        simp [Scope.mapLocals, Compiler.scope, hlocals]
      have hrun : (fileLocally e).run c = .error .noTableToExtend c := by
        rw [run_fileLocally, hlocals]
      rw [hscope]
      exact Compiler.after_of_error hrun

theorem after_fileInClass (e : Entry) (c : Compiler) :
    c.after (fileInClass e) =
      c.withTables { c.tables with scope := c.scope.mapClass fun table => table.insert e } := by
  by_cases hclass : c.scope.HasClass
  · exact Compiler.after_of_ok (run_fileInClass_eq_ok_iff.mpr ⟨hclass, rfl⟩)
  · rw [Scope.mapClass_of_not_hasClass hclass]
    cases hrun : (fileInClass e).run c with
    | ok _ c' => exact absurd (run_fileInClass_eq_ok_iff.mp hrun).1 hclass
    | error fault c' =>
        rw [Compiler.after_of_error hrun]
        rw [run_fileInClass] at hrun
        split at hrun
        · cases hrun
          rfl
        · split at hrun
          · cases hrun
          · cases hrun
            rfl

theorem after_bind_pure (step : CompileM α) (b : β) (c : Compiler) :
    c.after (step >>= fun _ => pure b) = c.after step := by
  cases hrun : step.run c with
  | ok a c' =>
      rw [Compiler.after_bind_of_ok hrun, Compiler.after_of_ok hrun]
      rfl
  | error fault c' => rw [Compiler.after_bind_of_error hrun, Compiler.after_of_error hrun]

section

variable {owner : String}

theorem files_declare {category : Category} {type : Option String}
    (hcategory : category ≠ .className) (htype : NamesKind type ↔ category = .subroutine) :
    Files owner (declare category type) := by
  apply quiet_takeIdentifier.files.bind
  intro name
  apply files_of_change
  intro c hclass
  refine ⟨_, ?_, .declare c.tables name hcategory htype hclass⟩
  rcases category with (_ | _ | _ | _) | _ | _
  · exact (after_bind_pure _ name c).trans (after_fileLocally _ c)
  · exact (after_bind_pure _ name c).trans (after_fileLocally _ c)
  · exact (after_bind_pure _ name c).trans (after_fileInClass _ c)
  · exact (after_bind_pure _ name c).trans (after_fileInClass _ c)
  · exact absurd rfl hcategory
  · have huse : (useSubroutine (some name)).run c =
        .ok () { c with subroutineName := some name } := rfl
    exact (Compiler.after_bind_of_ok huse _).trans
      ((after_bind_pure _ name _).trans (after_fileInClass _ _))

/-- A name is declared for a value of a type that was read before. -/
theorem files_declare_stored {c c' : Compiler} {type : String} (hnamed : c.scanner.Named)
    (h : takeType.run c = .ok type c') (storage : Storage) :
    Files owner (declare (.stored storage) (some type)) := by
  apply files_declare (by simp)
  simpa using not_namesKind_of_takeType hnamed h

theorem files_declareNames (storage : Storage) : Files owner (declareNames (.stored storage)) := by
  apply quiet_takeType.files.bind_of_run
  intro c type c' hnamed hrun
  have hdeclare : Files owner (declare (.stored storage) (some type)) :=
    files_declare_stored hnamed hrun storage
  have hmore : Files owner
      (takeSymbol .comma >>= fun _ => declare (.stored storage) (some type)) :=
    (quiet_takeSymbol _).files.bind fun _ => hdeclare
  exact hdeclare.bind fun _ => (files_repeatWhile (quiet_atSymbol _) hmore).bind fun _ =>
    (quiet_takeSymbol _).files.bind fun _ => files_pure _

theorem files_classVarDec : Files owner classVarDec :=
  (quiet_enter _).files.bind fun _ => quiet_currentKeyword.files.bind fun _ =>
    (quiet_takeKeyword _).files.bind fun _ => (files_declareNames _).bind fun names =>
      (quiet_leave _).files.bind fun _ => files_pure names

theorem files_varDec : Files owner varDec :=
  (quiet_enter _).files.bind fun _ => (quiet_takeKeyword _).files.bind fun _ =>
    (files_declareNames _).bind fun names => (quiet_leave _).files.bind fun _ => files_pure names

/-!
# Subroutines
-/

theorem files_openLocals : Files owner openLocals :=
  files_of_change fun c _ => ⟨_, rfl, .openLocals c.tables⟩

theorem files_reserveObject : Files owner reserveObject :=
  files_of_change fun c _ => ⟨_, rfl, .reserveObject c.tables⟩

theorem files_parameter : Files owner parameter := by
  apply quiet_takeType.files.bind_of_run
  intro c type c' hnamed hrun
  exact (files_declare_stored hnamed hrun .argument).bind fun _ => files_pure ()

theorem files_parameterList : Files owner parameterList := by
  have hmore : Files owner (takeSymbol .comma >>= fun _ => parameter) :=
    (quiet_takeSymbol _).files.bind fun _ => files_parameter
  have hend : forall first : Nat, Files owner
      (repeatWhile (atSymbol .comma) (takeSymbol .comma >>= fun _ => parameter) >>= fun others =>
        leave .parameterList >>= fun _ => pure (first + others.length)) :=
    fun first => (files_repeatWhile (quiet_atSymbol _) hmore).bind fun _ =>
      (quiet_leave _).files.bind fun _ => files_pure _
  apply (quiet_enter _).files.bind
  intro _
  apply (quiet_atSymbol .rightParen).files.bind
  intro isEmpty
  cases isEmpty with
  | true => exact hend 0
  | false => exact files_parameter.bind fun _ => hend 1

theorem quiet_prologue (type : Option String) : Quiet (prologue type) := by
  unfold prologue
  split
  · exact quiet_classSize.bind fun _ => quiet_emitAll _
  · split
    · exact quiet_emitAll _
    · exact quiet_pure ()

theorem files_subroutineBody : Files owner subroutineBody := by
  have hrest : forall (name : Option String) (header : Instr), Quiet (emit header >>= fun _ =>
      entry? name >>= fun e => typeOf e >>= fun type => prologue type >>= fun _ =>
        statements >>= fun _ => takeSymbol .rightBrace >>= fun _ => leave .subroutineBody) :=
    fun name header => (quiet_emit _).bind fun _ => (quiet_entry _).bind fun e =>
      (quiet_typeOf e).bind fun type => (quiet_prologue type).bind fun _ =>
        quiet_statements.bind fun _ => (quiet_takeSymbol _).bind fun _ => quiet_leave _
  exact (quiet_enter _).files.bind fun _ => (quiet_takeSymbol _).files.bind fun _ =>
    (files_repeatWhile (quiet_atKeyword _) files_varDec).bind fun vars =>
      quiet_get.files.bind fun c => (hrest c.subroutineName _).files

theorem quiet_takeReturnType : Quiet takeReturnType := by
  apply (quiet_atKeyword _).bind
  intro isVoid
  cases isVoid with
  | true => exact (quiet_takeKeyword _).bind fun _ => quiet_pure ()
  | false => exact quiet_takeType.bind fun _ => quiet_pure ()

theorem files_subroutine : Files owner subroutine := by
  have hrest : Files owner (takeSymbol .leftParen >>= fun _ => parameterList >>= fun _ =>
      takeSymbol .rightParen >>= fun _ => subroutineBody >>= fun _ => leave .subroutineDec) :=
    (quiet_takeSymbol _).files.bind fun _ => files_parameterList.bind fun _ =>
      (quiet_takeSymbol _).files.bind fun _ => files_subroutineBody.bind fun _ =>
        (quiet_leave _).files
  apply (quiet_enter _).files.bind
  intro _
  apply files_openLocals.bind
  intro _
  apply quiet_currentKeyword.files.bind
  intro _
  apply (quiet_takeKeyword _).files.bind_of_run
  intro c word c' _ hrun
  apply quiet_takeReturnType.files.bind
  intro _
  apply (files_declare (by simp) (by simp [namesKind_of_takeKeyword hrun])).bind
  intro _
  show Files owner (if word = .method then _ else _)
  split
  · exact files_reserveObject.bind fun _ => hrest
  · exact hrest

/-!
# Classes
-/

end

/-- A class up to its name. -/
def classHead : CompileM String := do
  enter .«class»
  let _ ← takeKeyword [.«class»]
  takeIdentifier

/-- What stands behind the name of a class. -/
def classRest (owner : String) : CompileM Unit := do
  openClass owner
  takeSymbol .leftBrace
  let names ← repeatWhile (atKeyword [.static, .field]) classVarDec
  setSize owner (total names)
  let _ ← repeatWhile (atKeyword subroutineWords) subroutine
  takeSymbol .rightBrace
  leave .«class»
  closeTree

theorem classUnit_eq_head :
    classUnit = (do
      let owner ← classHead
      useClass (some owner)
      classRest owner) := by
  simp [classUnit, classHead, classRest, declare]

theorem quiet_classHead : Quiet classHead :=
  (quiet_enter _).bind fun _ => (quiet_takeKeyword _).bind fun _ => quiet_takeIdentifier

theorem takes_of_classHead {c c' : Compiler} {owner : String}
    (h : classHead.run c = .ok owner c') :
    c.scanner.Takes [.keyword .«class», .identifier owner] c'.scanner := by
  rcases run_bind_eq_ok_iff.mp h with ⟨_, c1, henter, h⟩
  rcases run_bind_eq_ok_iff.mp h with ⟨word, c2, hkeyword, hname⟩
  rcases run_takeKeyword_eq_ok_iff.mp hkeyword with ⟨hword, _, hclass⟩
  cases List.mem_singleton.mp hword
  have hopening := (run_enter_eq_ok_iff.mp henter).2
  have hidentifier := (run_takeIdentifier_eq_ok_iff.mp hname).2
  exact (hopening.trans (hclass.trans hidentifier)).takes

theorem files_classRest (owner : String) : Files owner (classRest owner) := by
  have hopen : Files owner (openClass owner) :=
    files_of_change fun c _ => ⟨_, rfl, .openClass c.tables⟩
  have hsize : forall size, Files owner (setSize owner size) :=
    fun size => files_of_change fun c _ => ⟨_, rfl, .setSize c.tables size⟩
  exact hopen.bind fun _ => (quiet_takeSymbol _).files.bind fun _ =>
    (files_repeatWhile (quiet_atKeyword _) files_classVarDec).bind fun _ =>
      (hsize _).bind fun _ => (files_repeatWhile (quiet_atKeyword _) files_subroutine).bind fun _ =>
        (quiet_takeSymbol _).files.bind fun _ => (quiet_leave _).files.bind fun _ =>
          quiet_closeTree.files

end Compile

namespace Compiler

/-- The tables are as they were before, or the source has named a class, and they have changed
for this class. -/
def Filed (c c' : Compiler) : Prop :=
  c'.tables = c.tables ∨
    exists owner s, c.scanner.Takes [.keyword .«class», .identifier owner] s ∧
      (c.tables.declare .className owner none).Evolves owner c'.tables

/-- What a class does to the tables, whether it is accepted or not. -/
theorem filed_classUnit {c : Compiler} (hnamed : c.scanner.Named) :
    (c.after classUnit).scanner.Named ∧ c.Filed (c.after classUnit) := by
  have htables := quiet_classHead.tables c
  have hhead := quiet_classHead.named c hnamed
  rw [classUnit_eq_head]
  cases hrun : classHead.run c with
  | error fault c' =>
      rw [after_of_error hrun] at htables hhead
      rw [after_bind_of_error hrun]
      exact ⟨hhead, Or.inl htables⟩
  | ok owner c' =>
      rw [after_of_ok hrun] at htables hhead
      have huse : (useClass (some owner)).run c' =
          .ok () (c'.withTables (c'.tables.declare .className owner none)) := rfl
      rw [after_bind_of_ok hrun, after_bind_of_ok huse, htables]
      rcases files_classRest owner (c'.withTables (c.tables.declare .className owner none)) hhead
        rfl with ⟨hrest, hevolves⟩
      exact ⟨hrest, Or.inr ⟨owner, c'.scanner, takes_of_classHead hrun, hevolves⟩⟩

/-!
# Sources
-/

/-- A text is refused at its first token, it is taken up, or the token behind the first one
cannot be read. -/
theorem after_load_cases (c : Compiler) (text : String) :
    c.after (load text) = c ∨
      exists s, s.Named ∧ (c.after (load text) = c.started s ∨
        c.after (load text) =
          { c with scanner := s, code := #[], tree := #[], treeOpen := true }) := by
  unfold load
  cases htext : Scanner.ofText text with
  | error fault => exact Or.inl rfl
  | ok scanner =>
      have hnamed := Scanner.named_of_ofText htext
      apply Or.inr
      cases hadvance : Scanner.advance.run scanner with
      | ok _ s =>
          have hstart : (start scanner).run c = .ok () (c.started s) :=
            run_start_eq_ok_iff.mpr ⟨s, hadvance, rfl⟩
          exact ⟨s, hnamed.of_advance hadvance, Or.inl (after_of_ok hstart)⟩
      | error fault s =>
          have hstart := run_start_of_error hadvance c
          exact ⟨s, hnamed.of_advance_error hadvance, Or.inr (after_of_error hstart)⟩

theorem named_of_load {c c' : Compiler} {text : String} (h : (load text).run c = .ok () c') :
    c'.scanner.Named := by
  rcases run_load_eq_ok_iff.mp h with ⟨scanner, s, htext, hadvance, rfl⟩
  exact (Scanner.named_of_ofText htext).of_advance hadvance

/-- A source is taken up, and then its class is compiled. -/
theorem compiler_compile (c : Compiler) (text : String) :
    (c.compile text).compiler = c.after (load text >>= fun _ => classUnit) := by
  unfold compile load after
  cases Scanner.ofText text with
  | error fault => rfl
  | ok scanner =>
      simp only [EStateM.run]
      cases (do start scanner; classUnit : CompileM Unit) c <;> rfl

end Compiler
end Jack
