import Jack.Proofs.Braces
import Jack.Proofs.Completeness
import Jack.Proofs.TreeInjectivity
import Jack.Proofs.Variables

/-!
# Headers and prologues

The code of a class is one block for each of its subroutines.  A block begins with the name
of the subroutine and the number of its variables, and goes on with the prologue of the kind
that it was declared with.  The kind is looked up under the name of the subroutine, so a
parameter or a variable of that name hides it, and then there is no prologue.
-/

namespace Jack

/-!
# Identifiers of sources

No keyword is read as an identifier, so no variable has a type with the name of a kind of
subroutine.
-/

theorem Reading.notKeyword_of_readLexeme {text after : List Char} {name : String}
    (h : readLexeme text = .ok (some (.identifier name)) after) :
    Keyword.ofWord? name = none := by
  unfold readLexeme at h
  split at h
  · cases h
  · split at h
    · split at h <;> cases h
    · split at h
      · cases h
      · split at h
        · split at h <;> cases h
        · split at h
          · unfold readWord tokenOfWord at h
            simp only at h
            split at h
            · cases h
            · next hword =>
                cases h
                exact hword
          · cases h

namespace Scanner

/-- The token ahead is no identifier with the name of a keyword. -/
def AheadNamed (s : Scanner) : Prop :=
  forall name, s.next = some (.identifier name) -> Keyword.ofWord? name = none

theorem aheadNamed_of_lookAhead {s s' : Scanner} (h : lookAhead s = .ok () s') :
    s'.AheadNamed := by
  intro name hnext
  unfold lookAhead reading at h
  split at h
  · next token s1 hread =>
      cases h
      cases hnext
      split at hread
      · split at hread
        · next hok =>
            cases hread
            unfold Reading.readToken at hok
            split at hok
            · exact Reading.notKeyword_of_readLexeme hok
            · cases hok
        · cases hread
      · cases hread
  · cases h

theorem AheadNamed.notKeyword {s : Scanner} (h : s.AheadNamed) {name : String}
    (hname : .identifier name ∈ s.tokens.1) : Keyword.ofWord? name = none := by
  fun_induction tokens s with
  | case1 s hnext => cases hname
  | case2 s token hnext fault s' hlook => cases hname
  | case3 s token hnext s' hlook following ih =>
      cases hname with
      | head => exact h name hnext
      | tail _ hname => exact ih (aheadNamed_of_lookAhead hlook) hname

end Scanner

theorem notKeyword_of_mem_tokenize {text : String} {name : String}
    (h : .identifier name ∈ (tokenize text).1) : Keyword.ofWord? name = none := by
  unfold tokenize Scanner.ofText at h
  split at h
  · next s hopen =>
      split at hopen
      · next hlook =>
          cases hopen
          exact (Scanner.aheadNamed_of_lookAhead hlook).notKeyword h
      · cases hopen
  · cases h

open Compile

namespace Syntax

/-!
# Types of variables
-/

theorem Class.WrittenIn.notKeyword {unit : Class} {text : String}
    (h : unit.WrittenIn (tokenize text).1) {name : String}
    (hname : .identifier name ∈ unit.tokens) : Keyword.ofWord? name = none := by
  rcases h with hbegins | ⟨missing, _, hunclosed⟩
  · exact notKeyword_of_mem_tokenize (hbegins.subset hname)
  · rw [hunclosed] at hname
    rcases List.mem_append.mp hname with hname | hbrace
    · exact notKeyword_of_mem_tokenize hname
    · cases List.eq_of_mem_replicate hbrace

theorem Class.mem_tokens_of_subroutine {unit : Class} {s : Subroutine}
    (hs : s ∈ unit.subroutines) {token : Token} (h : token ∈ s.tokens) :
    token ∈ unit.tokens := by
  have hsubroutines : token ∈ unit.subroutines.flatMap Subroutine.tokens :=
    List.mem_flatMap.mpr ⟨s, hs, h⟩
  unfold Class.tokens
  simp only [List.mem_cons, List.mem_append, hsubroutines, true_or, or_true]

theorem Parameter.mem_listTokens {parameters : List Parameter} {p : Parameter}
    (hp : p ∈ parameters) {token : Token} (h : token ∈ p.tokens) :
    token ∈ listTokens parameters := by
  cases hp with
  | head => exact List.mem_append_left _ h
  | tail first hp =>
      apply List.mem_append_right
      exact List.mem_flatMap.mpr ⟨p, hp, List.mem_cons_of_mem _ h⟩

theorem Subroutine.mem_tokens_of_parameter {s : Subroutine} {p : Parameter}
    (hp : p ∈ s.parameters) {token : Token} (h : token ∈ p.tokens) : token ∈ s.tokens := by
  have hlist := Parameter.mem_listTokens hp h
  simp [Subroutine.tokens, hlist]

theorem Subroutine.mem_tokens_of_var {s : Subroutine} {v : LocalVar} (hv : v ∈ s.body.vars)
    {token : Token} (h : token ∈ v.tokens) : token ∈ s.tokens := by
  have hbody : token ∈ s.body.tokens := by
    apply List.mem_cons_of_mem
    apply List.mem_append_left
    exact List.mem_flatMap.mpr ⟨v, hv, h⟩
  simp [Subroutine.tokens, hbody]

/-- The type of a variable is written in its subroutine. -/
theorem Subroutine.exists_type {s : Subroutine} {d : Declaration} (h : d ∈ s.declarations) :
    exists type : TypeName, type.word = d.type ∧ type.token ∈ s.tokens := by
  rcases List.mem_append.mp h with hparameter | hvar
  · rcases List.mem_map.mp hparameter with ⟨p, hp, rfl⟩
    exact ⟨p.type, rfl, mem_tokens_of_parameter hp List.mem_cons_self⟩
  · rcases List.mem_flatMap.mp hvar with ⟨v, hv, hd⟩
    rcases List.mem_map.mp hd with ⟨name, _, rfl⟩
    exact ⟨v.names.type, rfl,
      mem_tokens_of_var hv (List.mem_cons_of_mem _ List.mem_cons_self)⟩

theorem prologueCode_of_type {type : TypeName} (size : Nat)
    (h : forall name, type.token = .identifier name -> Keyword.ofWord? name = none) :
    prologueCode size (some type.word) = [] := by
  cases type with
  | named name =>
      have hname := h name rfl
      have hconstructor : name ≠ "constructor" := by
        rintro rfl
        cases (Keyword.ofWord?_word .constructor).symm.trans hname
      have hmethod : name ≠ "method" := by
        rintro rfl
        cases (Keyword.ofWord?_word .method).symm.trans hname
      simp [prologueCode, TypeName.word, hconstructor, hmethod]
  | int => rfl
  | char => rfl
  | boolean => rfl

/-!
# Prologues
-/

/-- What a subroutine does before its statements: a constructor gets memory for an object of
a given size, and a method takes its object from the first argument. -/
def SubroutineKind.prologue (size : Nat) : SubroutineKind -> List Instr
  | .constructor => [.pushConstant size, .call "Memory.alloc" 1, .pop (.pointer 0)]
  | .function => []
  | .method => [.push (.argument 0) none, .pop (.pointer 0)]

/-- The prologue of the kind, unless a parameter or a variable has the name of the
subroutine. -/
def Subroutine.prologue (size : Nat) (s : Subroutine) : List Instr :=
  if s.name ∈ s.parameterNames ++ s.varNames then [] else s.kind.prologue size

theorem prologueCode_keyword (size : Nat) (kind : SubroutineKind) :
    prologueCode size (some kind.keyword.word) = kind.prologue size := by
  cases kind <;> rfl

theorem Subroutine.total_vars (s : Subroutine) : s.body.varCount = s.varNames.length := by
  have htotal : forall vars : List LocalVar,
      total (vars.map fun v => v.names.all.length) =
        (vars.flatMap fun v => v.names.all).length := by
    intro vars
    induction vars with
    | nil => rfl
    | cons v rest ih => rw [List.map_cons, total, ih, List.flatMap_cons, List.length_append]
  exact htotal s.body.vars

section

variable {unit : Class} {σ : Scope} {label : Nat} {before after : List Placed} {p : Placed}

/-- The last subroutine that has begun is found under its name. -/
theorem Class.get?_table_last (unit : Class) (begun : List Subroutine) (s : Subroutine) :
    (unit.table (begun ++ [s])).get? (some s.name) = some s.entry := by
  unfold Class.table
  rw [List.map_append, Table.insertAll_append]
  exact Table.get?_insert_name _ s.entry

theorem prologueCode_of_placed (h : unit.placed σ label = before ++ p :: after)
    {text : String} (hwritten : unit.WrittenIn (tokenize text).1) (size : Nat) :
    prologueCode size ((p.scope.entry p.subroutine.name).join.bind Entry.type) =
      p.subroutine.prologue size := by
  rw [Class.entry_of_placed h, Option.join_some, Subroutine.prologue]
  split
  · next hmem =>
      have hfiled : some p.subroutine.name ∈
          (p.subroutine.declarations.map Declaration.entry).map Entry.name := by
        rw [Declaration.map_name_entry, p.subroutine.map_name_declarations]
        exact List.mem_map_of_mem hmem
      rcases p.subroutine.blankTable.exists_get?_insertAll hfiled with ⟨e, counts, he, _, hget⟩
      rcases List.mem_map.mp he with ⟨d, hd, rfl⟩
      rw [← p.subroutine.locals_eq] at hget
      rw [hget, Option.some_or]
      rcases Subroutine.exists_type hd with ⟨type, hword, htoken⟩
      show prologueCode size (some d.type) = []
      rw [← hword]
      apply prologueCode_of_type
      intro name hname
      rw [hname] at htoken
      exact hwritten.notKeyword
        (Class.mem_tokens_of_subroutine (Class.mem_of_placed h) htoken)
  · next hnot =>
      rw [Subroutine.get?_locals_of_not_mem hnot, Option.none_or, Class.get?_table_last]
      exact prologueCode_keyword size p.subroutine.kind

/-- The code of a subroutine in a class of a given name. -/
def Placed.block (className : String) (size : Nat) (p : Placed) : List Instr :=
  .function (className ++ "." ++ p.subroutine.name) p.subroutine.varNames.length ::
    (p.subroutine.prologue size ++ p.subroutine.body.block.code p.scope p.label)

theorem Placed.code_eq_block (h : unit.placed σ label = before ++ p :: after)
    {text : String} (hwritten : unit.WrittenIn (tokenize text).1) (size : Nat) :
    p.code size = p.block unit.name size := by
  rcases placeAll_split rfl (Bindings.get?_set_self _ _ _) h with ⟨_, hname, _⟩
  unfold Placed.code Subroutine.code Body.code Placed.block
  rw [prologueCode_of_placed h hwritten, hname, p.subroutine.total_vars]
  rfl

/-- The code of a class that is written in a source consists of the blocks of its
subroutines. -/
theorem Class.code_eq_blocks {text : String} (hwritten : unit.WrittenIn (tokenize text).1) :
    unit.code σ label = (unit.placed σ label).flatMap (Placed.block unit.name unit.size) := by
  unfold Class.code
  apply List.flatMap_congr
  intro p hp
  rcases List.append_of_mem hp with ⟨before, after, hplaced⟩
  exact Placed.code_eq_block hplaced hwritten unit.size

end

end Syntax

open Syntax

/-- The code of an accepted class is one block for each of its subroutines, in their order.
A block begins with the header of the subroutine.  The prologue follows that is due to the
kind of the subroutine, or none if a parameter or a variable has the name of the subroutine.
The code of the statements comes last. -/
theorem blocks_match_declarations {c : Compiler} {text : String}
    (h : (c.compile text).fault = none) :
    exists unit : Syntax.Class, unit.WrittenIn (tokenize text).1 ∧
      (unit.placed c.scope c.labels).map Placed.subroutine = unit.subroutines ∧
      (c.compile text).written =
        some ((unit.placed c.scope c.labels).flatMap (Placed.block unit.name unit.size),
          Tree.linesFrom 0 unit.marks) := by
  rcases Compiler.exists_written_of_compile h with ⟨unit, htokens, hwritten⟩
  refine ⟨unit, htokens, map_subroutine_placeAll _ _ _, ?_⟩
  rw [hwritten, Class.code]
  have hblocks : forall p, p ∈ unit.placed c.scope c.labels ->
      p.code unit.size = p.block unit.name unit.size := by
    intro p hp
    rcases List.append_of_mem hp with ⟨before, after, hplaced⟩
    exact Placed.code_eq_block hplaced htokens unit.size
  rw [List.flatMap_congr hblocks]

theorem blocks_of_counter :
    (({} : Compiler).compile Syntax.Class.counter.text).fault = none ∧
      (({} : Compiler).compile Syntax.Class.counter.text).written =
        some ((Syntax.Class.counter.placed ({} : Compiler).scope ({} : Compiler).labels).flatMap
            (Placed.block "Counter" 1),
          Tree.linesFrom 0 Syntax.Class.counter.marks) := by
  have htokens := Token.tokenize_print Syntax.Class.isLexeme_counter
  rcases Compiler.compile_of_resolved htokens Syntax.Class.clear_counter.resolved with
    ⟨hfault, hcounter⟩
  rcases blocks_match_declarations hfault with ⟨unit, _, _, hunit⟩
  have hwritten := Option.some.inj (hunit.symm.trans hcounter)
  have hclass := Class.eq_of_lines (congrArg Prod.snd hwritten)
  subst hclass
  exact ⟨hfault, hunit⟩

/-- A class whose constructor has a parameter of its own name. -/
def Syntax.Class.shadowed : Syntax.Class where
  name := "A"
  vars := []
  subroutines :=
    [⟨.constructor, some (.named "A"), "new", [⟨.int, "new"⟩],
      ⟨[], .cons (.give (.mk (.constant .this) .nil)) .nil⟩⟩]

def shadowedText : String :=
  "class A \x7b constructor A new(int new) \x7b return this; \x7d \x7d"

/-- The constructor returns an object that it got no memory for. -/
theorem constructor_without_prologue :
    (tokenize shadowedText).1 = Syntax.Class.shadowed.tokens ∧
      Syntax.Class.shadowed.subroutines.map Subroutine.kind = [.constructor] ∧
      (({} : Compiler).compile shadowedText).fault = none ∧
      (({} : Compiler).compile shadowedText).written.map Prod.fst =
        some [.function "A.new" 0, .push (.pointer 0) none, .ret] := by
  decide +kernel

end Jack
