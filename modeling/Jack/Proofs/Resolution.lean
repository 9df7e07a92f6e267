import Jack.Proofs.Program

/-!
# Names that can be looked up

In the body of a subroutine there are tables for the subroutine and for its class, so
every look-up of a name gives an answer.  What is left to ask for is that assignments
go to names that have an entry, and that the class of a call can be told where an
expression calls a subroutine on a name.
-/

namespace Jack

open Compile

theorem Counts.name_number (counts : Counts) (e : Entry) :
    (counts.number e).1.name = e.name := by
  unfold Counts.number
  split <;> rfl

theorem Table.get?_insert_name (table : Table Entry) (e : Entry) :
    (table.insert e).get? e.name = some (table.counts.number e).1 := by
  rw [← table.counts.name_number e]
  exact Bindings.get?_set_self _ _ _

theorem Table.get?_insert_self (table : Table Entry) (e : Entry) :
    ((table.insert e).get? e.name).isSome = true := by
  rw [get?_insert_name]
  rfl

namespace Scope

/-!
# Scopes with tables
-/

theorem HasClass.mapClass {σ : Scope} (h : σ.HasClass) (f : Table Entry -> Table Entry) :
    (σ.mapClass f).HasClass := by
  rcases h with ⟨name, table, hname, htable⟩
  refine ⟨name, f table, hname, ?_⟩
  rw [mapClass_of_get hname htable]
  exact Bindings.get?_set_self _ _ _

theorem Keeps.mapTable {σ : Scope} {storage : Storage} (h : σ.Keeps storage)
    (f : Table Entry -> Table Entry) : (σ.mapTable storage f).Keeps storage := by
  cases storage with
  | var => simpa [Keeps, Scope.mapTable, mapLocals] using h
  | argument => simpa [Keeps, Scope.mapTable, mapLocals] using h
  | static => exact HasClass.mapClass h f
  | field => exact HasClass.mapClass h f

theorem HasClass.enter {σ : Scope} (h : σ.HasClass) (s : Syntax.Subroutine) :
    (σ.enter s).HasClass :=
  h.mapClass fun table => table.insert s.entry

/-- A name is searched in the subroutine, then in the class. -/
theorem entry_of_tables {σ : Scope} {locals table : Table Entry} {className : String}
    (hlocals : σ.locals = some locals) (hname : σ.className = some className)
    (htable : σ.classes.get? className = some table) (name : String) :
    σ.entry name = some ((locals.get? (some name)).or (table.get? (some name))) := by
  unfold entry answer
  rw [run_entry]
  simp only [compiler, hlocals]
  cases hget : locals.get? (some name) with
  | some e => rfl
  | none =>
      simp only
      rw [run_classEntry]
      simp [hname, htable]

theorem isSome_entry {σ : Scope} (hlocals : σ.locals.isSome = true) (hclass : σ.HasClass)
    (name : String) : (σ.entry name).isSome = true := by
  rcases Option.isSome_iff_exists.mp hlocals with ⟨locals, hlocals⟩
  rcases hclass with ⟨className, table, hname, htable⟩
  rw [entry_of_tables hlocals hname htable]
  rfl

/-- The subroutine at hand has an entry, at least that in its class. -/
theorem exists_entry_enter {σ : Scope} (h : σ.HasClass) (s : Syntax.Subroutine) :
    exists e, (σ.enter s).entry s.name = some (some e) := by
  rcases h with ⟨className, table, hname, htable⟩
  have hget : (σ.enter s).classes.get? className = some (table.insert s.entry) := by
    show (σ.mapClass _).classes.get? className = _
    rw [mapClass_of_get hname htable]
    exact Bindings.get?_set_self _ _ _
  have hentered : (σ.enter s).className = some className := hname
  have hentry := entry_of_tables (rfl : (σ.enter s).locals = some s.locals) hentered hget s.name
  have hself : ((table.insert s.entry).get? (some s.name)).isSome = true :=
    Table.get?_insert_self table s.entry
  rcases Option.isSome_iff_exists.mp hself with ⟨own, hown⟩
  rw [hown] at hentry
  cases hlocal : s.locals.get? (some s.name) with
  | none => exact ⟨own, by rw [hentry, hlocal]; rfl⟩
  | some e => exact ⟨e, by rw [hentry, hlocal]; rfl⟩

/-!
# Calls on names
-/

/-- The name has an entry. -/
def Known (σ : Scope) (name : String) : Prop :=
  (σ.entry name).join.isSome = true

/-- The type of a name that has an entry. -/
def type? (σ : Scope) (name : String) : Option String :=
  (σ.entry name).join.bind Entry.type

/-- It can be told what a call on a name calls: the name has an entry whose type is a class
with a table, or it has no entry, and then no method at hand is called on it. -/
def Tells (σ : Scope) (owner name : String) : Prop :=
  ((σ.type? owner).bind σ.classes.get?).isSome = true ∨
    ¬ σ.Known owner ∧ σ.type? name ≠ some "method"

instance (σ : Scope) (name : String) : Decidable (σ.Known name) :=
  inferInstanceAs (Decidable (_ = true))

instance (σ : Scope) (owner name : String) : Decidable (σ.Tells owner name) :=
  inferInstanceAs (Decidable (_ ∨ _))

theorem isSome_answer_bind {first : CompileM α} {second : α -> CompileM β} {σ : Scope} {a : α}
    (hfirst : Asks first) (ha : σ.answer first = some a)
    (hsecond : (σ.answer (second a)).isSome = true) :
    (σ.answer (first >>= second)).isSome = true := by
  rcases Option.isSome_iff_exists.mp hsecond with ⟨b, hb⟩
  have hboth : σ.answer (first >>= second) = some b :=
    (answer_bind_eq_some_iff hfirst).mpr ⟨a, ha, hb⟩
  rw [hboth]
  rfl

/-- The entry of the subroutine is found.  It is a method at most if the owner has an
entry. -/
theorem Tells.exists_subroutineEntry {σ : Scope} {owner name : String}
    (h : σ.Tells owner name) (hentry : forall name, (σ.entry name).isSome = true) :
    exists found, σ.subroutineEntry owner name = some found ∧
      forall e, found = some e -> e.type = some "method" ->
        exists holder, σ.entry owner = some (some holder) := by
  rcases Option.isSome_iff_exists.mp (hentry name) with ⟨called, hcalled⟩
  rcases Option.isSome_iff_exists.mp (hentry owner) with ⟨holder, howner⟩
  unfold Tells Known type? at h
  rw [hcalled, howner] at h
  unfold subroutineEntry subroutineEntry?
  cases called with
  | some e =>
      refine ⟨some e, ?_, ?_⟩
      · exact (answer_bind_eq_some_iff (asks_entry _)).mpr ⟨some e, hcalled, rfl⟩
      · intro found hfound hmethod
        cases hfound
        cases holder with
        | some holder => exact ⟨holder, howner⟩
        | none =>
            rcases h with hclass | ⟨_, hother⟩
            · cases hclass
            · exact absurd hmethod hother
  | none =>
      cases holder with
      | some holder =>
          have hclass : ((holder.type).bind σ.classes.get?).isSome = true := by
            simpa using h
          rcases Option.isSome_iff_exists.mp hclass with ⟨table, htable⟩
          refine ⟨table.get? (some name), ?_, fun _ _ _ => ⟨holder, howner⟩⟩
          refine (answer_bind_eq_some_iff (asks_entry _)).mpr ⟨none, hcalled, ?_⟩
          refine (answer_bind_eq_some_iff (asks_entry _)).mpr ⟨some holder, howner, ?_⟩
          unfold answer
          rw [run_classEntry]
          simp [compiler, htable]
      | none =>
          refine ⟨none, ?_, ?_⟩
          · refine (answer_bind_eq_some_iff (asks_entry _)).mpr ⟨none, hcalled, ?_⟩
            exact (answer_bind_eq_some_iff (asks_entry _)).mpr ⟨none, howner, rfl⟩
          · intro e hfound
            cases hfound

theorem Tells.isSome_target {σ : Scope} {owner name : String} (h : σ.Tells owner name)
    (hentry : forall name, (σ.entry name).isSome = true) :
    (σ.target owner name).isSome = true := by
  rcases h.exists_subroutineEntry hentry with ⟨found, hfound, hmethod⟩
  unfold target callTarget
  apply isSome_answer_bind (asks_subroutineEntry _ _) hfound
  cases found with
  | none => rfl
  | some e =>
      show (σ.answer (if e.type = some "method" then _ else _)).isSome = true
      split
      · next htype =>
          rcases hmethod e rfl htype with ⟨holder, hholder⟩
          apply isSome_answer_bind (asks_entry _) hholder
          rfl
      · rfl

end Scope

namespace Syntax

/-!
# What trees ask for
-/

mutual

/-- The calls on names in an expression, as owner and subroutine. -/
def Expr.calls : Expr -> List (String × String)
  | .mk first rest => first.calls ++ rest.calls

def Operations.calls : Operations -> List (String × String)
  | .nil => []
  | .cons _ operand rest => operand.calls ++ rest.calls

def Term.calls : Term -> List (String × String)
  | .integer _ => []
  | .string _ => []
  | .constant _ => []
  | .paren inner => inner.calls
  | .unary _ operand => operand.calls
  | .var _ => []
  | .element _ index => index.calls
  | .call _ arguments => arguments.calls
  | .callOn owner name arguments => (owner, name) :: arguments.calls

def Arguments.calls : Arguments -> List (String × String)
  | .nil => []
  | .cons first rest => first.calls ++ rest.calls

end

mutual

/-- The calls on names in the expressions of a statement.  A statement that is a call
itself is none of them. -/
def Statement.calls : Statement -> List (String × String)
  | .assign _ value => value.calls
  | .store _ index value => index.calls ++ value.calls
  | .call _ arguments => arguments.calls
  | .callOn _ _ arguments => arguments.calls
  | .leave => []
  | .give value => value.calls
  | .ifThen condition body => condition.calls ++ body.calls
  | .ifElse condition body other => condition.calls ++ (body.calls ++ other.calls)
  | .loop condition body => condition.calls ++ body.calls

def Block.calls : Block -> List (String × String)
  | .nil => []
  | .cons first rest => first.calls ++ rest.calls

end

mutual

/-- The names that a statement assigns to. -/
def Statement.targets : Statement -> List String
  | .assign name _ => [name]
  | .store name _ _ => [name]
  | .call _ _ => []
  | .callOn _ _ _ => []
  | .leave => []
  | .give _ => []
  | .ifThen _ body => body.targets
  | .ifElse _ body other => body.targets ++ other.targets
  | .loop _ body => body.targets

def Block.targets : Block -> List String
  | .nil => []
  | .cons first rest => first.targets ++ rest.targets

end

/-!
Where every look-up gives an answer, a tree can be compiled if its calls can be told and
its assignments go to names that have an entry.
-/

mutual

theorem Expr.resolved {σ : Scope} (hentry : forall name, (σ.entry name).isSome = true) :
    forall e : Expr, (forall call, call ∈ e.calls -> σ.Tells call.1 call.2) -> e.Resolved σ
  | .mk first rest, hcalls => by
      rw [Expr.calls, List.forall_mem_append] at hcalls
      exact ⟨Term.resolved hentry first hcalls.1, Operations.resolved hentry rest hcalls.2⟩

theorem Operations.resolved {σ : Scope} (hentry : forall name, (σ.entry name).isSome = true) :
    forall operations : Operations,
      (forall call, call ∈ operations.calls -> σ.Tells call.1 call.2) -> operations.Resolved σ
  | .nil, _ => trivial
  | .cons _ operand rest, hcalls => by
      rw [Operations.calls, List.forall_mem_append] at hcalls
      exact ⟨Term.resolved hentry operand hcalls.1, Operations.resolved hentry rest hcalls.2⟩

theorem Term.resolved {σ : Scope} (hentry : forall name, (σ.entry name).isSome = true) :
    forall t : Term, (forall call, call ∈ t.calls -> σ.Tells call.1 call.2) -> t.Resolved σ
  | .integer _, _ => trivial
  | .string _, _ => trivial
  | .constant _, _ => trivial
  | .paren inner, hcalls => Expr.resolved hentry inner hcalls
  | .unary _ operand, hcalls => Term.resolved hentry operand hcalls
  | .var name, _ => hentry name
  | .element name index, hcalls => ⟨hentry name, Expr.resolved hentry index hcalls⟩
  | .call name arguments, hcalls => ⟨hentry name, Arguments.resolved hentry arguments hcalls⟩
  | .callOn owner name arguments, hcalls => by
      rw [Term.calls, List.forall_mem_cons] at hcalls
      exact ⟨hentry owner, hcalls.1.isSome_target hentry,
        Arguments.resolved hentry arguments hcalls.2⟩

theorem Arguments.resolved {σ : Scope} (hentry : forall name, (σ.entry name).isSome = true) :
    forall arguments : Arguments,
      (forall call, call ∈ arguments.calls -> σ.Tells call.1 call.2) -> arguments.Resolved σ
  | .nil, _ => trivial
  | .cons first rest, hcalls => by
      rw [Arguments.calls, List.forall_mem_append] at hcalls
      exact ⟨Expr.resolved hentry first hcalls.1, Arguments.resolved hentry rest hcalls.2⟩

end

theorem isSome_targetPlace {σ : Scope} {name : String} (h : σ.Known name) :
    (σ.targetPlace name).isSome = true := by
  unfold Scope.targetPlace
  rw [Option.isSome_map]
  exact h

mutual

theorem Statement.resolved {σ : Scope} (hentry : forall name, (σ.entry name).isSome = true) :
    forall s : Statement,
      (forall name, name ∈ s.targets -> σ.Known name) ->
      (forall call, call ∈ s.calls -> σ.Tells call.1 call.2) -> s.Resolved σ
  | .assign name value, htargets, hcalls =>
      ⟨isSome_targetPlace (htargets name List.mem_cons_self), value.resolved hentry hcalls⟩
  | .store name index value, htargets, hcalls => by
      rw [Statement.calls, List.forall_mem_append] at hcalls
      exact ⟨isSome_targetPlace (htargets name List.mem_cons_self),
        index.resolved hentry hcalls.1, value.resolved hentry hcalls.2⟩
  | .call _ arguments, _, hcalls => arguments.resolved hentry hcalls
  | .callOn owner _ arguments, _, hcalls => ⟨hentry owner, arguments.resolved hentry hcalls⟩
  | .leave, _, _ => trivial
  | .give value, _, hcalls => value.resolved hentry hcalls
  | .ifThen condition body, htargets, hcalls => by
      rw [Statement.calls, List.forall_mem_append] at hcalls
      exact ⟨condition.resolved hentry hcalls.1, Block.resolved hentry body htargets hcalls.2⟩
  | .ifElse condition body other, htargets, hcalls => by
      rw [Statement.calls, List.forall_mem_append, List.forall_mem_append] at hcalls
      rw [Statement.targets, List.forall_mem_append] at htargets
      exact ⟨condition.resolved hentry hcalls.1,
        Block.resolved hentry body htargets.1 hcalls.2.1,
        Block.resolved hentry other htargets.2 hcalls.2.2⟩
  | .loop condition body, htargets, hcalls => by
      rw [Statement.calls, List.forall_mem_append] at hcalls
      exact ⟨condition.resolved hentry hcalls.1, Block.resolved hentry body htargets hcalls.2⟩

theorem Block.resolved {σ : Scope} (hentry : forall name, (σ.entry name).isSome = true) :
    forall block : Block,
      (forall name, name ∈ block.targets -> σ.Known name) ->
      (forall call, call ∈ block.calls -> σ.Tells call.1 call.2) -> block.Resolved σ
  | .nil, _, _ => trivial
  | .cons first rest, htargets, hcalls => by
      rw [Block.targets, List.forall_mem_append] at htargets
      rw [Block.calls, List.forall_mem_append] at hcalls
      exact ⟨Statement.resolved hentry first htargets.1 hcalls.1,
        Block.resolved hentry rest htargets.2 hcalls.2⟩

end

/-!
# What classes ask for
-/

theorem hasTables_of_mem_placeAll {σ : Scope} {label : Nat} {subroutines : List Subroutine}
    {p : Placed} (hclass : σ.HasClass) (h : p ∈ placeAll σ label subroutines) :
    p.scope.locals.isSome = true ∧ p.scope.HasClass := by
  induction subroutines generalizing σ label with
  | nil => cases h
  | cons s rest ih =>
      cases h with
      | head => exact ⟨rfl, hclass.enter s⟩
      | tail _ h => exact ih (hclass.enter s) h

theorem Class.hasClass_scope (unit : Class) (σ : Scope) : (unit.scope σ).HasClass :=
  ⟨unit.name, unit.varTable, rfl, Bindings.get?_set_self _ _ _⟩

/-- In every subroutine the assignments go to names that have an entry, and the calls on
names can be told. -/
def Class.Clear (unit : Class) (σ : Scope) (label : Nat) : Prop :=
  forall p, p ∈ unit.placed σ label ->
    (forall name, name ∈ p.subroutine.body.block.targets -> p.scope.Known name) ∧
    (forall call, call ∈ p.subroutine.body.block.calls -> p.scope.Tells call.1 call.2)

instance (unit : Class) (σ : Scope) (label : Nat) : Decidable (unit.Clear σ label) :=
  inferInstanceAs (Decidable (forall p, p ∈ unit.placed σ label -> _ ∧ _))

theorem Class.Clear.resolved {unit : Class} {σ : Scope} {label : Nat} (h : unit.Clear σ label) :
    unit.Resolved σ label := by
  intro p hp
  rcases hasTables_of_mem_placeAll (unit.hasClass_scope σ) hp with ⟨hlocals, hclass⟩
  exact Block.resolved (Scope.isSome_entry hlocals hclass) _ (h p hp).1 (h p hp).2

end Syntax
end Jack
