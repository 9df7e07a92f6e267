import Jack.Proofs.Heights
import Jack.Proofs.Prologues
import Jack.Proofs.Undeclared

/-!
# Callers and callees

The calls in the code of a body are those that are written in the body, in order, with the
calls of the library that operators and strings stand for.  What is called depends on the
form of the call.  A call of a subroutine of the class itself meets the declaration of the
subroutine only in some of the forms.
-/

namespace Jack

open Compile

/-!
# Calls in code
-/

def Instr.call? : Instr -> Option (String × Nat)
  | .call name arguments => some (name, arguments)
  | _ => none

/-- The subroutines that are called, with the number of arguments, in the order of the
code. -/
def callees (code : List Instr) : List (String × Nat) :=
  code.filterMap Instr.call?

@[simp] theorem callees_nil : callees [] = [] := rfl

@[simp] theorem callees_append (first second : List Instr) :
    callees (first ++ second) = callees first ++ callees second := by
  simp [callees]

@[simp] theorem callees_cons (instr : Instr) (rest : List Instr) :
    callees (instr :: rest) = instr.call?.toList ++ callees rest := by
  cases h : instr.call? <;> simp [callees, h]

namespace Syntax

/-!
# Calls in trees
-/

/-- A call with the number of its arguments: of a name alone, or of a subroutine on a name,
each as a statement or in an expression.  The calls of the library are not written. -/
inductive CallSite where
  | alone (isStatement : Bool) (name : String) (arguments : Nat)
  | on (isStatement : Bool) (owner name : String) (arguments : Nat)
  | library (name : String) (arguments : Nat)
  deriving DecidableEq, Repr

/-- The calls of code that has no names. -/
def librarySites (code : List Instr) : List CallSite :=
  (callees code).map fun callee => .library callee.1 callee.2

mutual

/-- The calls in an expression, in the order in which they are made. -/
def Expr.sites : Expr -> List CallSite
  | .mk first rest => first.sites ++ rest.sites

def Operations.sites : Operations -> List CallSite
  | .nil => []
  | .cons op operand rest => operand.sites ++ (librarySites [op.code] ++ rest.sites)

def Term.sites : Term -> List CallSite
  | .integer _ => []
  | .string text => librarySites (stringCode (Text.escape text))
  | .constant _ => []
  | .paren inner => inner.sites
  | .unary _ operand => operand.sites
  | .var _ => []
  | .element _ index => index.sites
  | .call name arguments => arguments.sites ++ [.alone false name arguments.count]
  | .callOn owner name arguments => arguments.sites ++ [.on false owner name arguments.count]

def Arguments.sites : Arguments -> List CallSite
  | .nil => []
  | .cons first rest => first.sites ++ rest.sites

end

mutual

def Statement.sites : Statement -> List CallSite
  | .assign _ value => value.sites
  | .store _ index value => index.sites ++ value.sites
  | .call name arguments => arguments.sites ++ [.alone true name arguments.count]
  | .callOn owner name arguments => arguments.sites ++ [.on true owner name arguments.count]
  | .leave => []
  | .give value => value.sites
  | .ifThen condition body => condition.sites ++ body.sites
  | .ifElse condition body other => condition.sites ++ (body.sites ++ other.sites)
  | .loop condition body => condition.sites ++ body.sites

def Block.sites : Block -> List CallSite
  | .nil => []
  | .cons first rest => first.sites ++ rest.sites

end

end Syntax

open Syntax

/-- What is called by a call, and with how many arguments. -/
def Scope.callee (σ : Scope) : CallSite -> String × Nat
  | .alone true name arguments => (qualified σ.className (some name), arguments + 1)
  | .alone false name arguments => (name, arguments)
  | .on true owner name arguments =>
      let receiver := receiver owner (σ.entry owner).join
      (qualified receiver.1 (some name), arguments + (if receiver.2.isSome then 1 else 0))
  | .on false owner name arguments =>
      let target := (σ.target owner name).getD (some owner, 0)
      (qualified target.1 (some name), arguments + target.2)
  | .library name arguments => (name, arguments)

namespace Syntax

theorem map_callee_librarySites (σ : Scope) (code : List Instr) :
    (librarySites code).map σ.callee = callees code := by
  rw [librarySites, List.map_map]
  exact List.map_id _

theorem callees_toList_push (place : Option Place) (remark : Option String) :
    callees (place.map fun place => Instr.push place remark).toList = [] := by
  cases place <;> rfl

theorem callees_toList_pop (place : Option Place) :
    callees (place.map Instr.pop).toList = [] := by
  cases place <;> rfl

theorem callees_nameCode (σ : Scope) (name : String) : callees (σ.nameCode name) = [] :=
  callees_toList_push _ _

theorem callees_elementCode : callees elementCode = [] := rfl

theorem Unary.call?_code (op : Unary) : op.code.call? = none := by
  cases op <;> rfl

theorem Constant.callees_code (value : Constant) : callees value.code = [] := by
  cases value <;> rfl

mutual

theorem Expr.callees_code (σ : Scope) :
    forall e : Expr, callees (e.code σ) = e.sites.map σ.callee
  | .mk first rest => by
      rw [Expr.code, Expr.sites, callees_append, List.map_append, Term.callees_code σ first,
        Operations.callees_code σ rest]

theorem Operations.callees_code (σ : Scope) :
    forall rest : Operations, callees (rest.code σ) = rest.sites.map σ.callee
  | .nil => rfl
  | .cons op operand rest => by
      rw [Operations.code, Operations.sites, callees_append, List.map_append, List.map_append,
        map_callee_librarySites, Term.callees_code σ operand, callees_cons, callees_cons,
        callees_nil, List.append_nil, Operations.callees_code σ rest]

theorem Term.callees_code (σ : Scope) :
    forall t : Term, callees (t.code σ) = t.sites.map σ.callee
  | .integer _ => rfl
  | .string text => by
      rw [Term.code, Term.sites, map_callee_librarySites]
  | .constant value => by
      rw [Term.code, Term.sites, value.callees_code]
      rfl
  | .paren inner => by
      rw [Term.code, Term.sites, Expr.callees_code σ inner]
  | .unary op operand => by
      rw [Term.code, Term.sites, callees_append, callees_cons, op.call?_code,
        Term.callees_code σ operand]
      exact List.append_nil _
  | .var name => by
      rw [Term.code, Term.sites, callees_nameCode]
      rfl
  | .element name index => by
      rw [Term.code, Term.sites, callees_append, callees_append, callees_nameCode,
        callees_elementCode, Expr.callees_code σ index]
      exact List.append_nil _
  | .call name arguments => by
      rw [Term.code, Term.sites, callees_append, callees_append, callees_nameCode,
        Arguments.callees_code σ arguments, List.map_append]
      rfl
  | .callOn owner name arguments => by
      rw [Term.code, Term.sites, callees_append, callees_append, callees_nameCode,
        Arguments.callees_code σ arguments, List.map_append]
      rfl

theorem Arguments.callees_code (σ : Scope) :
    forall arguments : Arguments, callees (arguments.code σ) = arguments.sites.map σ.callee
  | .nil => rfl
  | .cons first rest => by
      rw [Arguments.code, Arguments.sites, callees_append, List.map_append,
        Expr.callees_code σ first, Arguments.callees_code σ rest]

end

theorem callees_callCode (σ : Scope) (subroutine : String) (object : Option Place)
    (arguments : Arguments) :
    callees (callCode σ subroutine object arguments) =
      arguments.sites.map σ.callee ++
        [(subroutine, arguments.count + (if object.isSome then 1 else 0))] := by
  rw [callCode, receiverCode, callees_append, callees_append, callees_toList_push,
    arguments.callees_code σ]
  rfl

/-!
Assignments, labels and jumps between the parts of a statement call nothing.
-/

mutual

theorem Statement.callees_code (σ : Scope) :
    forall (s : Statement) (label : Nat), callees (s.code σ label) = s.sites.map σ.callee
  | .assign name value, label => by
      rw [Statement.code, Statement.sites, callees_append, callees_toList_pop,
        value.callees_code σ, List.append_nil]
  | .store name index value, label => by
      simp [Statement.code, Statement.sites, index.callees_code σ, value.callees_code σ,
        callees_toList_push, storeCode, Instr.call?]
  | .call name arguments, label => by
      rw [Statement.code, Statement.sites, callees_callCode, List.map_append]
      rfl
  | .callOn owner name arguments, label => by
      rw [Statement.code, Statement.sites, callees_callCode, List.map_append]
      rfl
  | .leave, label => rfl
  | .give value, label => by
      simp [Statement.code, Statement.sites, value.callees_code σ, Instr.call?]
  | .ifThen condition body, label => by
      simp [Statement.code, Statement.sites, condition.callees_code σ,
        Block.callees_code σ body, Instr.call?]
  | .ifElse condition body other, label => by
      simp [Statement.code, Statement.sites, condition.callees_code σ,
        Block.callees_code σ body, Block.callees_code σ other, Instr.call?]
  | .loop condition body, label => by
      simp [Statement.code, Statement.sites, condition.callees_code σ,
        Block.callees_code σ body, Instr.call?]

theorem Block.callees_code (σ : Scope) :
    forall (block : Block) (label : Nat), callees (block.code σ label) = block.sites.map σ.callee
  | .nil, label => rfl
  | .cons first rest, label => by
      rw [Block.code, Block.sites, callees_append, List.map_append,
        Statement.callees_code σ first, Block.callees_code σ rest]

end

end Syntax

/-!
# Calls that are told
-/

namespace Scope

/-- It can be told what a call in an expression calls. -/
def Finds (σ : Scope) : CallSite -> Prop
  | .on false owner name _ => (σ.target owner name).isSome = true
  | _ => True

theorem target_eq_of_not_callsMethod {σ : Scope} {owner name : String}
    {callee : Option String × Nat} (h : σ.target owner name = some callee)
    (hmethod : ¬ σ.CallsMethod owner name) : callee = (some owner, 0) := by
  unfold target callTarget at h
  rcases (answer_bind_eq_some_iff (asks_subroutineEntry _ _)).mp h with ⟨found, hfound, hrest⟩
  cases found with
  | none =>
      cases hrest
      rfl
  | some e =>
      by_cases htype : e.type = some "method"
      · exact absurd ⟨e, hfound, htype⟩ hmethod
      · simp only [htype, if_false] at hrest
        cases hrest
        rfl

/-- A method that is called on a name without an entry cannot be told. -/
theorem not_callsMethod_of_not_known {σ : Scope} {owner name : String}
    (h : (σ.target owner name).isSome = true) (hknown : ¬ σ.Known owner) :
    ¬ σ.CallsMethod owner name := by
  rintro ⟨e, hentry, htype⟩
  rcases Option.isSome_iff_exists.mp h with ⟨callee, hcallee⟩
  unfold target callTarget at hcallee
  rcases (answer_bind_eq_some_iff (asks_subroutineEntry _ _)).mp hcallee with
    ⟨found, hfound, hrest⟩
  cases Option.some.inj (hfound.symm.trans hentry)
  simp only [htype, if_true] at hrest
  rcases (answer_bind_eq_some_iff (asks_entry _)).mp hrest with ⟨holder, hholder, hrest⟩
  rcases (answer_bind_eq_some_iff (asks_typeOf holder)).mp hrest with ⟨type, hanswer, _⟩
  cases holder with
  | some e =>
      have howner : σ.entry owner = some (some e) := hholder
      apply hknown
      rw [Known, howner]
      rfl
  | none => cases hanswer

end Scope

namespace Syntax

theorem finds_librarySites (σ : Scope) (code : List Instr) :
    forall site, site ∈ librarySites code -> σ.Finds site :=
  List.forall_mem_map.mpr fun _ _ => trivial

theorem finds_append_singleton {σ : Scope} {sites : List CallSite} {last : CallSite}
    (h : forall site, site ∈ sites -> σ.Finds site) (hlast : σ.Finds last) :
    forall site, site ∈ sites ++ [last] -> σ.Finds site :=
  List.forall_mem_append.mpr ⟨h, List.forall_mem_singleton.mpr hlast⟩

mutual

theorem Expr.finds {σ : Scope} : forall e : Expr, e.Resolved σ ->
    forall site, site ∈ e.sites -> σ.Finds site
  | .mk first rest, h =>
      List.forall_mem_append.mpr ⟨Term.finds first h.1, Operations.finds rest h.2⟩

theorem Operations.finds {σ : Scope} : forall rest : Operations, rest.Resolved σ ->
    forall site, site ∈ rest.sites -> σ.Finds site
  | .nil, _ => List.forall_mem_nil _
  | .cons _ operand rest, h =>
      List.forall_mem_append.mpr ⟨Term.finds operand h.1,
        List.forall_mem_append.mpr ⟨finds_librarySites σ _, Operations.finds rest h.2⟩⟩

theorem Term.finds {σ : Scope} : forall t : Term, t.Resolved σ ->
    forall site, site ∈ t.sites -> σ.Finds site
  | .integer _, _ => List.forall_mem_nil _
  | .string _, _ => finds_librarySites σ _
  | .constant _, _ => List.forall_mem_nil _
  | .paren inner, h => Expr.finds inner h
  | .unary _ operand, h => Term.finds operand h
  | .var _, _ => List.forall_mem_nil _
  | .element _ index, h => Expr.finds index h.2
  | .call _ arguments, h => finds_append_singleton (Arguments.finds arguments h.2) trivial
  | .callOn _ _ arguments, h => finds_append_singleton (Arguments.finds arguments h.2.2) h.2.1

theorem Arguments.finds {σ : Scope} : forall arguments : Arguments, arguments.Resolved σ ->
    forall site, site ∈ arguments.sites -> σ.Finds site
  | .nil, _ => List.forall_mem_nil _
  | .cons first rest, h =>
      List.forall_mem_append.mpr ⟨Expr.finds first h.1, Arguments.finds rest h.2⟩

end

mutual

theorem Statement.finds {σ : Scope} : forall s : Statement, s.Resolved σ ->
    forall site, site ∈ s.sites -> σ.Finds site
  | .assign _ value, h => value.finds h.2
  | .store _ index value, h => List.forall_mem_append.mpr ⟨index.finds h.2.1, value.finds h.2.2⟩
  | .call _ arguments, h => finds_append_singleton (arguments.finds h) trivial
  | .callOn _ _ arguments, h => finds_append_singleton (arguments.finds h.2) trivial
  | .leave, _ => List.forall_mem_nil _
  | .give value, h => value.finds h
  | .ifThen condition body, h =>
      List.forall_mem_append.mpr ⟨condition.finds h.1, Block.finds body h.2⟩
  | .ifElse condition body other, h =>
      List.forall_mem_append.mpr ⟨condition.finds h.1,
        List.forall_mem_append.mpr ⟨Block.finds body h.2.1, Block.finds other h.2.2⟩⟩
  | .loop condition body, h =>
      List.forall_mem_append.mpr ⟨condition.finds h.1, Block.finds body h.2⟩

theorem Block.finds {σ : Scope} : forall block : Block, block.Resolved σ ->
    forall site, site ∈ block.sites -> σ.Finds site
  | .nil, _ => List.forall_mem_nil _
  | .cons first rest, h =>
      List.forall_mem_append.mpr ⟨Statement.finds first h.1, Block.finds rest h.2⟩

end

/-!
# Calls of subroutines of the class
-/

namespace CallSite

def arguments : CallSite -> Nat
  | alone _ _ arguments => arguments
  | on _ _ _ arguments => arguments
  | library _ arguments => arguments

def owner? : CallSite -> Option String
  | alone _ _ _ => none
  | on _ owner _ _ => some owner
  | library _ _ => none

/-- The call is meant for a subroutine of the class of a given name.  A method is not called
on the class. -/
def IsFor (className : String) (s : Subroutine) : CallSite -> Prop
  | alone _ name _ => name = s.name
  | on _ owner name _ => owner = className ∧ name = s.name ∧ s.kind ≠ .method
  | library _ _ => False

/-- The forms of a call that meet the declaration of the subroutine.  A statement without an
owner passes the object at hand, and an expression without an owner calls no subroutine of
the class. -/
def Meets (σ : Scope) (s : Subroutine) : CallSite -> Prop
  | alone true _ _ => s.kind = .method
  | alone false _ _ => False
  | on true owner _ _ => ¬ σ.Known owner
  | on false owner name _ => ¬ σ.CallsMethod owner name
  | library _ _ => False

end CallSite

theorem length_lt_qualified (className name : String) :
    name.length < (className ++ "." ++ name).length := by
  have hdot : ".".length = 1 := rfl
  rw [String.length_append, String.length_append, hdot]
  omega

section

variable {unit : Class} {σ : Scope} {label : Nat} {before after : List Placed} {p : Placed}
  {s : Subroutine}

theorem Class.className_of_placed (h : unit.placed σ label = before ++ p :: after) :
    p.scope.className = some unit.name :=
  (placeAll_split rfl (Bindings.get?_set_self _ _ _) h).2.1

theorem Subroutine.arity_of_ne_method (h : s.kind ≠ .method) :
    s.arity = s.parameters.length := by
  rw [Subroutine.arity, if_neg h, Nat.add_zero]

/-- A call of a subroutine of the class, with as many arguments as the subroutine has
parameters, calls the subroutine with as many arguments as it gets just if its form meets the
declaration. -/
theorem Class.callee_eq_iff (h : unit.placed σ label = before ++ p :: after) {site : CallSite}
    (hfinds : p.scope.Finds site) (hfor : site.IsFor unit.name s)
    (hcount : site.arguments = s.parameters.length) :
    p.scope.callee site = (unit.name ++ "." ++ s.name, s.arity) ↔ site.Meets p.scope s := by
  cases site with
  | alone isStatement name count =>
      cases hfor
      cases isStatement with
      | true =>
          have hcount : count = s.parameters.length := hcount
          rw [Scope.callee, Class.className_of_placed h, CallSite.Meets, Prod.mk.injEq,
            Subroutine.arity, hcount]
          by_cases hkind : s.kind = .method
          · rw [if_pos hkind]
            exact iff_of_true ⟨rfl, rfl⟩ hkind
          · rw [if_neg hkind]
            exact iff_of_false (fun hsame => absurd hsame.2 (Nat.succ_ne_self _)) hkind
      | false =>
          -- the name of the class is missing, so the names have different lengths
          refine iff_of_false (fun hsame => ?_) id
          have hname : s.name = unit.name ++ "." ++ s.name := congrArg Prod.fst hsame
          exact absurd (congrArg String.length hname)
            (Nat.ne_of_lt (length_lt_qualified unit.name s.name))
  | on isStatement owner name count =>
      rcases hfor with ⟨rfl, rfl, hkind⟩
      have hcount : count = s.parameters.length := hcount
      rw [Subroutine.arity_of_ne_method hkind, ← hcount]
      cases isStatement with
      | true =>
          have hobject := (Class.ordinary_of_placed h).object_receiver unit.name
          by_cases hknown : p.scope.Known unit.name
          -- an object is passed to a subroutine that gets none
          · have hplace : (p.scope.targetPlace unit.name).isSome = true := isSome_targetPlace hknown
            refine iff_of_false (fun hsame => ?_) (not_not_intro hknown)
            rw [Scope.callee, hobject, if_pos hplace] at hsame
            exact absurd (congrArg Prod.snd hsame) (Nat.succ_ne_self count)
          · have hnone : (p.scope.entry unit.name).join = none :=
              Option.not_isSome_iff_eq_none.mp hknown
            rw [Scope.callee, hnone]
            exact iff_of_true rfl hknown
      | false =>
          rcases Option.isSome_iff_exists.mp hfinds with ⟨callee, hcallee⟩
          by_cases hmethod : p.scope.CallsMethod unit.name s.name
          · refine iff_of_false (fun hsame => ?_) (not_not_intro hmethod)
            rcases Scope.target_count hcallee with ⟨_, hone⟩ | ⟨hnot, _⟩
            · rw [Scope.callee, hcallee, Option.getD_some, hone] at hsame
              exact absurd (congrArg Prod.snd hsame) (Nat.succ_ne_self count)
            · exact hnot hmethod
          · rw [Scope.callee, hcallee, Option.getD_some,
              Scope.target_eq_of_not_callsMethod hcallee hmethod]
            exact iff_of_true rfl hmethod
  | library name count => cases hfor

/-- A call on the name of the class meets the declaration if nothing else has the name. -/
theorem CallSite.meets_of_not_known {site : CallSite} {className : String}
    (hfinds : σ.Finds site) (howner : site.owner? = some className)
    (hknown : ¬ σ.Known className) : site.Meets σ s := by
  cases site with
  | alone => cases howner
  | on isStatement owner name count =>
      cases howner
      cases isStatement with
      | true => exact hknown
      | false => exact Scope.not_callsMethod_of_not_known hfinds hknown
  | library => cases howner

end

end Syntax

/-- The calls in the code of an accepted class are those of its bodies.  Let a call of a
subroutine of the class have as many arguments as the subroutine has parameters.  Then the
subroutine is called with as many arguments as it gets just if the form of the call meets the
declaration: a statement without an owner if the subroutine is a method, and an expression
without an owner never.  A call on the name of the class does, unless a variable or a
subroutine has that name. -/
theorem calls_meet_declarations_iff {c : Compiler} {text : String}
    (h : (c.compile text).fault = none) :
    exists unit : Syntax.Class, unit.WrittenIn (tokenize text).1 ∧
      (c.compile text).written =
        some ((unit.placed c.scope c.labels).flatMap (Placed.block unit.name unit.size),
          Tree.linesFrom 0 unit.marks) ∧
      forall before p after begun, unit.placed c.scope c.labels = before ++ p :: after ->
        begun = before.map Placed.subroutine ++ [p.subroutine] ->
        callees (p.subroutine.body.block.code p.scope p.label) =
            p.subroutine.body.block.sites.map p.scope.callee ∧
          forall site, site ∈ p.subroutine.body.block.sites ->
            forall s, s ∈ unit.subroutines -> site.IsFor unit.name s ->
              site.arguments = s.parameters.length ->
              (p.scope.callee site = (unit.name ++ "." ++ s.name, s.arity) ↔
                  site.Meets p.scope s) ∧
                (site.owner? = some unit.name -> unit.locate p.subroutine unit.name = none ->
                  unit.name ∉ begun.map Subroutine.name -> site.Meets p.scope s) := by
  rcases Compiler.exists_resolved_of_compile h with ⟨unit, htokens, hresolved, hwritten, _⟩
  rw [Class.code_eq_blocks htokens] at hwritten
  refine ⟨unit, htokens, hwritten, ?_⟩
  intro before p after begun hplaced hbegun
  refine ⟨Block.callees_code p.scope _ _, ?_⟩
  intro site hsite s _ hfor hcount
  have hfinds := Block.finds _ (hresolved.of_placed hplaced) site hsite
  refine ⟨Class.callee_eq_iff hplaced hfinds hfor hcount, ?_⟩
  intro howner hlocate hfree
  refine CallSite.meets_of_not_known hfinds howner ?_
  rw [Class.known_of_placed hplaced hbegun, not_or, not_not]
  exact ⟨hlocate, hfree⟩

/-- A class that calls its own subroutines in the forms that meet the declarations. -/
def Syntax.Class.recursive : Syntax.Class where
  name := "Loop"
  vars := []
  subroutines :=
    [⟨.method, none, "show", [⟨.int, "step"⟩],
       ⟨[], .cons (.call "show" (.cons (.mk (.callOn "Loop" "zero" .nil) .nil) .nil))
         (.cons (.callOn "Loop" "zero" .nil) (.cons .leave .nil))⟩⟩,
     ⟨.function, some .int, "zero", [], ⟨[], .cons (.give (.mk (.integer "0") .nil)) .nil⟩⟩]

theorem Syntax.Class.isLexeme_recursive :
    forall token, token ∈ Syntax.Class.recursive.tokens -> token.IsLexeme := by
  decide +kernel

theorem Syntax.Class.clear_recursive :
    Syntax.Class.recursive.Clear ({} : Compiler).scope ({} : Compiler).labels := by
  decide +kernel

theorem calls_meet_declarations_of_recursive :
    (({} : Compiler).compile Syntax.Class.recursive.text).fault = none ∧
      Syntax.Class.recursive.subroutines.map (fun s => s.body.block.sites) =
        [[.on false "Loop" "zero" 0, .alone true "show" 1, .on true "Loop" "zero" 0], []] ∧
      forall before p after,
        Syntax.Class.recursive.placed ({} : Compiler).scope ({} : Compiler).labels =
            before ++ p :: after ->
          forall site, site ∈ p.subroutine.body.block.sites ->
            forall s, s ∈ Syntax.Class.recursive.subroutines -> site.IsFor "Loop" s ->
              site.arguments = s.parameters.length ->
              (p.scope.callee site = ("Loop" ++ "." ++ s.name, s.arity) ↔
                site.Meets p.scope s) := by
  have htokens := Token.tokenize_print Syntax.Class.isLexeme_recursive
  rcases Compiler.compile_of_resolved htokens Syntax.Class.clear_recursive.resolved with
    ⟨hfault, hrecursive⟩
  rcases calls_meet_declarations_iff hfault with ⟨unit, _, hunit, hcalls⟩
  cases Class.eq_of_written hunit hrecursive
  refine ⟨hfault, by decide, ?_⟩
  intro before p after hplaced site hsite s hs hfor hcount
  exact ((hcalls before p after _ hplaced rfl).2 site hsite s hs hfor hcount).1

/-- A class with a method that returns its own value. -/
def Syntax.Class.unqualified : Syntax.Class where
  name := "A"
  vars := []
  subroutines :=
    [⟨.method, some .int, "g", [], ⟨[], .cons (.give (.mk (.call "g" .nil) .nil)) .nil⟩⟩]

def unqualifiedText : String :=
  "class A \x7b method int g() \x7b return g(); \x7d \x7d"

/-- The method calls no subroutine of its class, and it passes no object. -/
theorem method_called_without_class :
    (tokenize unqualifiedText).1 = Syntax.Class.unqualified.tokens ∧
      Syntax.Class.unqualified.subroutines.map (fun s => (s.name, s.arity, s.body.block.sites)) =
        [("g", 1, [.alone false "g" 0])] ∧
      (({} : Compiler).compile unqualifiedText).fault = none ∧
      (({} : Compiler).compile unqualifiedText).written.map Prod.fst =
        some [.function "A.g" 0, .push (.argument 0) none, .pop (.pointer 0), .call "g" 0,
          .ret] := by
  decide +kernel

end Jack
