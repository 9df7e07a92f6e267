import Jack.Compiler.Class

/-!
# Syntax trees

The constructs of the language as trees.  A tree is written with tokens, and it
is shown as marks: every construct that has a name is opened and closed around
its parts, and the tokens are the leaves.

A list of tokens belongs to a construct exactly if a tree of that construct is
written with it.
-/

namespace Jack

/-!
# Leaves of marks
-/

namespace Tree

/-- The tokens among some marks. -/
def leaves : List Mark -> List Token
  | [] => []
  | .leaf token :: rest => token :: leaves rest
  | .opening _ :: rest => leaves rest
  | .closing _ :: rest => leaves rest

@[simp] theorem leaves_append (first second : List Mark) :
    leaves (first ++ second) = leaves first ++ leaves second := by
  induction first with
  | nil => rfl
  | cons mark rest ih =>
      cases mark with
      | leaf token => simp [leaves, ih]
      | opening nonterminal => simpa [leaves] using ih
      | closing nonterminal => simpa [leaves] using ih

@[simp] theorem leaves_map_leaf (tokens : List Token) :
    leaves (tokens.map Mark.leaf) = tokens := by
  induction tokens with
  | nil => rfl
  | cons token rest ih => simp [leaves, ih]

/-- A construct opened and closed around its parts. -/
def enclose (nonterminal : Nonterminal) (parts : List Mark) : List Mark :=
  .opening nonterminal :: (parts ++ [.closing nonterminal])

@[simp] theorem leaves_enclose (nonterminal : Nonterminal) (parts : List Mark) :
    leaves (enclose nonterminal parts) = leaves parts := by
  simp [enclose, leaves]

end Tree

namespace Syntax

/-!
# Operators and constants
-/

inductive Binary where
  | add | sub | multiply | divide | and | or | less | greater | equal
  deriving DecidableEq, Repr

namespace Binary

def symbol : Binary -> Symbol
  | add => .plus
  | sub => .minus
  | multiply => .star
  | divide => .slash
  | and => .ampersand
  | or => .bar
  | less => .less
  | greater => .greater
  | equal => .equal

def code : Binary -> Instr
  | add => .operate .add
  | sub => .operate .sub
  | multiply => .call "Math.multiply" 2
  | divide => .call "Math.divide" 2
  | and => .operate .and
  | or => .operate .or
  | less => .operate .lt
  | greater => .operate .gt
  | equal => .operate .eq

theorem binary?_symbol (op : Binary) : Compile.binary? op.symbol = some op.code := by
  cases op <;> rfl

theorem exists_of_binary? {sign : Symbol} {instr : Instr}
    (h : Compile.binary? sign = some instr) :
    exists op : Binary, op.symbol = sign ∧ op.code = instr := by
  cases sign <;> cases h
  · exact ⟨add, rfl, rfl⟩
  · exact ⟨sub, rfl, rfl⟩
  · exact ⟨multiply, rfl, rfl⟩
  · exact ⟨divide, rfl, rfl⟩
  · exact ⟨and, rfl, rfl⟩
  · exact ⟨or, rfl, rfl⟩
  · exact ⟨less, rfl, rfl⟩
  · exact ⟨greater, rfl, rfl⟩
  · exact ⟨equal, rfl, rfl⟩

end Binary

inductive Unary where
  | negate | invert
  deriving DecidableEq, Repr

namespace Unary

def symbol : Unary -> Symbol
  | negate => .minus
  | invert => .tilde

def code : Unary -> Instr
  | negate => .operate .neg
  | invert => .operate .not

theorem unary?_symbol (op : Unary) : Compile.unary? op.symbol = some op.code := by
  cases op <;> rfl

theorem exists_of_unary? {sign : Symbol} {instr : Instr}
    (h : Compile.unary? sign = some instr) :
    exists op : Unary, op.symbol = sign ∧ op.code = instr := by
  cases sign <;> cases h
  · exact ⟨negate, rfl, rfl⟩
  · exact ⟨invert, rfl, rfl⟩

end Unary

inductive Constant where
  | true | false | null | this
  deriving DecidableEq, Repr

namespace Constant

def keyword : Constant -> Keyword
  | .true => .true
  | .false => .false
  | .null => .null
  | .this => .this

def code : Constant -> List Instr
  | .true => [.pushConstant 0, .operate .not]
  | .false => [.pushConstant 0]
  | .null => [.pushConstant 0]
  | .this => [.push (.pointer 0) none]

theorem constant?_keyword (value : Constant) :
    Compile.constant? value.keyword = some value.code := by
  cases value <;> rfl

theorem exists_of_constant? {word : Keyword} {code : List Instr}
    (h : Compile.constant? word = some code) :
    exists value : Constant, value.keyword = word ∧ value.code = code := by
  cases word <;> cases h
  · exact ⟨.true, rfl, rfl⟩
  · exact ⟨.false, rfl, rfl⟩
  · exact ⟨.null, rfl, rfl⟩
  · exact ⟨.this, rfl, rfl⟩

end Constant

/-!
# Expressions
-/

mutual

/-- A term and the operations on it, which apply from left to right. -/
inductive Expr where
  | mk (first : Term) (rest : Operations)

inductive Operations where
  | nil
  | cons (op : Binary) (operand : Term) (rest : Operations)

inductive Term where
  | integer (digits : String)
  | string (text : String)
  | constant (value : Constant)
  | paren (inner : Expr)
  | unary (op : Unary) (operand : Term)
  | var (name : String)
  | element (name : String) (index : Expr)
  | call (name : String) (arguments : Arguments)
  | callOn (owner name : String) (arguments : Arguments)

inductive Arguments where
  | nil
  | cons (first : Expr) (rest : Arguments)

end

mutual

def Expr.tokens : Expr -> List Token
  | .mk first rest => first.tokens ++ rest.tokens

def Operations.tokens : Operations -> List Token
  | .nil => []
  | .cons op operand rest => .symbol op.symbol :: (operand.tokens ++ rest.tokens)

def Term.tokens : Term -> List Token
  | .integer digits => [.integer digits]
  | .string text => [.string text]
  | .constant value => [.keyword value.keyword]
  | .paren inner => .symbol .leftParen :: (inner.tokens ++ [.symbol .rightParen])
  | .unary op operand => .symbol op.symbol :: operand.tokens
  | .var name => [.identifier name]
  | .element name index =>
      .identifier name :: .symbol .leftBracket :: (index.tokens ++ [.symbol .rightBracket])
  | .call name arguments =>
      .identifier name :: .symbol .leftParen :: (arguments.tokens ++ [.symbol .rightParen])
  | .callOn owner name arguments =>
      .identifier owner :: .symbol .dot :: .identifier name :: .symbol .leftParen ::
        (arguments.tokens ++ [.symbol .rightParen])

def Arguments.tokens : Arguments -> List Token
  | .nil => []
  | .cons first rest => first.tokens ++ rest.tokensAfterFirst

/-- Arguments with a comma before each of them. -/
def Arguments.tokensAfterFirst : Arguments -> List Token
  | .nil => []
  | .cons first rest => .symbol .comma :: (first.tokens ++ rest.tokensAfterFirst)

end

def Arguments.count : Arguments -> Nat
  | .nil => 0
  | .cons _ rest => rest.count + 1

/-!
The parts of a construct are the marks between its opening and its closing one.
-/

mutual

def Expr.parts : Expr -> List Tree.Mark
  | .mk first rest => Tree.enclose .term first.parts ++ rest.parts

def Operations.parts : Operations -> List Tree.Mark
  | .nil => []
  | .cons op operand rest =>
      .leaf (.symbol op.symbol) :: (Tree.enclose .term operand.parts ++ rest.parts)

def Term.parts : Term -> List Tree.Mark
  | .integer digits => [.leaf (.integer digits)]
  | .string text => [.leaf (.string text)]
  | .constant value => [.leaf (.keyword value.keyword)]
  | .paren inner =>
      .leaf (.symbol .leftParen) ::
        (Tree.enclose .expression inner.parts ++ [.leaf (.symbol .rightParen)])
  | .unary op operand => .leaf (.symbol op.symbol) :: Tree.enclose .term operand.parts
  | .var name => [.leaf (.identifier name)]
  | .element name index =>
      .leaf (.identifier name) :: .leaf (.symbol .leftBracket) ::
        (Tree.enclose .expression index.parts ++ [.leaf (.symbol .rightBracket)])
  | .call name arguments =>
      .leaf (.identifier name) :: .leaf (.symbol .leftParen) ::
        (Tree.enclose .expressionList arguments.parts ++ [.leaf (.symbol .rightParen)])
  | .callOn owner name arguments =>
      .leaf (.identifier owner) :: .leaf (.symbol .dot) :: .leaf (.identifier name) ::
        .leaf (.symbol .leftParen) ::
        (Tree.enclose .expressionList arguments.parts ++ [.leaf (.symbol .rightParen)])

def Arguments.parts : Arguments -> List Tree.Mark
  | .nil => []
  | .cons first rest => Tree.enclose .expression first.parts ++ rest.partsAfterFirst

def Arguments.partsAfterFirst : Arguments -> List Tree.Mark
  | .nil => []
  | .cons first rest =>
      .leaf (.symbol .comma) ::
        (Tree.enclose .expression first.parts ++ rest.partsAfterFirst)

end

def Expr.marks (e : Expr) : List Tree.Mark :=
  Tree.enclose .expression e.parts

def Term.marks (t : Term) : List Tree.Mark :=
  Tree.enclose .term t.parts

def Arguments.marks (arguments : Arguments) : List Tree.Mark :=
  Tree.enclose .expressionList arguments.parts

mutual

@[simp] theorem Expr.leaves_parts : forall e : Expr, Tree.leaves e.parts = e.tokens
  | .mk first rest => by
      simp [Expr.parts, Expr.tokens, Term.leaves_parts first, Operations.leaves_parts rest]

@[simp] theorem Operations.leaves_parts :
    forall rest : Operations, Tree.leaves rest.parts = rest.tokens
  | .nil => by simp [Operations.parts, Operations.tokens, Tree.leaves]
  | .cons op operand rest => by
      simp [Operations.parts, Operations.tokens, Tree.leaves, Term.leaves_parts operand,
        Operations.leaves_parts rest]

@[simp] theorem Term.leaves_parts : forall t : Term, Tree.leaves t.parts = t.tokens
  | .integer digits => by simp [Term.parts, Term.tokens, Tree.leaves]
  | .string text => by simp [Term.parts, Term.tokens, Tree.leaves]
  | .constant value => by simp [Term.parts, Term.tokens, Tree.leaves]
  | .paren inner => by
      simp [Term.parts, Term.tokens, Tree.leaves, Expr.leaves_parts inner]
  | .unary op operand => by
      simp [Term.parts, Term.tokens, Tree.leaves, Term.leaves_parts operand]
  | .var name => by simp [Term.parts, Term.tokens, Tree.leaves]
  | .element name index => by
      simp [Term.parts, Term.tokens, Tree.leaves, Expr.leaves_parts index]
  | .call name arguments => by
      simp [Term.parts, Term.tokens, Tree.leaves, Arguments.leaves_parts arguments]
  | .callOn owner name arguments => by
      simp [Term.parts, Term.tokens, Tree.leaves, Arguments.leaves_parts arguments]

@[simp] theorem Arguments.leaves_parts :
    forall arguments : Arguments, Tree.leaves arguments.parts = arguments.tokens
  | .nil => by simp [Arguments.parts, Arguments.tokens, Tree.leaves]
  | .cons first rest => by
      simp [Arguments.parts, Arguments.tokens, Expr.leaves_parts first,
        Arguments.leaves_partsAfterFirst rest]

@[simp] theorem Arguments.leaves_partsAfterFirst :
    forall arguments : Arguments,
      Tree.leaves arguments.partsAfterFirst = arguments.tokensAfterFirst
  | .nil => by simp [Arguments.partsAfterFirst, Arguments.tokensAfterFirst, Tree.leaves]
  | .cons first rest => by
      simp [Arguments.partsAfterFirst, Arguments.tokensAfterFirst, Tree.leaves,
        Expr.leaves_parts first, Arguments.leaves_partsAfterFirst rest]

end

/-!
# Statements
-/

mutual

inductive Statement where
  | assign (name : String) (value : Expr)
  | store (name : String) (index value : Expr)
  | call (name : String) (arguments : Arguments)
  | callOn (owner name : String) (arguments : Arguments)
  | leave
  | give (value : Expr)
  | ifThen (condition : Expr) (body : Block)
  | ifElse (condition : Expr) (body other : Block)
  | loop (condition : Expr) (body : Block)

/-- Statements in their order. -/
inductive Block where
  | nil
  | cons (first : Statement) (rest : Block)

end

mutual

def Statement.tokens : Statement -> List Token
  | .assign name value =>
      .keyword .«let» :: .identifier name :: .symbol .equal ::
        (value.tokens ++ [.symbol .semicolon])
  | .store name index value =>
      .keyword .«let» :: .identifier name :: .symbol .leftBracket ::
        (index.tokens ++ .symbol .rightBracket :: .symbol .equal ::
          (value.tokens ++ [.symbol .semicolon]))
  | .call name arguments =>
      .keyword .«do» :: .identifier name :: .symbol .leftParen ::
        (arguments.tokens ++ [.symbol .rightParen, .symbol .semicolon])
  | .callOn owner name arguments =>
      .keyword .«do» :: .identifier owner :: .symbol .dot :: .identifier name ::
        .symbol .leftParen ::
        (arguments.tokens ++ [.symbol .rightParen, .symbol .semicolon])
  | .leave => [.keyword .«return», .symbol .semicolon]
  | .give value => .keyword .«return» :: (value.tokens ++ [.symbol .semicolon])
  | .ifThen condition body =>
      .keyword .«if» :: .symbol .leftParen ::
        (condition.tokens ++ .symbol .rightParen :: .symbol .leftBrace ::
          (body.tokens ++ [.symbol .rightBrace]))
  | .ifElse condition body other =>
      .keyword .«if» :: .symbol .leftParen ::
        (condition.tokens ++ .symbol .rightParen :: .symbol .leftBrace ::
          (body.tokens ++ .symbol .rightBrace :: .keyword .«else» :: .symbol .leftBrace ::
            (other.tokens ++ [.symbol .rightBrace])))
  | .loop condition body =>
      .keyword .«while» :: .symbol .leftParen ::
        (condition.tokens ++ .symbol .rightParen :: .symbol .leftBrace ::
          (body.tokens ++ [.symbol .rightBrace]))

def Block.tokens : Block -> List Token
  | .nil => []
  | .cons first rest => first.tokens ++ rest.tokens

end

mutual

def Statement.marks : Statement -> List Tree.Mark
  | .assign name value =>
      Tree.enclose .letStatement
        (.leaf (.keyword .«let») :: .leaf (.identifier name) :: .leaf (.symbol .equal) ::
          (value.marks ++ [.leaf (.symbol .semicolon)]))
  | .store name index value =>
      Tree.enclose .letStatement
        (.leaf (.keyword .«let») :: .leaf (.identifier name) ::
          .leaf (.symbol .leftBracket) ::
          (index.marks ++ .leaf (.symbol .rightBracket) :: .leaf (.symbol .equal) ::
            (value.marks ++ [.leaf (.symbol .semicolon)])))
  | .call name arguments =>
      Tree.enclose .doStatement
        (.leaf (.keyword .«do») :: .leaf (.identifier name) ::
          .leaf (.symbol .leftParen) ::
          (arguments.marks ++ [.leaf (.symbol .rightParen), .leaf (.symbol .semicolon)]))
  | .callOn owner name arguments =>
      Tree.enclose .doStatement
        (.leaf (.keyword .«do») :: .leaf (.identifier owner) :: .leaf (.symbol .dot) ::
          .leaf (.identifier name) :: .leaf (.symbol .leftParen) ::
          (arguments.marks ++ [.leaf (.symbol .rightParen), .leaf (.symbol .semicolon)]))
  | .leave =>
      Tree.enclose .returnStatement
        [.leaf (.keyword .«return»), .leaf (.symbol .semicolon)]
  | .give value =>
      Tree.enclose .returnStatement
        (.leaf (.keyword .«return») :: (value.marks ++ [.leaf (.symbol .semicolon)]))
  | .ifThen condition body =>
      Tree.enclose .ifStatement
        (.leaf (.keyword .«if») :: .leaf (.symbol .leftParen) ::
          (condition.marks ++ .leaf (.symbol .rightParen) :: .leaf (.symbol .leftBrace) ::
            (Tree.enclose .statements body.parts ++ [.leaf (.symbol .rightBrace)])))
  | .ifElse condition body other =>
      Tree.enclose .ifStatement
        (.leaf (.keyword .«if») :: .leaf (.symbol .leftParen) ::
          (condition.marks ++ .leaf (.symbol .rightParen) :: .leaf (.symbol .leftBrace) ::
            (Tree.enclose .statements body.parts ++ .leaf (.symbol .rightBrace) ::
              .leaf (.keyword .«else») :: .leaf (.symbol .leftBrace) ::
              (Tree.enclose .statements other.parts ++ [.leaf (.symbol .rightBrace)]))))
  | .loop condition body =>
      Tree.enclose .whileStatement
        (.leaf (.keyword .«while») :: .leaf (.symbol .leftParen) ::
          (condition.marks ++ .leaf (.symbol .rightParen) :: .leaf (.symbol .leftBrace) ::
            (Tree.enclose .statements body.parts ++ [.leaf (.symbol .rightBrace)])))

def Block.parts : Block -> List Tree.Mark
  | .nil => []
  | .cons first rest => first.marks ++ rest.parts

end

def Block.marks (block : Block) : List Tree.Mark :=
  Tree.enclose .statements block.parts

mutual

@[simp] theorem Statement.leaves_marks :
    forall s : Statement, Tree.leaves s.marks = s.tokens
  | .assign name value => by
      simp [Statement.marks, Statement.tokens, Tree.leaves, Expr.marks]
  | .store name index value => by
      simp [Statement.marks, Statement.tokens, Tree.leaves, Expr.marks]
  | .call name arguments => by
      simp [Statement.marks, Statement.tokens, Tree.leaves, Arguments.marks]
  | .callOn owner name arguments => by
      simp [Statement.marks, Statement.tokens, Tree.leaves, Arguments.marks]
  | .leave => by simp [Statement.marks, Statement.tokens, Tree.leaves]
  | .give value => by
      simp [Statement.marks, Statement.tokens, Tree.leaves, Expr.marks]
  | .ifThen condition body => by
      simp [Statement.marks, Statement.tokens, Tree.leaves, Expr.marks,
        Block.leaves_parts body]
  | .ifElse condition body other => by
      simp [Statement.marks, Statement.tokens, Tree.leaves, Expr.marks,
        Block.leaves_parts body, Block.leaves_parts other]
  | .loop condition body => by
      simp [Statement.marks, Statement.tokens, Tree.leaves, Expr.marks,
        Block.leaves_parts body]

@[simp] theorem Block.leaves_parts :
    forall block : Block, Tree.leaves block.parts = block.tokens
  | .nil => by simp [Block.parts, Block.tokens, Tree.leaves]
  | .cons first rest => by
      simp [Block.parts, Block.tokens, Statement.leaves_marks first,
        Block.leaves_parts rest]

end

/-!
# Declarations
-/

inductive TypeName where
  | int | char | boolean
  | named (name : String)
  deriving DecidableEq, Repr

namespace TypeName

def token : TypeName -> Token
  | int => .keyword .int
  | char => .keyword .char
  | boolean => .keyword .boolean
  | named name => .identifier name

def word : TypeName -> String
  | int => "int"
  | char => "char"
  | boolean => "boolean"
  | named name => name

end TypeName

/-- Names of one type, at least one. -/
structure Names where
  type : TypeName
  first : String
  others : List String
  deriving DecidableEq, Repr

namespace Names

def all (names : Names) : List String :=
  names.first :: names.others

/-- The type, the names between commas and a semicolon. -/
def tokens (names : Names) : List Token :=
  names.type.token :: .identifier names.first ::
    (names.others.flatMap (fun name => [.symbol .comma, .identifier name]) ++
      [.symbol .semicolon])

end Names

/-- A declaration of static names or of fields. -/
structure ClassVar where
  isStatic : Bool
  names : Names
  deriving DecidableEq, Repr

namespace ClassVar

def tokens (v : ClassVar) : List Token :=
  .keyword (if v.isStatic then .static else .field) :: v.names.tokens

def marks (v : ClassVar) : List Tree.Mark :=
  Tree.enclose .classVarDec (v.tokens.map .leaf)

@[simp] theorem leaves_marks (v : ClassVar) : Tree.leaves v.marks = v.tokens := by
  simp [marks]

end ClassVar

/-- A declaration of local names. -/
structure LocalVar where
  names : Names
  deriving DecidableEq, Repr

namespace LocalVar

def tokens (v : LocalVar) : List Token :=
  .keyword .var :: v.names.tokens

def marks (v : LocalVar) : List Tree.Mark :=
  Tree.enclose .varDec (v.tokens.map .leaf)

@[simp] theorem leaves_marks (v : LocalVar) : Tree.leaves v.marks = v.tokens := by
  simp [marks]

end LocalVar

structure Parameter where
  type : TypeName
  name : String
  deriving DecidableEq, Repr

namespace Parameter

def tokens (p : Parameter) : List Token :=
  [p.type.token, .identifier p.name]

/-- Parameters between commas. -/
def listTokens : List Parameter -> List Token
  | [] => []
  | first :: others => first.tokens ++ others.flatMap fun p => .symbol .comma :: p.tokens

def listMarks (parameters : List Parameter) : List Tree.Mark :=
  Tree.enclose .parameterList ((listTokens parameters).map .leaf)

@[simp] theorem leaves_listMarks (parameters : List Parameter) :
    Tree.leaves (listMarks parameters) = listTokens parameters := by
  simp [listMarks]

end Parameter

/-!
# Subroutines and classes
-/

structure Body where
  vars : List LocalVar
  block : Block

namespace Body

def tokens (body : Body) : List Token :=
  .symbol .leftBrace ::
    (body.vars.flatMap LocalVar.tokens ++ (body.block.tokens ++ [.symbol .rightBrace]))

def marks (body : Body) : List Tree.Mark :=
  Tree.enclose .subroutineBody
    (.leaf (.symbol .leftBrace) ::
      (body.vars.flatMap LocalVar.marks ++
        (body.block.marks ++ [.leaf (.symbol .rightBrace)])))

end Body

inductive SubroutineKind where
  | constructor | function | method
  deriving DecidableEq, Repr

def SubroutineKind.keyword : SubroutineKind -> Keyword
  | .constructor => .constructor
  | .function => .function
  | .method => .method

/-- A subroutine without a type of result returns nothing. -/
structure Subroutine where
  kind : SubroutineKind
  result : Option TypeName
  name : String
  parameters : List Parameter
  body : Body

namespace Subroutine

def resultToken (s : Subroutine) : Token :=
  (s.result.map TypeName.token).getD (.keyword .void)

def tokens (s : Subroutine) : List Token :=
  .keyword s.kind.keyword :: s.resultToken :: .identifier s.name :: .symbol .leftParen ::
    (Parameter.listTokens s.parameters ++ .symbol .rightParen :: s.body.tokens)

def marks (s : Subroutine) : List Tree.Mark :=
  Tree.enclose .subroutineDec
    (.leaf (.keyword s.kind.keyword) :: .leaf s.resultToken :: .leaf (.identifier s.name) ::
      .leaf (.symbol .leftParen) ::
      (Parameter.listMarks s.parameters ++ .leaf (.symbol .rightParen) :: s.body.marks))

end Subroutine

structure Class where
  name : String
  vars : List ClassVar
  subroutines : List Subroutine

namespace Class

def tokens (unit : Class) : List Token :=
  .keyword .«class» :: .identifier unit.name :: .symbol .leftBrace ::
    (unit.vars.flatMap ClassVar.tokens ++
      (unit.subroutines.flatMap Subroutine.tokens ++ [.symbol .rightBrace]))

def marks (unit : Class) : List Tree.Mark :=
  Tree.enclose .«class»
    (.leaf (.keyword .«class») :: .leaf (.identifier unit.name) ::
      .leaf (.symbol .leftBrace) ::
      (unit.vars.flatMap ClassVar.marks ++
        (unit.subroutines.flatMap Subroutine.marks ++ [.leaf (.symbol .rightBrace)])))

end Class

/-!
The tokens of a tree are the leaves of its marks.
-/

theorem leaves_flatMap {α : Type} {marks : α -> List Tree.Mark} {tokens : α -> List Token}
    (h : forall a, Tree.leaves (marks a) = tokens a) (items : List α) :
    Tree.leaves (items.flatMap marks) = items.flatMap tokens := by
  induction items with
  | nil => rfl
  | cons item rest ih => simp [h, ih]

@[simp] theorem Body.leaves_marks (body : Body) : Tree.leaves body.marks = body.tokens := by
  simp [Body.marks, Body.tokens, Block.marks, Tree.leaves,
    leaves_flatMap LocalVar.leaves_marks]

@[simp] theorem Subroutine.leaves_marks (s : Subroutine) :
    Tree.leaves s.marks = s.tokens := by
  simp [Subroutine.marks, Subroutine.tokens, Tree.leaves]

@[simp] theorem Class.leaves_marks (unit : Class) : Tree.leaves unit.marks = unit.tokens := by
  simp [Class.marks, Class.tokens, Tree.leaves, leaves_flatMap ClassVar.leaves_marks,
    leaves_flatMap Subroutine.leaves_marks]

end Syntax
end Jack
