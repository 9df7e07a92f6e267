import Jack.Text.Digit
import Jack.Text.Markup

/-!
# Tokens

The words, signs and constants a Jack class is written with.  A token keeps the
text it was read from; what it stands for is computed from that text.
-/

namespace Jack

/-!
# Keywords
-/

inductive Keyword where
  | «class» | method | function | constructor
  | int | boolean | char | void
  | var | static | field
  | «let» | «do» | «if» | «else» | «while» | «return»
  | true | false | null | this
  deriving DecidableEq, Repr

namespace Keyword

def word : Keyword -> String
  | .«class» => "class"
  | .method => "method"
  | .function => "function"
  | .constructor => "constructor"
  | .int => "int"
  | .boolean => "boolean"
  | .char => "char"
  | .void => "void"
  | .var => "var"
  | .static => "static"
  | .field => "field"
  | .«let» => "let"
  | .«do» => "do"
  | .«if» => "if"
  | .«else» => "else"
  | .«while» => "while"
  | .«return» => "return"
  | .true => "true"
  | .false => "false"
  | .null => "null"
  | .this => "this"

def all : List Keyword :=
  [.«class», .method, .function, .constructor, .int, .boolean, .char, .void,
   .var, .static, .field, .«let», .«do», .«if», .«else», .«while», .«return»,
   .true, .false, .null, .this]

def ofWord? (word : String) : Option Keyword :=
  all.find? fun k => k.word == word

theorem mem_all (k : Keyword) : k ∈ all := by
  cases k <;> decide

theorem ofWord?_word (k : Keyword) : ofWord? k.word = some k := by
  cases k <;> decide

theorem word_injective {k l : Keyword} (h : k.word = l.word) : k = l := by
  have hk := ofWord?_word k
  rw [h, ofWord?_word] at hk
  exact (Option.some.inj hk).symm

end Keyword

/-!
# Symbols
-/

inductive Symbol where
  | leftBrace | rightBrace | leftParen | rightParen | leftBracket | rightBracket
  | dot | comma | semicolon
  | plus | minus | star | slash | ampersand | bar | less | greater | equal | tilde
  deriving DecidableEq, Repr

namespace Symbol

def char : Symbol -> Char
  | leftBrace => '\x7b'
  | rightBrace => '\x7d'
  | leftParen => '('
  | rightParen => ')'
  | leftBracket => '['
  | rightBracket => ']'
  | dot => '.'
  | comma => ','
  | semicolon => ';'
  | plus => '+'
  | minus => '-'
  | star => '*'
  | slash => '/'
  | ampersand => '&'
  | bar => '|'
  | less => '<'
  | greater => '>'
  | equal => '='
  | tilde => '~'

def all : List Symbol :=
  [leftBrace, rightBrace, leftParen, rightParen, leftBracket, rightBracket,
   dot, comma, semicolon, plus, minus, star, slash, ampersand, bar, less,
   greater, equal, tilde]

def ofChar? (c : Char) : Option Symbol :=
  all.find? fun s => s.char == c

/-- The symbol as it stands in markup and in messages. -/
def escaped (s : Symbol) : String :=
  Text.escape (String.singleton s.char)

theorem mem_all (s : Symbol) : s ∈ all := by
  cases s <;> decide

theorem ofChar?_char (s : Symbol) : ofChar? s.char = some s := by
  cases s <;> decide

theorem char_injective {s t : Symbol} (h : s.char = t.char) : s = t := by
  have hs := ofChar?_char s
  rw [h, ofChar?_char] at hs
  exact (Option.some.inj hs).symm

end Symbol

/-!
# Tokens
-/

/-- An integer constant keeps its digits as they were written, and a string
constant the text between its quotes. -/
inductive Token where
  | keyword (word : Keyword)
  | symbol (sign : Symbol)
  | identifier (name : String)
  | integer (digits : String)
  | string (text : String)
  deriving DecidableEq, Repr

namespace Token

inductive Kind where
  | keyword | symbol | identifier | integer | string
  deriving DecidableEq, Repr

/-- The number a kind of token goes by in messages. -/
def Kind.number : Kind -> Nat
  | .keyword => 1
  | .symbol => 2
  | .identifier => 3
  | .integer => 4
  | .string => 5

def kind : Token -> Kind
  | .keyword _ => .keyword
  | .symbol _ => .symbol
  | .identifier _ => .identifier
  | .integer _ => .integer
  | .string _ => .string

/-- The text a token was read from, without the quotes of a string. -/
def raw : Token -> String
  | .keyword k => k.word
  | .symbol s => String.singleton s.char
  | .identifier name => name
  | .integer digits => digits
  | .string text => text

/-- The number an integer constant stands for. -/
def integerValue (digits : String) : Nat :=
  Text.numeralValue digits.toList

/-- A token as it stands in markup: symbols and strings are escaped, and an
integer is written by its value. -/
def shown : Token -> String
  | .keyword k => k.word
  | .symbol s => s.escaped
  | .identifier name => name
  | .integer digits => toString (integerValue digits)
  | .string text => Text.escape text

end Token

end Jack
