import Ember.Decimal.Layout
import Ember.Text.Quoted

/-! Tokens of the source text, and where each begins. -/
namespace Ember
set_option autoImplicit false

/-! ## Positions -/

/-- Line and column, both from one; columns count characters. -/
structure Span where
  line : Nat
  col : Nat
  deriving DecidableEq, Repr, Inhabited

namespace Span

def start : Span := ⟨1, 1⟩

/-- The position `n` characters further on the same line. -/
def along (s : Span) (n : Nat) : Span := ⟨s.line, s.col + n⟩

/-- The position after a line break. -/
def nextLine (s : Span) : Span := ⟨s.line + 1, 1⟩

def text (s : Span) : String := toString s.line ++ ":" ++ toString s.col

end Span

/-! ## Tokens -/

inductive Keyword
  | var | func | return | if | else | while | break | continue | true | false | nil | print | del
  deriving DecidableEq, Repr

namespace Keyword

def all : List Keyword :=
  [var, func, «return», «if», «else», «while», «break», «continue», «true», «false», nil, print,
    del]

def text : Keyword → String
  | var => "var" | func => "func" | «return» => "return" | «if» => "if" | «else» => "else"
  | «while» => "while" | «break» => "break" | «continue» => "continue" | «true» => "true"
  | «false» => "false" | nil => "nil" | print => "print" | del => "del"

def label : Keyword → String
  | var => "Var" | func => "Func" | «return» => "Return" | «if» => "If" | «else» => "Else"
  | «while» => "While" | «break» => "Break" | «continue» => "Continue" | «true» => "True"
  | «false» => "False" | nil => "Nil" | print => "Print" | del => "Del"

def ofText? (s : String) : Option Keyword := all.find? (·.text == s)

end Keyword

/-- Delimiters and operators. -/
inductive Mark
  | lParen | rParen | lBracket | rBracket | lBrace | rBrace | comma | colon | semicolon | dot
  | assign | declare
  | plus | minus | star | slash | percent | starStar
  | amp | pipe | caret | tilde | shl | shr
  | bang | andAnd | orOr
  | eqEq | notEq | lt | ltEq | gt | gtEq
  deriving DecidableEq, Repr

namespace Mark

def text : Mark → String
  | lParen => "(" | rParen => ")" | lBracket => "[" | rBracket => "]" | lBrace => "\x7b"
  | rBrace => "\x7d" | comma => "," | colon => ":" | semicolon => ";" | dot => "."
  | assign => "=" | declare => ":=" | plus => "+" | minus => "-" | star => "*" | slash => "/"
  | percent => "%" | starStar => "**" | amp => "&" | pipe => "|" | caret => "^" | tilde => "~"
  | shl => "<<" | shr => ">>" | bang => "!" | andAnd => "&&" | orOr => "||" | eqEq => "=="
  | notEq => "!=" | lt => "<" | ltEq => "<=" | gt => ">" | gtEq => ">="

def label : Mark → String
  | lParen => "LParen" | rParen => "RParen" | lBracket => "LBracket" | rBracket => "RBracket"
  | lBrace => "LBrace" | rBrace => "RBrace" | comma => "Comma" | colon => "Colon"
  | semicolon => "Semicolon" | dot => "Dot" | assign => "Assign" | declare => "Declare"
  | plus => "Plus" | minus => "Minus" | star => "Star" | slash => "Slash" | percent => "Percent"
  | starStar => "StarStar" | amp => "Amp" | pipe => "Pipe" | caret => "Caret" | tilde => "Tilde"
  | shl => "Shl" | shr => "Shr" | bang => "Bang" | andAnd => "AndAnd" | orOr => "OrOr"
  | eqEq => "EqEq" | notEq => "NotEq" | lt => "Lt" | ltEq => "LtEq" | gt => "Gt" | gtEq => "GtEq"

end Mark

inductive Token
  /-- The magnitude, below 2^64; a sign before it is a token of its own. -/
  | integer (n : Nat)
  | float (x : Float)
  | string (s : String)
  | keyword (k : Keyword)
  | mark (m : Mark)
  | ident (name : String)
  | comment (text : String)
  | newline
  | eof
  deriving Inhabited

namespace Token

/-- The token as it stands in source text, except that a text is not escaped. -/
def text : Token → String
  | integer n => toString n
  | float x => Decimal.bare.float x
  | string s => "\"" ++ s ++ "\""
  | keyword k => k.text
  | mark m => m.text
  | ident name => name
  | comment c => "// " ++ c
  | newline => "\\n"
  | eof => "EOF"

/-- The token as its kind with what it carries. -/
def label : Token → String
  | integer n => "Integer(" ++ toString n ++ ")"
  | float x => "Float(" ++ Decimal.shown.float x ++ ")"
  | string s => "String(" ++ Text.quote s ++ ")"
  | keyword k => k.label
  | mark m => m.label
  | ident name => "Ident(" ++ Text.quote name ++ ")"
  | comment c => "Comment(" ++ Text.quote c ++ ")"
  | newline => "Newline"
  | eof => "Eof"

end Token

/-- A token and where it begins. -/
structure Lexeme where
  token : Token
  span : Span
  deriving Inhabited

end Ember
