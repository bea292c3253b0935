import Ember.Text.Blank
import Ember.Text.Padding
import Ember.Token.Basic

/-! A listing of tokens, one a line: where the token begins, what kind it is, and its text. -/
namespace Ember
set_option autoImplicit false

/-- Whether a listing is coloured, and whether it shows tokens as they stand in the source. -/
structure ListingStyle where
  color : Bool
  asSource : Bool
  deriving DecidableEq, Repr

namespace Mark

inductive Family
  | punctuation | assignment | comparison | logic | operator
  deriving DecidableEq, Repr

def family : Mark → Family
  | lParen | rParen | lBracket | rBracket | lBrace | rBrace | comma | colon | semicolon =>
    .punctuation
  | assign | declare => .assignment
  | eqEq | notEq | lt | ltEq | gt | gtEq => .comparison
  | andAnd | orOr | bang => .logic
  | plus | minus | star | slash | percent | starStar | amp | pipe | caret | tilde | shl | shr
  | dot => .operator

def Family.title : Family → String
  | punctuation => "PUNCT"
  | assignment => "ASSIGN"
  | comparison => "CMP"
  | logic => "LOGIC"
  | operator => "OP"

end Mark

namespace Token

def title : Token → String
  | newline => "NEWLINE"
  | comment _ => "COMMENT"
  | eof => "EOF"
  | integer _ => "INT"
  | float _ => "FLOAT"
  | string _ => "STRING"
  | ident _ => "IDENT"
  | mark m => m.family.title
  | keyword _ => "KEYWORD"

def resetColor : String := "\x1b[0m"

/-- The terminal sequence that sets the colour of a token. -/
def color : Token → String
  | newline | comment _ | eof => "\x1b[2m"
  | string _ => "\x1b[32m"
  | integer _ | float _ => "\x1b[36m"
  | ident _ => "\x1b[33m"
  | keyword k =>
    match k with
    | .true | .false | .nil => "\x1b[36m"
    | _ => "\x1b[34m"
  | mark m => if m.family == .punctuation then resetColor else "\x1b[35m"

def sourceText : Token → String
  | comment c => "// " ++ Text.trim c
  | newline => "\\n"
  | eof => "<eof>"
  | t => t.text

end Token

def Lexeme.line (style : ListingStyle) (t : Lexeme) : String :=
  let number := fun (n : Nat) => Text.padLeft '0' 2 (toString n)
  let text := if style.asSource then t.token.sourceText else t.token.label
  "[" ++ number t.span.line ++ ":" ++ number t.span.col ++ "] "
    ++ (if style.color then t.token.color else "")
    ++ Text.padRight ' ' 8 t.token.title ++ " " ++ text
    ++ (if style.color then Token.resetColor else "") ++ "\n"

def listTokens (style : ListingStyle) (ts : List Lexeme) : String :=
  ts.foldl (fun out t => out ++ t.line style) ""

end Ember
