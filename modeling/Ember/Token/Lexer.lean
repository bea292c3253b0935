import Ember.Decimal.Reader
import Ember.Text.Blank
import Ember.Text.Letter
import Ember.Token.Basic

/-! Splitting source text into tokens. `scan` reads one token and says how many characters after the
first belong to it, so that each token takes at least one character and reading ends. Blanks, tabs
and carriage returns divide tokens; line breaks and comments are tokens themselves. -/
namespace Ember
set_option autoImplicit false

/-! ## Errors -/

inductive LexFault
  | unknownEscape (c : Char)
  | escapeAtEnd
  | lineBreakInString
  | unterminatedString
  | noHexDigits
  | hexTooLarge (digits : String)
  | integerTooLarge (digits : String)
  | unexpectedCharacter (c : Char)
  deriving DecidableEq, Repr

namespace LexFault

def message : LexFault → String
  | unknownEscape c => "unknown escape sequence: \\" ++ String.singleton c
  | escapeAtEnd => "unexpected EOF in escape sequence"
  | lineBreakInString => "unterminated string (newline before closing quote)"
  | unterminatedString => "unterminated string literal"
  | noHexDigits => "expected hex digits after 0x"
  | hexTooLarge digits => "invalid hex number: 0x" ++ digits
  | integerTooLarge digits => "invalid integer: " ++ digits
  | unexpectedCharacter c => "unexpected character: '" ++ String.singleton c ++ "'"

end LexFault

structure LexError where
  fault : LexFault
  span : Span
  deriving DecidableEq, Repr

def LexError.message (e : LexError) : String := e.span.text ++ ": " ++ e.fault.message

/-! ## Single tokens

Each reader answers with what it read and how many characters it took, or with a fault and how far
from the start of the token it lies. -/

abbrev Scan (α : Type) : Type := Except (LexFault × Nat) (α × Nat)

def escape? : Char → Option Char
  | 'n' => some '\n'
  | 't' => some '\t'
  | 'r' => some '\r'
  | '\\' => some '\\'
  | '"' => some '"'
  | '0' => some (Char.ofNat 0)
  | _ => none

/-- The rest of a text after its opening quote; `taken` characters of it were read before, and
`found` holds what they stand for, last first. -/
def scanString : List Char → Nat → List Char → Scan String
  | [], _, _ => .error (.unterminatedString, 0)
  | '"' :: _, taken, found => .ok (String.ofList found.reverse, taken + 1)
  | '\\' :: [], taken, _ => .error (.escapeAtEnd, taken + 2)
  | '\\' :: c :: rest, taken, found =>
    match escape? c with
    | some d => scanString rest (taken + 2) (d :: found)
    | none => .error (.unknownEscape c, taken + 2)
  | c :: rest, taken, found =>
    if c == '\n' then .error (.lineBreakInString, 0)
    else scanString rest (taken + 1) (c :: found)

def isHexDigit (c : Char) : Bool :=
  c.isDigit || ('a' ≤ c && c ≤ 'f') || ('A' ≤ c && c ≤ 'F')

def hexValue (c : Char) : Nat :=
  if c.isDigit then c.toNat - 48 else if 'a' ≤ c then c.toNat - 87 else c.toNat - 55

/-- The number of values of a 64-bit word. -/
def wordSize : Nat := 18446744073709551616

def fitsWord (n : Nat) : Bool := n < wordSize

/-- Hexadecimal digits after their mark. -/
def scanHex (cs : List Char) : Scan Token :=
  let digits := cs.takeWhile isHexDigit
  let value := digits.foldl (fun n c => if fitsWord n then n * 16 + hexValue c else n) 0
  if digits.isEmpty then .error (.noHexDigits, 0)
  else if fitsWord value then .ok (.integer value, digits.length)
  else .error (.hexTooLarge (String.ofList digits), 0)

/-- The digits after a point that follows a whole number; a point without digits is no part of the
number. -/
def fractionDigits : List Char → List Char
  | '.' :: rest => rest.takeWhile Char.isDigit
  | _ => []

/-- A decimal number. -/
def scanDecimal (cs : List Char) : Scan Token :=
  let whole := cs.takeWhile Char.isDigit
  let fraction := fractionDigits (cs.drop whole.length)
  if fraction.isEmpty then
    let value := Decimal.cappedValue wordSize whole
    if fitsWord value then .ok (.integer value, whole.length)
    else .error (.integerTooLarge (String.ofList whole), 0)
  else
    .ok (.float (Decimal.nearestTo (whole ++ fraction) (-(fraction.length : Int))),
      whole.length + 1 + fraction.length)

def isNameStart (c : Char) : Bool := Text.isAlphabetic c || c == '_'

def isNamePart (c : Char) : Bool := Text.isAlphanumeric c || c == '_'

def wordToken (name : String) : Token :=
  match Keyword.ofText? name with
  | some k => .keyword k
  | none => .ident name

def pairMark? (c d : Char) : Option Mark :=
  match c, d with
  | '*', '*' => some .starStar
  | '=', '=' => some .eqEq
  | '!', '=' => some .notEq
  | '<', '=' => some .ltEq
  | '>', '=' => some .gtEq
  | '<', '<' => some .shl
  | '>', '>' => some .shr
  | '&', '&' => some .andAnd
  | '|', '|' => some .orOr
  | ':', '=' => some .declare
  | _, _ => none

def singleMark? : Char → Option Mark
  | '+' => some .plus
  | '-' => some .minus
  | '*' => some .star
  | '/' => some .slash
  | '%' => some .percent
  | '&' => some .amp
  | '|' => some .pipe
  | '^' => some .caret
  | '~' => some .tilde
  | '!' => some .bang
  | '=' => some .assign
  | '<' => some .lt
  | '>' => some .gt
  | '.' => some .dot
  | ':' => some .colon
  | ',' => some .comma
  | ';' => some .semicolon
  | '(' => some .lParen
  | ')' => some .rParen
  | '[' => some .lBracket
  | ']' => some .rBracket
  | '\x7b' => some .lBrace
  | '\x7d' => some .rBrace
  | _ => none

/-- A delimiter or operator, the longer of two that fit. -/
def scanMark (c : Char) (rest : List Char) : Scan Token :=
  match rest.head?.bind (pairMark? c) with
  | some m => .ok (.mark m, 1)
  | none =>
    match singleMark? c with
    | some m => .ok (.mark m, 0)
    | none => .error (.unexpectedCharacter c, 0)

/-- Counts `n` more characters. -/
def Scan.more {α : Type} (n : Nat) : Scan α → Scan α
  | .ok (a, taken) => .ok (a, taken + n)
  | .error e => .error e

/-- The token that starts with `c`, which is neither a blank nor a line break, and how many of the
characters after `c` it takes. -/
def scan (c : Char) (rest : List Char) : Scan Token :=
  if c == '/' && rest.head? == some '/' then
    let body := (rest.drop 1).takeWhile (· != '\n')
    .ok (.comment (Text.trim (String.ofList body)), body.length + 1)
  else if c == '"' then
    match scanString rest 0 [] with
    | .ok (s, taken) => .ok (.string s, taken)
    | .error e => .error e
  else if c == '0' && (rest.head? == some 'x' || rest.head? == some 'X') then
    (scanHex (rest.drop 1)).more 1
  else if c.isDigit then
    match scanDecimal (c :: rest) with
    | .ok (t, taken) => .ok (t, taken - 1)
    | .error e => .error e
  else if isNameStart c then
    let body := rest.takeWhile isNamePart
    .ok (wordToken (String.ofList (c :: body)), body.length)
  else scanMark c rest

/-! ## Whole texts -/

def isSpacing (c : Char) : Bool := c == ' ' || c == '\t' || c == '\r'

/-- The tokens of `cs`, which begins at `span`, after those `found` before, last first. -/
def lexFrom (span : Span) (cs : List Char) (found : List Lexeme) : Except LexError (List Lexeme) :=
  match cs with
  | [] => .ok (⟨.eof, span⟩ :: found).reverse
  | c :: rest =>
    if isSpacing c then lexFrom (span.along 1) rest found
    else if c == '\n' then lexFrom span.nextLine rest (⟨.newline, span⟩ :: found)
    else
      match scan c rest with
      | .ok (token, taken) =>
        lexFrom (span.along (taken + 1)) (rest.drop taken) (⟨token, span⟩ :: found)
      | .error (fault, offset) => .error ⟨fault, span.along offset⟩
termination_by cs.length
decreasing_by
  all_goals simp only [List.length_cons, List.length_drop]
  all_goals omega

/-- The tokens of a text, line breaks and comments included, with an end token last. -/
def lex (source : String) : Except LexError (List Lexeme) := lexFrom .start source.toList []

def Token.isTrivia : Token → Bool
  | .comment _ => true
  | .newline => true
  | _ => false

/-- The tokens of a text without line breaks and comments. -/
def lexClean (source : String) : Except LexError (List Lexeme) :=
  (lex source).map fun ts => ts.filter fun t => !t.token.isTrivia

end Ember
