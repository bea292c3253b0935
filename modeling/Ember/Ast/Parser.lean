import Ember.Ast.Basic
import Ember.Token.Lexer

/-! Reading a program from tokens. Line breaks and semicolons divide statements; a line break means
nothing after an operator, an opening delimiter or a comma. Every reader returns what it read
together with the tokens left and the proof that there are fewer of them. -/
namespace Ember
set_option autoImplicit false

/-! ## Errors -/

inductive ParseFault
  | expectedMark (m : Mark) (context found : String)
  | expectedIdent (context found : String)
  | expectedSeparator (found : String)
  | unclosedBlock
  | badDelete
  | badTarget
  | duplicateParameter (name : String)
  | integerTooLarge (n : Nat)
  | unexpected (found : String)
  deriving DecidableEq, Repr

namespace ParseFault

def message : ParseFault → String
  | expectedMark m context found =>
    "expected '" ++ m.text ++ "' " ++ context ++ ", found " ++ found
  | expectedIdent context found => "expected identifier " ++ context ++ ", found " ++ found
  | expectedSeparator found => "expected newline or ';' after statement, found " ++ found
  | unclosedBlock => "expected '\x7d' to close block"
  | badDelete => "'del' expects a subscript expression such as m[key]"
  | badTarget => "invalid assignment target"
  | duplicateParameter name => "duplicate parameter '" ++ name ++ "'"
  | integerTooLarge n => "integer literal " ++ toString n ++ " is too large"
  | unexpected found => "unexpected " ++ found

end ParseFault

structure ParseError where
  fault : ParseFault
  span : Span
  deriving DecidableEq, Repr

def ParseError.message (e : ParseError) : String := e.span.text ++ ": " ++ e.fault.message

/-! ## Token streams -/

/-- The tokens still to be read, and where the last one that was read began. -/
structure Stream where
  tokens : List Lexeme
  last : Option Span

namespace Stream

def size (s : Stream) : Nat := s.tokens.length

def peek (s : Stream) : Token :=
  match s.tokens with
  | t :: _ => t.token
  | [] => .eof

def peekSecond (s : Stream) : Token :=
  match s.tokens with
  | _ :: t :: _ => t.token
  | _ => .eof

/-- Where the next token begins; at the end, where the last one did. -/
def span (s : Stream) : Span :=
  match s.tokens with
  | t :: _ => t.span
  | [] => s.last.getD .start

/-- Where an error is reported: at the next token, or at the last one if the input has ended. -/
def errorSpan (s : Stream) : Span :=
  match s.tokens with
  | ⟨.eof, _⟩ :: _ => s.last.getD .start
  | t :: _ => t.span
  | [] => s.last.getD .start

/-- How messages call the next token. -/
def describe (s : Stream) : String :=
  match s.peek with
  | .eof => "end of input"
  | .newline => "newline"
  | t => "'" ++ t.text ++ "'"

def fail {α : Type} (s : Stream) (fault : ParseFault) : Except ParseError α :=
  .error ⟨fault, s.errorSpan⟩

/-- Leaves out tokens from the front while `p` holds of them. -/
def skipWhile (p : Token → Bool) : List Lexeme → Option Span → Stream
  | [], last => ⟨[], last⟩
  | t :: rest, last => if p t.token then skipWhile p rest (some t.span) else ⟨t :: rest, last⟩

theorem size_skipWhile_le (p : Token → Bool) (ts : List Lexeme) (last : Option Span) :
    (skipWhile p ts last).size ≤ ts.length := by
  induction ts generalizing last with
  | nil => simp [skipWhile, size]
  | cons t rest ih =>
    rw [skipWhile]
    split
    · exact Nat.le_trans (ih _) (Nat.le_succ _)
    · simp [size]

def isNewline : Token → Bool
  | .newline => true
  | _ => false

def isSeparator : Token → Bool
  | .newline => true
  | .mark .semicolon => true
  | _ => false

/-- Tokens that end a statement. -/
def isTerminator : Token → Bool
  | .newline | .mark .semicolon | .mark .rBrace | .eof => true
  | _ => false

def skipNewlines (s : Stream) : { r : Stream // r.size ≤ s.size } :=
  ⟨skipWhile isNewline s.tokens s.last, size_skipWhile_le _ _ _⟩

def skipSeparators (s : Stream) : { r : Stream // r.size ≤ s.size } :=
  ⟨skipWhile isSeparator s.tokens s.last, size_skipWhile_le _ _ _⟩

/-- The rest after the delimiter or operator `m`, if that is the next token. -/
def eat? (s : Stream) (m : Mark) : Option { r : Stream // r.size < s.size } :=
  match h : s.tokens with
  | ⟨.mark m', span⟩ :: rest =>
    if m' = m then some ⟨⟨rest, some span⟩, by simp [size, h]⟩ else none
  | _ => none

def isNext (s : Stream) (m : Mark) : Bool := (s.eat? m).isSome

def expect (s : Stream) (m : Mark) (context : String) :
    Except ParseError { r : Stream // r.size < s.size } :=
  match s.eat? m with
  | some r => .ok r
  | none => s.fail (.expectedMark m context s.describe)

end Stream

/-- What was read, and the rest, which has fewer than `bound` tokens. -/
structure Parsed (α : Type) (bound : Nat) where
  value : α
  rest : Stream
  lt : rest.size < bound

abbrev Parse (α : Type) (bound : Nat) : Type := Except ParseError (Parsed α bound)

namespace Stream

def expectIdent (s : Stream) (context : String) : Parse String s.size :=
  match h : s.tokens with
  | ⟨.ident name, span⟩ :: rest => .ok ⟨name, ⟨rest, some span⟩, by simp [size, h]⟩
  | _ => s.fail (.expectedIdent context s.describe)

/-- Checks that a statement has ended, and reads what divides it from the next. -/
def endStatement (s : Stream) : Except ParseError { r : Stream // r.size ≤ s.size } :=
  match h : s.tokens with
  | ⟨.newline, span⟩ :: rest => .ok ⟨⟨rest, some span⟩, by simp [size, h]⟩
  | ⟨.mark .semicolon, span⟩ :: rest => .ok ⟨⟨rest, some span⟩, by simp [size, h]⟩
  | ⟨.mark .rBrace, _⟩ :: _ => .ok ⟨s, Nat.le_refl _⟩
  | ⟨.eof, _⟩ :: _ => .ok ⟨s, Nat.le_refl _⟩
  | [] => .ok ⟨s, Nat.le_refl _⟩
  | _ => s.fail (.expectedSeparator s.describe)

end Stream

/-! ## Parameters -/

/-- Parameters up to the closing parenthesis, after those `found`, last first. -/
def parseParamsLoop (bound : Nat) (s : Stream) (hs : s.size < bound) (found : List String) :
    Parse (List String) bound :=
  let close := fun (s : Stream) (hs : s.size < bound) (found : List String) =>
    match s.expect .rParen "to close parameter list" with
    | .ok ⟨r, hr⟩ => Except.ok (Parsed.mk found.reverse r (Nat.lt_trans hr hs))
    | .error e => .error e
  if s.isNext .rParen then close s hs found
  else
    match s.expectIdent "in parameter list" with
    | .error e => .error e
    | .ok ⟨name, r₁, h₁⟩ =>
      if found.contains name then r₁.fail (.duplicateParameter name)
      else
        let ⟨r₂, h₂⟩ := r₁.skipNewlines
        match r₂.eat? .comma with
        | none => close r₂ (by omega) (name :: found)
        | some ⟨r₃, h₃⟩ =>
          let ⟨r₄, h₄⟩ := r₃.skipNewlines
          parseParamsLoop bound r₄ (by omega) (name :: found)
termination_by s.size
decreasing_by omega

def parseParams (s : Stream) : Parse (List String) s.size :=
  match s.expect .lParen "to open parameter list" with
  | .error e => .error e
  | .ok ⟨r₁, h₁⟩ =>
    let ⟨r₂, h₂⟩ := r₁.skipNewlines
    parseParamsLoop s.size r₂ (by omega) []

/-! ## Expressions and statements -/

/-- The node that joins two operands. -/
inductive Joint
  | operation (op : Operation)
  | connective (op : Connective)

def Joint.node (j : Joint) (span : Span) (left right : Expr) : Expr :=
  match j with
  | .operation op => .binary span op left right
  | .connective op => .logical span op left right

/-- How strongly an operator between operands binds; exponentiation is read on its own. -/
def binding? : Token → Option (Nat × Joint)
  | .mark m =>
    match m with
    | .orOr => some (1, .connective .or)
    | .andAnd => some (2, .connective .and)
    | .eqEq => some (3, .operation (.comparison .equal))
    | .notEq => some (3, .operation (.comparison .notEqual))
    | .lt => some (4, .operation (.comparison .less))
    | .ltEq => some (4, .operation (.comparison .lessOrEqual))
    | .gt => some (4, .operation (.comparison .greater))
    | .gtEq => some (4, .operation (.comparison .greaterOrEqual))
    | .pipe => some (5, .operation (.arithmetic .or))
    | .caret => some (6, .operation (.arithmetic .xor))
    | .amp => some (7, .operation (.arithmetic .and))
    | .shl => some (8, .operation (.arithmetic .shiftLeft))
    | .shr => some (8, .operation (.arithmetic .shiftRight))
    | .plus => some (9, .operation (.arithmetic .add))
    | .minus => some (9, .operation (.arithmetic .subtract))
    | .star => some (10, .operation (.arithmetic .multiply))
    | .slash => some (10, .operation (.arithmetic .divide))
    | .percent => some (10, .operation (.arithmetic .modulo))
    | _ => none
  | _ => none

def unary? : Token → Option UnaryOperator
  | .mark .minus => some .negate
  | .mark .plus => some .plus
  | .mark .bang => some .not
  | .mark .tilde => some .invert
  | _ => none

/-- The magnitude of the least integer. -/
def leastMagnitude : Nat := 9223372036854775808

/-- Whether a negated operand is the literal of the least integer, which has no positive
counterpart. -/
def isLeastLiteral (op : UnaryOperator) (s : Stream) : Bool :=
  match op, s.peek, s.peekSecond with
  | .negate, .integer _, .mark .starStar => false
  | .negate, .integer n, _ => n == leastMagnitude
  | _, _, _ => false

mutual

/-- An expression whose operators all bind at least as strongly as `least`. -/
def parseBinary (least : Nat) (s : Stream) : Parse Expr s.size :=
  match parseUnary s with
  | .error e => .error e
  | .ok ⟨left, r, h⟩ => parseBinaryLoop s.size least left r h
termination_by s.size * 8 + 4

def parseBinaryLoop (bound least : Nat) (left : Expr) (s : Stream) (hs : s.size < bound) :
    Parse Expr bound :=
  match h : s.tokens with
  | [] => .ok ⟨left, s, hs⟩
  | t :: rest =>
    match binding? t.token with
    | none => .ok ⟨left, s, hs⟩
    | some (strength, joint) =>
      if strength < least then .ok ⟨left, s, hs⟩
      else
        have h₀ : s.size = rest.length + 1 := by simp [Stream.size, h]
        let ⟨r₁, h₁⟩ := Stream.skipNewlines ⟨rest, some t.span⟩
        have h₁ : r₁.size ≤ rest.length := h₁
        match parseBinary (strength + 1) r₁ with
        | .error e => .error e
        | .ok ⟨right, r₂, h₂⟩ =>
          parseBinaryLoop bound least (joint.node t.span left right) r₂ (by omega)
termination_by s.size * 8

def parseUnary (s : Stream) : Parse Expr s.size :=
  match h : s.tokens with
  | [] => parsePower s
  | t :: rest =>
    match unary? t.token with
    | none => parsePower s
    | some op =>
      have h₀ : Stream.size ⟨rest, some t.span⟩ < s.size := by simp [Stream.size, h]
      if isLeastLiteral op ⟨rest, some t.span⟩ then
        .ok ⟨.int t.span (Int64.ofInt (-9223372036854775808)),
          ⟨rest.drop 1, (rest.head?).map (·.span)⟩, by
            simp only [Stream.size, h, List.length_drop, List.length_cons]; omega⟩
      else
        match parseUnary ⟨rest, some t.span⟩ with
        | .error e => .error e
        | .ok ⟨operand, r₂, h₂⟩ =>
          .ok ⟨.unary t.span op operand, r₂, by omega⟩
termination_by s.size * 8 + 3

/-- An operand with an exponent, which may itself be negated or have an exponent. -/
def parsePower (s : Stream) : Parse Expr s.size :=
  match parsePostfix s with
  | .error e => .error e
  | .ok ⟨base, r₁, h₁⟩ =>
    match r₁.eat? .starStar with
    | none => .ok ⟨base, r₁, h₁⟩
    | some ⟨r₂, h₂⟩ =>
      let ⟨r₃, h₃⟩ := r₂.skipNewlines
      match parseUnary r₃ with
      | .error e => .error e
      | .ok ⟨exponent, r₄, h₄⟩ =>
        .ok ⟨.binary r₁.span (.arithmetic .power) base exponent, r₄, by omega⟩
termination_by s.size * 8 + 2

def parsePostfix (s : Stream) : Parse Expr s.size :=
  match parsePrimary s with
  | .error e => .error e
  | .ok ⟨e, r, h⟩ => parsePostfixLoop s.size e r h
termination_by s.size * 8 + 1

/-- Calls, subscripts and attributes after an operand. -/
def parsePostfixLoop (bound : Nat) (object : Expr) (s : Stream) (hs : s.size < bound) :
    Parse Expr bound :=
  match h : s.tokens with
  | [] => .ok ⟨object, s, hs⟩
  | t :: rest =>
    have h₀ : s.size = rest.length + 1 := by simp [Stream.size, h]
    match t.token with
    | .mark .lParen =>
      let ⟨r₁, h₁⟩ := Stream.skipNewlines ⟨rest, some t.span⟩
      have h₁ : r₁.size ≤ rest.length := h₁
      match parseItems .rParen "to close argument list" s.size r₁ (by omega) [] with
      | .error e => .error e
      | .ok ⟨args, r₂, h₂⟩ => parsePostfixLoop bound (.call t.span object args) r₂ (by omega)
    | .mark .lBracket =>
      let ⟨r₁, h₁⟩ := Stream.skipNewlines ⟨rest, some t.span⟩
      have h₁ : r₁.size ≤ rest.length := h₁
      match parseBinary 1 r₁ with
      | .error e => .error e
      | .ok ⟨key, r₂, h₂⟩ =>
        let ⟨r₃, h₃⟩ := r₂.skipNewlines
        match r₃.expect .rBracket "to close subscript" with
        | .error e => .error e
        | .ok ⟨r₄, h₄⟩ => parsePostfixLoop bound (.index t.span object key) r₄ (by omega)
    | .mark .dot =>
      match Stream.expectIdent ⟨rest, some t.span⟩ "after '.'" with
      | .error e => .error e
      | .ok ⟨name, r₁, h₁⟩ =>
        have h₁ : r₁.size < rest.length := h₁
        parsePostfixLoop bound (.attr t.span object name) r₁ (by omega)
    | _ => .ok ⟨object, s, hs⟩
termination_by s.size * 8

/-- Expressions divided by commas up to the closing delimiter, after those `found`, last first. A
comma may stand before the delimiter. -/
def parseItems (close : Mark) (context : String) (bound : Nat) (s : Stream) (hs : s.size < bound)
    (found : List Expr) : Parse (List Expr) bound :=
  match s.eat? close with
  | some ⟨r, hr⟩ => .ok ⟨found.reverse, r, by omega⟩
  | none =>
    match parseBinary 1 s with
    | .error e => .error e
    | .ok ⟨item, r₁, h₁⟩ =>
      let ⟨r₂, h₂⟩ := r₁.skipNewlines
      match r₂.eat? .comma with
      | some ⟨r₃, h₃⟩ =>
        let ⟨r₄, h₄⟩ := r₃.skipNewlines
        parseItems close context bound r₄ (by omega) (item :: found)
      | none =>
        match r₂.expect close context with
        | .error e => .error e
        | .ok ⟨r₃, h₃⟩ => .ok ⟨(item :: found).reverse, r₃, by omega⟩
termination_by s.size * 8 + 5

def parsePrimary (s : Stream) : Parse Expr s.size :=
  match h : s.tokens with
  | [] => s.fail (.unexpected s.describe)
  | t :: rest =>
    have h₀ : s.size = rest.length + 1 := by simp [Stream.size, h]
    have h₁ : Stream.size ⟨rest, some t.span⟩ < s.size := by simp [Stream.size, h]
    match t.token with
    | .integer n =>
      if n < leastMagnitude then .ok ⟨.int t.span (Int64.ofNat n), ⟨rest, some t.span⟩, h₁⟩
      else s.fail (.integerTooLarge n)
    | .float x => .ok ⟨.float t.span x, ⟨rest, some t.span⟩, h₁⟩
    | .string text => .ok ⟨.str t.span text, ⟨rest, some t.span⟩, h₁⟩
    | .keyword .true => .ok ⟨.bool t.span true, ⟨rest, some t.span⟩, h₁⟩
    | .keyword .false => .ok ⟨.bool t.span false, ⟨rest, some t.span⟩, h₁⟩
    | .keyword .nil => .ok ⟨.nil t.span, ⟨rest, some t.span⟩, h₁⟩
    | .ident name => .ok ⟨.ident t.span name, ⟨rest, some t.span⟩, h₁⟩
    | .mark .lParen =>
      let ⟨r₁, h₂⟩ := Stream.skipNewlines ⟨rest, some t.span⟩
      match parseBinary 1 r₁ with
      | .error e => .error e
      | .ok ⟨inner, r₂, h₃⟩ =>
        let ⟨r₃, h₄⟩ := r₂.skipNewlines
        match r₃.expect .rParen "to close parenthesized expression" with
        | .error e => .error e
        | .ok ⟨r₄, h₅⟩ => .ok ⟨inner, r₄, by omega⟩
    | .mark .lBracket =>
      let ⟨r₁, h₂⟩ := Stream.skipNewlines ⟨rest, some t.span⟩
      match parseItems .rBracket "to close list literal" s.size r₁ (by omega) [] with
      | .error e => .error e
      | .ok ⟨items, r₂, h₃⟩ => .ok ⟨.list t.span items, r₂, h₃⟩
    | .mark .lBrace =>
      match parseBraces t.span ⟨rest, some t.span⟩ with
      | .error e => .error e
      | .ok ⟨e, r₁, h₂⟩ => .ok ⟨e, r₁, by omega⟩
    | .keyword .func =>
      match parseParams ⟨rest, some t.span⟩ with
      | .error e => .error e
      | .ok ⟨params, r₁, h₂⟩ =>
        match parseBlock r₁ with
        | .error e => .error e
        | .ok ⟨body, r₂, h₃⟩ => .ok ⟨.func t.span params body, r₂, by omega⟩
    | _ => s.fail (.unexpected s.describe)
termination_by s.size * 8

/-- What follows an opening brace: nothing for an empty map, entries of a map, or members of a
set. -/
def parseBraces (span : Span) (s : Stream) : Parse Expr s.size :=
  let ⟨r₁, h₁⟩ := s.skipNewlines
  match r₁.eat? .rBrace with
  | some ⟨r₂, h₂⟩ => .ok ⟨.map span [], r₂, by omega⟩
  | none =>
    match parseBinary 1 r₁ with
    | .error e => .error e
    | .ok ⟨first, r₂, h₂⟩ =>
      let ⟨r₃, h₃⟩ := r₂.skipNewlines
      match r₃.eat? .colon with
      | some ⟨r₄, h₄⟩ =>
        let ⟨r₅, h₅⟩ := r₄.skipNewlines
        match parseBinary 1 r₅ with
        | .error e => .error e
        | .ok ⟨value, r₆, h₆⟩ =>
          let ⟨r₇, h₇⟩ := r₆.skipNewlines
          match parseEntries s.size r₇ (by omega) [(first, value)] with
          | .error e => .error e
          | .ok ⟨entries, r₈, h₈⟩ => .ok ⟨.map span entries, r₈, h₈⟩
      | none =>
        match r₃.eat? .comma with
        | some ⟨r₄, h₄⟩ =>
          let ⟨r₅, h₅⟩ := r₄.skipNewlines
          match parseItems .rBrace "to close set literal" s.size r₅ (by omega) [first] with
          | .error e => .error e
          | .ok ⟨items, r₆, h₆⟩ => .ok ⟨.set span items, r₆, h₆⟩
        | none =>
          match r₃.expect .rBrace "to close set literal" with
          | .error e => .error e
          | .ok ⟨r₄, h₄⟩ => .ok ⟨.set span [first], r₄, by omega⟩
termination_by s.size * 8 + 5

/-- The rest of a map after the entries `found`, last first. -/
def parseEntries (bound : Nat) (s : Stream) (hs : s.size < bound) (found : List (Expr × Expr)) :
    Parse (List (Expr × Expr)) bound :=
  match s.eat? .comma with
  | none =>
    match s.expect .rBrace "to close map literal" with
    | .error e => .error e
    | .ok ⟨r, hr⟩ => .ok ⟨found.reverse, r, by omega⟩
  | some ⟨r₁, h₁⟩ =>
    let ⟨r₂, h₂⟩ := r₁.skipNewlines
    match r₂.eat? .rBrace with
    | some ⟨r₃, h₃⟩ => .ok ⟨found.reverse, r₃, by omega⟩
    | none =>
      match parseBinary 1 r₂ with
      | .error e => .error e
      | .ok ⟨key, r₃, h₃⟩ =>
        let ⟨r₄, h₄⟩ := r₃.skipNewlines
        match r₄.expect .colon "between map key and value" with
        | .error e => .error e
        | .ok ⟨r₅, h₅⟩ =>
          let ⟨r₆, h₆⟩ := r₅.skipNewlines
          match parseBinary 1 r₆ with
          | .error e => .error e
          | .ok ⟨value, r₇, h₇⟩ =>
            let ⟨r₈, h₈⟩ := r₇.skipNewlines
            parseEntries bound r₈ (by omega) ((key, value) :: found)
termination_by s.size * 8

def parseBlock (s : Stream) : Parse (List Stmt) s.size :=
  match s.expect .lBrace "to open block" with
  | .error e => .error e
  | .ok ⟨r, hr⟩ => parseBlockLoop s.size r hr []
termination_by s.size * 8

/-- Statements up to the closing brace, after those `found`, last first. -/
def parseBlockLoop (bound : Nat) (s : Stream) (hs : s.size < bound) (found : List Stmt) :
    Parse (List Stmt) bound :=
  let ⟨r₁, h₁⟩ := s.skipSeparators
  match r₁.eat? .rBrace with
  | some ⟨r₂, h₂⟩ => .ok ⟨found.reverse, r₂, by omega⟩
  | none =>
    match r₁.peek with
    | .eof => r₁.fail .unclosedBlock
    | _ =>
      match parseStatement r₁ with
      | .error e => .error e
      | .ok ⟨st, r₂, h₂⟩ =>
        match r₂.endStatement with
        | .error e => .error e
        | .ok ⟨r₃, h₃⟩ => parseBlockLoop bound r₃ (by omega) (st :: found)
termination_by s.size * 8 + 7

def parseStatement (s : Stream) : Parse Stmt s.size :=
  match h : s.tokens with
  | [] => parseSimple s
  | t :: rest =>
    have h₀ : Stream.size ⟨rest, some t.span⟩ < s.size := by simp [Stream.size, h]
    match t.token with
    | .keyword .var =>
      match Stream.expectIdent ⟨rest, some t.span⟩ "after 'var'" with
      | .error e => .error e
      | .ok ⟨name, r₁, h₁⟩ =>
        match r₁.expect .assign "in variable declaration" with
        | .error e => .error e
        | .ok ⟨r₂, h₂⟩ =>
          let ⟨r₃, h₃⟩ := r₂.skipNewlines
          match parseBinary 1 r₃ with
          | .error e => .error e
          | .ok ⟨value, r₄, h₄⟩ => .ok ⟨.var t.span name value, r₄, by omega⟩
    | .keyword .func =>
      match h₁ : rest with
      | ⟨.ident name, nameSpan⟩ :: after =>
        have h₂ : Stream.size ⟨after, some nameSpan⟩ < s.size := by
          simp only [Stream.size, h, List.length_cons]; omega
        match parseParams ⟨after, some nameSpan⟩ with
        | .error e => .error e
        | .ok ⟨params, r₁, h₃⟩ =>
          match parseBlock r₁ with
          | .error e => .error e
          | .ok ⟨body, r₂, h₄⟩ => .ok ⟨.funcDef t.span name params body, r₂, by omega⟩
      | _ => parseSimple s
    | .keyword .return =>
      if Stream.isTerminator (Stream.peek ⟨rest, some t.span⟩) then
        .ok ⟨.return t.span none, ⟨rest, some t.span⟩, h₀⟩
      else
        match parseBinary 1 ⟨rest, some t.span⟩ with
        | .error e => .error e
        | .ok ⟨value, r₁, h₁⟩ => .ok ⟨.return t.span (some value), r₁, by omega⟩
    | .keyword .if =>
      match parseIf t.span ⟨rest, some t.span⟩ with
      | .error e => .error e
      | .ok ⟨st, r₁, h₁⟩ => .ok ⟨st, r₁, by omega⟩
    | .keyword .while =>
      match parseBinary 1 ⟨rest, some t.span⟩ with
      | .error e => .error e
      | .ok ⟨cond, r₁, h₁⟩ =>
        match parseBlock r₁ with
        | .error e => .error e
        | .ok ⟨body, r₂, h₂⟩ => .ok ⟨.while t.span cond body, r₂, by omega⟩
    | .keyword .break => .ok ⟨.break t.span, ⟨rest, some t.span⟩, h₀⟩
    | .keyword .continue => .ok ⟨.continue t.span, ⟨rest, some t.span⟩, h₀⟩
    | .keyword .print =>
      match parseBinary 1 ⟨rest, some t.span⟩ with
      | .error e => .error e
      | .ok ⟨value, r₁, h₁⟩ => .ok ⟨.print t.span value, r₁, by omega⟩
    | .keyword .del =>
      match parseBinary 1 ⟨rest, some t.span⟩ with
      | .error e => .error e
      | .ok ⟨.index _ object key, r₁, h₁⟩ => .ok ⟨.delete t.span object key, r₁, by omega⟩
      | .ok ⟨_, r₁, _⟩ => r₁.fail .badDelete
    | .ident name =>
      match h₁ : rest with
      | ⟨.mark .declare, markSpan⟩ :: after =>
        have h₂ : Stream.size ⟨after, some markSpan⟩ < s.size := by
          simp only [Stream.size, h, List.length_cons]; omega
        let ⟨r₁, h₃⟩ := Stream.skipNewlines ⟨after, some markSpan⟩
        match parseBinary 1 r₁ with
        | .error e => .error e
        | .ok ⟨value, r₂, h₄⟩ => .ok ⟨.var t.span name value, r₂, by omega⟩
      | _ => parseSimple s
    | _ => parseSimple s
termination_by s.size * 8 + 6

/-- A statement that starts with an expression: the expression itself, or an assignment to it. -/
def parseSimple (s : Stream) : Parse Stmt s.size :=
  match parseBinary 1 s with
  | .error e => .error e
  | .ok ⟨target, r₁, h₁⟩ =>
    match r₁.eat? .assign with
    | none => .ok ⟨.expr s.span target, r₁, h₁⟩
    | some ⟨r₂, h₂⟩ =>
      if target.isAssignable then
        let ⟨r₃, h₃⟩ := r₂.skipNewlines
        match parseBinary 1 r₃ with
        | .error e => .error e
        | .ok ⟨value, r₄, h₄⟩ => .ok ⟨.assign s.span target value, r₄, by omega⟩
      else r₁.fail .badTarget
termination_by s.size * 8 + 5

/-- A conditional after its `if`; one after `else` is the only statement of the other branch. -/
def parseIf (span : Span) (s : Stream) : Parse Stmt s.size :=
  match parseBinary 1 s with
  | .error e => .error e
  | .ok ⟨cond, r₁, h₁⟩ =>
    match parseBlock r₁ with
    | .error e => .error e
    | .ok ⟨thenBody, r₂, h₂⟩ =>
      match h : r₂.tokens with
      | ⟨.keyword .else, _⟩ :: ⟨.keyword .if, ifSpan⟩ :: rest =>
        have h₃ : Stream.size ⟨rest, some ifSpan⟩ < r₂.size := by
          simp only [Stream.size, h, List.length_cons]; omega
        match parseIf ifSpan ⟨rest, some ifSpan⟩ with
        | .error e => .error e
        | .ok ⟨inner, r₃, h₄⟩ => .ok ⟨.if span cond thenBody (some [inner]), r₃, by omega⟩
      | ⟨.keyword .else, elseSpan⟩ :: rest =>
        have h₃ : Stream.size ⟨rest, some elseSpan⟩ < r₂.size := by simp [Stream.size, h]
        match parseBlock ⟨rest, some elseSpan⟩ with
        | .error e => .error e
        | .ok ⟨elseBody, r₃, h₄⟩ => .ok ⟨.if span cond thenBody (some elseBody), r₃, by omega⟩
      | _ => .ok ⟨.if span cond thenBody none, r₂, by omega⟩
termination_by s.size * 8 + 5

end

/-! ## Programs -/

/-- Statements up to the end of the input, after those `found`, last first. -/
def parseStatements (s : Stream) (found : List Stmt) : Except ParseError Program :=
  let ⟨r₁, _h₁⟩ := s.skipSeparators
  match r₁.peek with
  | .eof => .ok ⟨found.reverse⟩
  | _ =>
    match parseStatement r₁ with
    | .error e => .error e
    | .ok ⟨st, r₂, _h₂⟩ =>
      match r₂.endStatement with
      | .error e => .error e
      | .ok ⟨r₃, _h₃⟩ => parseStatements r₃ (st :: found)
termination_by s.size
decreasing_by omega

def Token.isComment : Token → Bool
  | .comment _ => true
  | _ => false

/-- The program that the tokens stand for; comments mean nothing. -/
def parseTokens (ts : List Lexeme) : Except ParseError Program :=
  parseStatements ⟨ts.filter fun t => !t.token.isComment, none⟩ []

/-! ## Source text -/

/-- Why a text is no program. -/
inductive SourceError
  | lex (e : LexError)
  | parse (e : ParseError)
  deriving DecidableEq, Repr

def SourceError.message : SourceError → String
  | lex e => "lexer error: " ++ e.message
  | parse e => "parse error: " ++ e.message

def parse (source : String) : Except SourceError Program :=
  match lex source with
  | .error e => .error (.lex e)
  | .ok ts =>
    match parseTokens ts with
    | .error e => .error (.parse e)
    | .ok p => .ok p

end Ember
