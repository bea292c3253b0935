import Ember.Ast.Parser

/-! Programs written as tokens. An operand stands in parentheses where it binds less strongly than
its place demands, and nowhere else. -/
namespace Ember
set_option autoImplicit false

/-! ## Operators -/

def UnaryOperator.mark : UnaryOperator → Mark
  | negate => .minus | plus => .plus | not => .bang | invert => .tilde

namespace Operation

def mark : Operation → Mark
  | arithmetic op =>
    match op with
    | .add => .plus | .subtract => .minus | .multiply => .star | .divide => .slash
    | .modulo => .percent | .and => .amp | .or => .pipe | .xor => .caret | .power => .starStar
    | .shiftLeft => .shl | .shiftRight => .shr
  | comparison op =>
    match op with
    | .equal => .eqEq | .notEqual => .notEq | .less => .lt | .lessOrEqual => .ltEq
    | .greater => .gt | .greaterOrEqual => .gtEq

/-- How strongly the operator binds; signs come between the factors and the powers, at eleven. -/
def strength : Operation → Nat
  | comparison .equal | comparison .notEqual => 3
  | comparison _ => 4
  | arithmetic op =>
    match op with
    | .or => 5 | .xor => 6 | .and => 7 | .shiftLeft | .shiftRight => 8
    | .add | .subtract => 9 | .multiply | .divide | .modulo => 10 | .power => 12

/-- What is demanded of the operand on the left, which repeats the operator except with powers. -/
def leftDemand : Operation → Nat
  | arithmetic .power => 13
  | op => op.strength

/-- What is demanded of the operand on the right; an exponent may have a sign. -/
def rightDemand : Operation → Nat
  | arithmetic .power => 11
  | op => op.strength + 1

end Operation

namespace Connective

def mark : Connective → Mark
  | or => .orOr | and => .andAnd

def strength : Connective → Nat
  | or => 1 | and => 2

end Connective

/-! ## Trees as tokens -/

/-- How strongly an expression holds together: as its operator binds, and most of all without one.
A number below zero is written with a sign. -/
def Expr.level : Expr → Nat
  | .logical _ op _ _ => op.strength
  | .binary _ op _ _ => op.strength
  | .unary .. => 11
  | .int _ n => if n < 0 then 11 else 13
  | _ => 13

/-- Tokens of the given level where `demand` is demanded of them. -/
def enclosed (demand level : Nat) (ts : List Token) : List Token :=
  if level < demand then .mark .lParen :: ts ++ [Token.mark .rParen] else ts

def paramTokens : List String → List Token
  | [] => []
  | [name] => [.ident name]
  | name :: rest => .ident name :: .mark .comma :: paramTokens rest

mutual

def Expr.tokens : Expr → List Token
  | .int _ n =>
    if n < 0 then [.mark .minus, .integer n.toInt.natAbs] else [.integer n.toInt.natAbs]
  | .float _ x => [.float x]
  | .str _ s => [.string s]
  | .bool _ true => [.keyword .true]
  | .bool _ false => [.keyword .false]
  | .nil _ => [.keyword .nil]
  | .ident _ name => [.ident name]
  | .list _ items => .mark .lBracket :: itemTokens items ++ [.mark .rBracket]
  | .map _ entries => .mark .lBrace :: entryTokens entries ++ [.mark .rBrace]
  | .set _ items => .mark .lBrace :: itemTokens items ++ [.mark .rBrace]
  | .unary _ op operand => .mark op.mark :: enclosed 11 operand.level operand.tokens
  | .binary _ op left right =>
    enclosed op.leftDemand left.level left.tokens ++
      .mark op.mark :: enclosed op.rightDemand right.level right.tokens
  | .logical _ op left right =>
    enclosed op.strength left.level left.tokens ++
      .mark op.mark :: enclosed (op.strength + 1) right.level right.tokens
  | .call _ callee args =>
    enclosed 13 callee.level callee.tokens ++ .mark .lParen :: itemTokens args ++ [.mark .rParen]
  | .index _ object key =>
    enclosed 13 object.level object.tokens ++ .mark .lBracket :: key.tokens ++ [.mark .rBracket]
  | .attr _ object name =>
    enclosed 13 object.level object.tokens ++ [.mark .dot, .ident name]
  | .func _ params body =>
    .keyword .func :: .mark .lParen :: paramTokens params ++
      .mark .rParen :: .mark .lBrace :: bodyTokens body ++ [.mark .rBrace]

def itemTokens : List Expr → List Token
  | [] => []
  | e :: rest => e.tokens ++ moreTokens rest

/-- The items after the first, each after a comma. -/
def moreTokens : List Expr → List Token
  | [] => []
  | e :: rest => .mark .comma :: e.tokens ++ moreTokens rest

def entryTokens : List (Expr × Expr) → List Token
  | [] => []
  | (k, v) :: rest => k.tokens ++ .mark .colon :: v.tokens ++ moreEntryTokens rest

def moreEntryTokens : List (Expr × Expr) → List Token
  | [] => []
  | (k, v) :: rest =>
    .mark .comma :: k.tokens ++ .mark .colon :: v.tokens ++ moreEntryTokens rest

def Stmt.tokens : Stmt → List Token
  | .var _ name value => .keyword .var :: .ident name :: .mark .assign :: value.tokens
  | .assign _ target value => target.tokens ++ .mark .assign :: value.tokens
  | .funcDef _ name params body =>
    .keyword .func :: .ident name :: .mark .lParen :: paramTokens params ++
      .mark .rParen :: .mark .lBrace :: bodyTokens body ++ [.mark .rBrace]
  | .return _ none => [.keyword .return]
  | .return _ (some value) => .keyword .return :: value.tokens
  | .if _ cond thenBody elseBody =>
    .keyword .if :: cond.tokens ++
      .mark .lBrace :: bodyTokens thenBody ++ .mark .rBrace :: elseTokens elseBody
  | .while _ cond body =>
    .keyword .while :: cond.tokens ++ .mark .lBrace :: bodyTokens body ++ [.mark .rBrace]
  | .break _ => [.keyword .break]
  | .continue _ => [.keyword .continue]
  | .print _ value => .keyword .print :: value.tokens
  | .delete _ object key =>
    .keyword .del :: enclosed 13 object.level object.tokens ++
      .mark .lBracket :: key.tokens ++ [.mark .rBracket]
  | .expr _ value => value.tokens

def bodyTokens : List Stmt → List Token
  | [] => []
  | st :: rest => st.tokens ++ .newline :: bodyTokens rest

/-- The other branch of a conditional; a branch that is a conditional alone goes on the chain. -/
def elseTokens : Option (List Stmt) → List Token
  | none => []
  | some [.if span cond thenBody elseBody] =>
    .keyword .else :: Stmt.tokens (.if span cond thenBody elseBody)
  | some body => .keyword .else :: .mark .lBrace :: bodyTokens body ++ [.mark .rBrace]

end

def Program.tokens (p : Program) : List Token := bodyTokens p.statements

/-- An expression as an operand in a place that demands `demand`. -/
def Expr.operand (e : Expr) (demand : Nat) : List Token := enclosed demand e.level e.tokens

/-! ## Trees without positions -/

mutual

/-- The expression with every position set to the start. -/
def Expr.bare : Expr → Expr
  | .int _ n => .int .start n
  | .float _ x => .float .start x
  | .str _ s => .str .start s
  | .bool _ b => .bool .start b
  | .nil _ => .nil .start
  | .ident _ name => .ident .start name
  | .list _ items => .list .start (bareItems items)
  | .map _ entries => .map .start (bareEntries entries)
  | .set _ items => .set .start (bareItems items)
  | .unary _ op operand => .unary .start op operand.bare
  | .binary _ op left right => .binary .start op left.bare right.bare
  | .logical _ op left right => .logical .start op left.bare right.bare
  | .call _ callee args => .call .start callee.bare (bareItems args)
  | .index _ object key => .index .start object.bare key.bare
  | .attr _ object name => .attr .start object.bare name
  | .func _ params body => .func .start params (bareBody body)

def bareItems : List Expr → List Expr
  | [] => []
  | e :: rest => e.bare :: bareItems rest

def bareEntries : List (Expr × Expr) → List (Expr × Expr)
  | [] => []
  | (k, v) :: rest => (k.bare, v.bare) :: bareEntries rest

def Stmt.bare : Stmt → Stmt
  | .var _ name value => .var .start name value.bare
  | .assign _ target value => .assign .start target.bare value.bare
  | .funcDef _ name params body => .funcDef .start name params (bareBody body)
  | .return _ none => .return .start none
  | .return _ (some value) => .return .start (some value.bare)
  | .if _ cond thenBody none => .if .start cond.bare (bareBody thenBody) none
  | .if _ cond thenBody (some elseBody) =>
    .if .start cond.bare (bareBody thenBody) (some (bareBody elseBody))
  | .while _ cond body => .while .start cond.bare (bareBody body)
  | .break _ => .break .start
  | .continue _ => .continue .start
  | .print _ value => .print .start value.bare
  | .delete _ object key => .delete .start object.bare key.bare
  | .expr _ value => .expr .start value.bare

def bareBody : List Stmt → List Stmt
  | [] => []
  | st :: rest => st.bare :: bareBody rest

end

def Program.bare (p : Program) : Program := ⟨bareBody p.statements⟩

/-! ## Trees that can be written -/

mutual

/-- A number has no sign, or is the least one; sets have members, parameters differ, and only a
name, a subscript or an attribute is assigned to. -/
def Expr.Grammatical : Expr → Prop
  | .int _ n => 0 ≤ n ∨ n = Int64.minValue
  | .float .. | .str .. | .bool .. | .nil _ | .ident .. => True
  | .list _ items => ItemsGrammatical items
  | .map _ entries => EntriesGrammatical entries
  | .set _ items => items ≠ [] ∧ ItemsGrammatical items
  | .unary _ _ operand => operand.Grammatical
  | .binary _ _ left right | .logical _ _ left right => left.Grammatical ∧ right.Grammatical
  | .call _ callee args => callee.Grammatical ∧ ItemsGrammatical args
  | .index _ object key => object.Grammatical ∧ key.Grammatical
  | .attr _ object _ => object.Grammatical
  | .func _ params body => params.Nodup ∧ BodyGrammatical body

def ItemsGrammatical : List Expr → Prop
  | [] => True
  | e :: rest => e.Grammatical ∧ ItemsGrammatical rest

def EntriesGrammatical : List (Expr × Expr) → Prop
  | [] => True
  | (k, v) :: rest => k.Grammatical ∧ v.Grammatical ∧ EntriesGrammatical rest

def Stmt.Grammatical : Stmt → Prop
  | .var _ _ value | .print _ value | .expr _ value | .return _ (some value) => value.Grammatical
  | .assign _ target value => target.isAssignable = true ∧ target.Grammatical ∧ value.Grammatical
  | .funcDef _ _ params body => params.Nodup ∧ BodyGrammatical body
  | .return _ none | .break _ | .continue _ => True
  | .if _ cond thenBody none => cond.Grammatical ∧ BodyGrammatical thenBody
  | .if _ cond thenBody (some elseBody) =>
    cond.Grammatical ∧ BodyGrammatical thenBody ∧ BodyGrammatical elseBody
  | .while _ cond body => cond.Grammatical ∧ BodyGrammatical body
  | .delete _ object key => object.Grammatical ∧ key.Grammatical

def BodyGrammatical : List Stmt → Prop
  | [] => True
  | st :: rest => st.Grammatical ∧ BodyGrammatical rest

end

def Program.Grammatical (p : Program) : Prop := BodyGrammatical p.statements

end Ember
