import Ember.Operator
import Ember.Token.Basic

/-! Programs as trees. Every expression and statement carries the position that errors about it
report. -/
namespace Ember
set_option autoImplicit false

inductive UnaryOperator
  | negate | plus | not | invert
  deriving DecidableEq, Repr

/-- Operators that evaluate both operands. -/
inductive Operation
  | arithmetic (op : BinaryOperator)
  | comparison (op : Comparison)
  deriving DecidableEq, Repr

/-- Operators that skip their right operand when the left one decides. -/
inductive Connective
  | and | or
  deriving DecidableEq, Repr

mutual

inductive Expr
  | int (span : Span) (n : Int64)
  | float (span : Span) (x : Float)
  | str (span : Span) (s : String)
  | bool (span : Span) (b : Bool)
  | nil (span : Span)
  | ident (span : Span) (name : String)
  | list (span : Span) (items : List Expr)
  | map (span : Span) (entries : List (Expr × Expr))
  | set (span : Span) (items : List Expr)
  | unary (span : Span) (op : UnaryOperator) (operand : Expr)
  | binary (span : Span) (op : Operation) (left right : Expr)
  | logical (span : Span) (op : Connective) (left right : Expr)
  | call (span : Span) (callee : Expr) (args : List Expr)
  | index (span : Span) (object key : Expr)
  | attr (span : Span) (object : Expr) (name : String)
  | func (span : Span) (params : List String) (body : List Stmt)

inductive Stmt
  | var (span : Span) (name : String) (value : Expr)
  | assign (span : Span) (target value : Expr)
  | funcDef (span : Span) (name : String) (params : List String) (body : List Stmt)
  | return (span : Span) (value : Option Expr)
  | if (span : Span) (cond : Expr) (thenBody : List Stmt) (elseBody : Option (List Stmt))
  | while (span : Span) (cond : Expr) (body : List Stmt)
  | break (span : Span)
  | continue (span : Span)
  | print (span : Span) (value : Expr)
  | delete (span : Span) (object key : Expr)
  | expr (span : Span) (value : Expr)

end

instance : Inhabited Expr := ⟨.nil .start⟩

instance : Inhabited Stmt := ⟨.break .start⟩

/-- The statements of one piece of source text. -/
structure Program where
  statements : List Stmt

namespace Expr

def span : Expr → Span
  | int s _ | float s _ | str s _ | bool s _ | nil s | ident s _ | list s _ | map s _ | set s _
  | unary s _ _ | binary s _ _ _ | logical s _ _ _ | call s _ _ | index s _ _ | attr s _ _
  | func s _ _ => s

/-- Whether something can be assigned to the expression. -/
def isAssignable : Expr → Bool
  | ident .. | index .. | attr .. => true
  | _ => false

end Expr

def Stmt.span : Stmt → Span
  | var s _ _ | assign s _ _ | funcDef s _ _ _ | «return» s _ | «if» s _ _ _ | «while» s _ _
  | «break» s | «continue» s | print s _ | delete s _ _ | expr s _ => s

end Ember
