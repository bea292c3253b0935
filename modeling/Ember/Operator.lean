/-! The binary operators and comparisons of the language, with the selector byte and the symbol of
each. A selector is what an instruction stores; the symbol is what messages and listings show. -/
namespace Ember
set_option autoImplicit false

/-! ## Binary operators -/

inductive BinaryOperator
  | add | subtract | multiply | divide | modulo | and | or | xor | power | shiftLeft | shiftRight
  deriving DecidableEq, Repr, Inhabited

namespace BinaryOperator

def all : Array BinaryOperator :=
  #[add, subtract, multiply, divide, modulo, and, or, xor, power, shiftLeft, shiftRight]

/-- Selectors start at one. -/
def selector : BinaryOperator → Nat
  | add => 1 | subtract => 2 | multiply => 3 | divide => 4 | modulo => 5 | and => 6 | or => 7
  | xor => 8 | power => 9 | shiftLeft => 10 | shiftRight => 11

def ofSelector? : Nat → Option BinaryOperator
  | 0 => none
  | n + 1 => all[n]?

def symbol : BinaryOperator → String
  | add => "+" | subtract => "-" | multiply => "*" | divide => "/" | modulo => "%" | and => "&"
  | or => "|" | xor => "^" | power => "**" | shiftLeft => "<<" | shiftRight => ">>"

@[simp] theorem ofSelector?_selector (op : BinaryOperator) : ofSelector? op.selector = some op := by
  cases op <;> rfl

end BinaryOperator

/-! ## Comparisons -/

inductive Comparison
  | less | lessOrEqual | equal | notEqual | greater | greaterOrEqual
  deriving DecidableEq, Repr, Inhabited

namespace Comparison

def all : Array Comparison := #[less, lessOrEqual, equal, notEqual, greater, greaterOrEqual]

def selector : Comparison → Nat
  | less => 1 | lessOrEqual => 2 | equal => 3 | notEqual => 4 | greater => 5 | greaterOrEqual => 6

def ofSelector? : Nat → Option Comparison
  | 0 => none
  | n + 1 => all[n]?

def symbol : Comparison → String
  | less => "<" | lessOrEqual => "<=" | equal => "==" | notEqual => "!=" | greater => ">"
  | greaterOrEqual => ">="

@[simp] theorem ofSelector?_selector (op : Comparison) : ofSelector? op.selector = some op := by
  cases op <;> rfl

end Comparison

end Ember
