import Ember.Ast.Basic

/-! Programs written out as indented outlines: the name of each node, and under it its parts, one a
line and four columns further in. -/
namespace Ember
set_option autoImplicit false

/-! ## Outlines -/

inductive Outline
  | leaf (text : String)
  /-- Named parts, in braces. -/
  | record (name : String) (fields : List (String × Outline))
  /-- Parts without names, in parentheses. -/
  | group (name : String) (items : List Outline)
  | list (items : List Outline)

namespace Outline

def margin (depth : Nat) : String := String.ofList (List.replicate (4 * depth) ' ')

mutual

/-- Writes an outline after `out`; its further lines are `depth` levels in. -/
def write (depth : Nat) : Outline → String → String
  | leaf text, out => out ++ text
  | record name fields, out =>
    writeFields (depth + 1) fields (out ++ name ++ " \x7b\n") ++ margin depth ++ "\x7d"
  | group name items, out =>
    writeItems (depth + 1) items (out ++ name ++ "(\n") ++ margin depth ++ ")"
  | list [], out => out ++ "[]"
  | list (item :: rest), out =>
    writeItems (depth + 1) (item :: rest) (out ++ "[\n") ++ margin depth ++ "]"

def writeItems (depth : Nat) : List Outline → String → String
  | [], out => out
  | item :: rest, out =>
    writeItems depth rest (item.write depth (out ++ margin depth) ++ ",\n")

def writeFields (depth : Nat) : List (String × Outline) → String → String
  | [], out => out
  | (name, item) :: rest, out =>
    writeFields depth rest (item.write depth (out ++ margin depth ++ name ++ ": ") ++ ",\n")

end

def text (o : Outline) : String := o.write 0 ""

def optional : Option Outline → Outline
  | some o => group "Some" [o]
  | none => leaf "None"

def quoted (s : String) : Outline := leaf (Text.quote s)

end Outline

/-! ## Names of nodes -/

def UnaryOperator.label : UnaryOperator → String
  | negate => "Neg" | plus => "Plus" | not => "Not" | invert => "Invert"

def Operation.label : Operation → String
  | arithmetic op =>
    match op with
    | .add => "Add" | .subtract => "Sub" | .multiply => "Mul" | .divide => "Div"
    | .modulo => "Mod" | .power => "Pow" | .and => "BitAnd" | .or => "BitOr" | .xor => "BitXor"
    | .shiftLeft => "Shl" | .shiftRight => "Shr"
  | comparison op =>
    match op with
    | .equal => "Eq" | .notEqual => "NotEq" | .less => "Lt" | .lessOrEqual => "LtEq"
    | .greater => "Gt" | .greaterOrEqual => "GtEq"

def Connective.label : Connective → String
  | and => "And" | or => "Or"

def Span.outline (s : Span) : Outline :=
  .record "Span" [("line", .leaf (toString s.line)), ("col", .leaf (toString s.col))]

/-! ## Trees -/

/-- A node of an expression or statement with its position. -/
def spanned (name : String) (kind : Outline) (span : Span) : Outline :=
  .record name [("kind", kind), ("span", span.outline)]

mutual

def Expr.outline : Expr → Outline
  | .int s n => spanned "Expr" (.group "Int" [.leaf (toString n.toInt)]) s
  | .float s x => spanned "Expr" (.group "Float" [.leaf (Decimal.shown.float x)]) s
  | .str s t => spanned "Expr" (.group "Str" [.quoted t]) s
  | .bool s b => spanned "Expr" (.group "Bool" [.leaf (toString b)]) s
  | .nil s => spanned "Expr" (.leaf "Nil") s
  | .ident s name => spanned "Expr" (.group "Ident" [.quoted name]) s
  | .list s items => spanned "Expr" (.group "List" [.list (Expr.outlines items)]) s
  | .map s entries => spanned "Expr" (.group "Map" [.list (Expr.entryOutlines entries)]) s
  | .set s items => spanned "Expr" (.group "Set" [.list (Expr.outlines items)]) s
  | .unary s op operand =>
    spanned "Expr" (.record "Unary" [("op", .leaf op.label), ("operand", operand.outline)]) s
  | .binary s op left right =>
    spanned "Expr" (.record "Binary"
      [("op", .leaf op.label), ("left", left.outline), ("right", right.outline)]) s
  | .logical s op left right =>
    spanned "Expr" (.record "Logical"
      [("op", .leaf op.label), ("left", left.outline), ("right", right.outline)]) s
  | .call s callee args =>
    spanned "Expr" (.record "Call"
      [("callee", callee.outline), ("args", .list (Expr.outlines args))]) s
  | .index s object key =>
    spanned "Expr" (.record "Index" [("object", object.outline), ("index", key.outline)]) s
  | .attr s object name =>
    spanned "Expr" (.record "Attr" [("object", object.outline), ("name", .quoted name)]) s
  | .func s params body =>
    spanned "Expr" (.record "Func"
      [("params", .list (params.map .quoted)), ("body", .list (Stmt.outlines body))]) s

def Expr.outlines : List Expr → List Outline
  | [] => []
  | e :: rest => e.outline :: Expr.outlines rest

def Expr.entryOutlines : List (Expr × Expr) → List Outline
  | [] => []
  | (k, v) :: rest => .group "" [k.outline, v.outline] :: Expr.entryOutlines rest

def Stmt.outline : Stmt → Outline
  | .var s name value =>
    spanned "Stmt" (.record "Var" [("name", .quoted name), ("value", value.outline)]) s
  | .assign s target value =>
    spanned "Stmt" (.record "Assign" [("target", target.outline), ("value", value.outline)]) s
  | .funcDef s name params body =>
    spanned "Stmt" (.record "FuncDef"
      [("name", .quoted name), ("params", .list (params.map .quoted)),
        ("body", .list (Stmt.outlines body))]) s
  | .return s none => spanned "Stmt" (.group "Return" [.leaf "None"]) s
  | .return s (some value) =>
    spanned "Stmt" (.group "Return" [.group "Some" [value.outline]]) s
  | .if s cond thenBody none =>
    spanned "Stmt" (.record "If"
      [("cond", cond.outline), ("then_body", .list (Stmt.outlines thenBody)),
        ("else_body", .leaf "None")]) s
  | .if s cond thenBody (some elseBody) =>
    spanned "Stmt" (.record "If"
      [("cond", cond.outline), ("then_body", .list (Stmt.outlines thenBody)),
        ("else_body", .group "Some" [.list (Stmt.outlines elseBody)])]) s
  | .while s cond body =>
    spanned "Stmt" (.record "While"
      [("cond", cond.outline), ("body", .list (Stmt.outlines body))]) s
  | .break s => spanned "Stmt" (.leaf "Break") s
  | .continue s => spanned "Stmt" (.leaf "Continue") s
  | .print s value => spanned "Stmt" (.group "Print" [value.outline]) s
  | .delete s object key =>
    spanned "Stmt" (.record "Del" [("object", object.outline), ("key", key.outline)]) s
  | .expr s value => spanned "Stmt" (.group "Expr" [value.outline]) s

def Stmt.outlines : List Stmt → List Outline
  | [] => []
  | st :: rest => st.outline :: Stmt.outlines rest

end

def Program.outline (p : Program) : Outline :=
  .record "Program" [("statements", .list (Stmt.outlines p.statements))]

end Ember
