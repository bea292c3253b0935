import Ember.Ast.Basic

/-! Programs in other places: the same tree, with every position changed in the same way. -/
namespace Ember
set_option autoImplicit false

/-- The token in another place. -/
def Lexeme.moved (f : Span → Span) (t : Lexeme) : Lexeme := ⟨t.token, f t.span⟩

mutual

/-- The expression with every position changed by `f`. -/
def Expr.moved (f : Span → Span) : Expr → Expr
  | .int span n => .int (f span) n
  | .float span x => .float (f span) x
  | .str span s => .str (f span) s
  | .bool span b => .bool (f span) b
  | .nil span => .nil (f span)
  | .ident span name => .ident (f span) name
  | .list span items => .list (f span) (movedItems f items)
  | .map span entries => .map (f span) (movedEntries f entries)
  | .set span items => .set (f span) (movedItems f items)
  | .unary span op operand => .unary (f span) op (operand.moved f)
  | .binary span op left right => .binary (f span) op (left.moved f) (right.moved f)
  | .logical span op left right => .logical (f span) op (left.moved f) (right.moved f)
  | .call span callee args => .call (f span) (callee.moved f) (movedItems f args)
  | .index span object key => .index (f span) (object.moved f) (key.moved f)
  | .attr span object name => .attr (f span) (object.moved f) name
  | .func span params body => .func (f span) params (movedBody f body)

def movedItems (f : Span → Span) : List Expr → List Expr
  | [] => []
  | e :: rest => e.moved f :: movedItems f rest

def movedEntries (f : Span → Span) : List (Expr × Expr) → List (Expr × Expr)
  | [] => []
  | (k, v) :: rest => (k.moved f, v.moved f) :: movedEntries f rest

/-- The statement with every position changed by `f`. -/
def Stmt.moved (f : Span → Span) : Stmt → Stmt
  | .var span name value => .var (f span) name (value.moved f)
  | .assign span target value => .assign (f span) (target.moved f) (value.moved f)
  | .funcDef span name params body => .funcDef (f span) name params (movedBody f body)
  | .return span none => .return (f span) none
  | .return span (some value) => .return (f span) (some (value.moved f))
  | .if span cond thenBody none => .if (f span) (cond.moved f) (movedBody f thenBody) none
  | .if span cond thenBody (some elseBody) =>
    .if (f span) (cond.moved f) (movedBody f thenBody) (some (movedBody f elseBody))
  | .while span cond body => .while (f span) (cond.moved f) (movedBody f body)
  | .break span => .break (f span)
  | .continue span => .continue (f span)
  | .print span value => .print (f span) (value.moved f)
  | .delete span object key => .delete (f span) (object.moved f) (key.moved f)
  | .expr span value => .expr (f span) (value.moved f)

def movedBody (f : Span → Span) : List Stmt → List Stmt
  | [] => []
  | st :: rest => st.moved f :: movedBody f rest

end

theorem movedItems_eq_map (f : Span → Span) (items : List Expr) :
    movedItems f items = items.map (·.moved f) := by
  induction items with
  | nil => rfl
  | cons e rest ih => rw [movedItems, ih, List.map_cons]

theorem movedEntries_eq_map (f : Span → Span) (entries : List (Expr × Expr)) :
    movedEntries f entries = entries.map fun e => (e.1.moved f, e.2.moved f) := by
  induction entries with
  | nil => rfl
  | cons e rest ih => rw [movedEntries, ih, List.map_cons]

theorem movedBody_eq_map (f : Span → Span) (body : List Stmt) :
    movedBody f body = body.map (·.moved f) := by
  induction body with
  | nil => rfl
  | cons st rest ih => rw [movedBody, ih, List.map_cons]

/-! ## Nothing moved -/

mutual

theorem Expr.moved_id (e : Expr) : e.moved id = e := by
  cases e with
  | int | float | str | bool | nil | ident => rfl
  | list span items => rw [Expr.moved, movedItems_id items, id]
  | map span entries => rw [Expr.moved, movedEntries_id entries, id]
  | set span items => rw [Expr.moved, movedItems_id items, id]
  | unary span op operand => rw [Expr.moved, operand.moved_id, id]
  | binary span op left right => rw [Expr.moved, left.moved_id, right.moved_id, id]
  | logical span op left right => rw [Expr.moved, left.moved_id, right.moved_id, id]
  | call span callee args => rw [Expr.moved, callee.moved_id, movedItems_id args, id]
  | index span object key => rw [Expr.moved, object.moved_id, key.moved_id, id]
  | attr span object name => rw [Expr.moved, object.moved_id, id]
  | func span params body => rw [Expr.moved, movedBody_id body, id]

theorem movedItems_id (items : List Expr) : movedItems id items = items := by
  cases items with
  | nil => rfl
  | cons e rest => rw [movedItems, e.moved_id, movedItems_id rest]

theorem movedEntries_id (entries : List (Expr × Expr)) : movedEntries id entries = entries := by
  match entries with
  | [] => rfl
  | (k, v) :: rest => rw [movedEntries, k.moved_id, v.moved_id, movedEntries_id rest]

theorem Stmt.moved_id (st : Stmt) : st.moved id = st := by
  match st with
  | .var span name value => rw [Stmt.moved, value.moved_id, id]
  | .assign span target value => rw [Stmt.moved, target.moved_id, value.moved_id, id]
  | .funcDef span name params body => rw [Stmt.moved, movedBody_id body, id]
  | .return span none | .break span | .continue span => rfl
  | .return span (some value) => rw [Stmt.moved, value.moved_id, id]
  | .if span cond thenBody none => rw [Stmt.moved, cond.moved_id, movedBody_id thenBody, id]
  | .if span cond thenBody (some elseBody) =>
    rw [Stmt.moved, cond.moved_id, movedBody_id thenBody, movedBody_id elseBody, id]
  | .while span cond body => rw [Stmt.moved, cond.moved_id, movedBody_id body, id]
  | .print span value => rw [Stmt.moved, value.moved_id, id]
  | .delete span object key => rw [Stmt.moved, object.moved_id, key.moved_id, id]
  | .expr span value => rw [Stmt.moved, value.moved_id, id]

theorem movedBody_id (body : List Stmt) : movedBody id body = body := by
  cases body with
  | nil => rfl
  | cons st rest => rw [movedBody, st.moved_id, movedBody_id rest]

end

end Ember
