import Ember.Decimal.Layout
import Ember.Text.Quoted
import Ember.Value.Heap

/-! The text of a value. A text inside another value is quoted, and a list or map that is met again
inside itself is cut short as `[...]` or as dots in braces. -/
namespace Ember
set_option autoImplicit false

/-- The containers that can hold themselves. -/
inductive Container
  | list (r : ListRef)
  | map (r : MapRef)
  deriving DecidableEq, Repr

namespace Value

/-- Writes texts after `out`, divided by commas. -/
def writeAll {α : Type} (items : Array α) (write : α → String → String) (out : String) : String :=
  (items.foldl (fun (acc : String × Bool) item =>
    (write item (if acc.2 then acc.1 else acc.1 ++ ", "), false)) (out, true)).1

def writeKey (k : Key) (out : String) : String :=
  match k with
  | .nil => out ++ "nil"
  | .bool b => out ++ toString b
  | .int n => out ++ toString n.toInt
  | .str s => out ++ Text.quote s

/-- Writes a value after `out`. `opened` are the containers that are being written, innermost first,
and `inside` writes the contents of one more of them. -/
def writeWith (h : Heap) (inside : List Container → Value → String → String)
    (opened : List Container) (nested : Bool) : Value → String → String
  | .nil, out => out ++ "nil"
  | .bool b, out => out ++ toString b
  | .int n, out => out ++ toString n.toInt
  | .float x, out => out ++ Decimal.shown.float x
  | .str s, out => out ++ (if nested then Text.quote s else s)
  | .list r, out =>
    if opened.contains (.list r) then out ++ "[...]"
    else writeAll (h.list r) (inside (.list r :: opened)) (out ++ "[") ++ "]"
  | .map r, out =>
    if opened.contains (.map r) then out ++ "\x7b...\x7d"
    else
      let entry := fun (e : Key × Value) (out : String) =>
        inside (.map r :: opened) e.2 (writeKey e.1 out ++ ": ")
      writeAll (h.map r).entries entry (out ++ "\x7b") ++ "\x7d"
  | .set r, out => writeAll (h.set r).keys writeKey (out ++ "\x7b") ++ "\x7d"
  | .function f, out => out ++ "<function " ++ f.name ++ ">"
  | .closure _ f _, out => out ++ "<closure " ++ f.name ++ ">"
  | .builtin _ b, out => out ++ "<builtin " ++ b.name ++ ">"
  | .library _ l, out => out ++ "<module " ++ l.name ++ ">"
  | .result _ isOk v, out =>
    writeWith h inside opened true v (out ++ (if isOk then "ok(" else "err(")) ++ ")"
  | .error _ message, out => out ++ message
  | .resource r, out => out ++ "<" ++ r.typeName ++ ">"
  | .cell c, out => inside opened (h.cell c) (out ++ "<cell ") ++ ">"

/-- Writes a value by at most so many steps into containers and cells. -/
def writeWithin (h : Heap) : Nat → List Container → Bool → Value → String → String
  | 0, opened, nested, v, out => writeWith h (fun _ _ out => out) opened nested v out
  | steps + 1, opened, nested, v, out =>
    writeWith h (fun opened v out => writeWithin h steps opened true v out) opened nested v out

end Value

/-- No path that opens each list and map once, with no cell twice in between, has more steps. -/
def Heap.depthBound (h : Heap) : Nat := (h.lists.size + h.maps.size + 1) * (h.cells.size + 1)

namespace Value

/-- The text of a value, a text being its own. -/
def text (h : Heap) (v : Value) : String := writeWithin h h.depthBound [] false v ""

/-- The text of a value for a programmer: a text is quoted and an error shows its kind. -/
def debugText (h : Heap) (v : Value) : String :=
  match v with
  | .str s => Text.quote s
  | .error kind message => "Error(" ++ kind.name ++ ": " ++ message ++ ")"
  | v => v.text h

end Value

namespace Key

/-- A key written as `Kind(payload)`. -/
def debugText : Key → String
  | nil => "Nil"
  | bool b => "Bool(" ++ toString b ++ ")"
  | int n => "Int(" ++ toString n.toInt ++ ")"
  | str s => "Str(" ++ Text.quote s ++ ")"

end Key

end Ember
