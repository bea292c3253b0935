import Ember.Builtin.Arguments
import Ember.Text.Blank
import Ember.Text.Case
import Ember.Text.Search

/-! The functions of the library `strings`. -/
namespace Ember
namespace StringsFunction
set_option autoImplicit false

/-- A function of one text. -/
def unary (name : String) (f : String → String) (args : Array Value) : Except CallFault Value := do
  return .str (f (← strArgument name (← oneArgument name args)))

/-- A property of two texts. -/
def relation (name : String) (f : String → String → Bool) (args : Array Value) :
    Except CallFault Value := do
  let (v, w) ← twoArguments name args
  let s ← strArgument name v
  let t ← strArgument name w
  return .bool (f s t)

def joined (h : Heap) (args : Array Value) : Except CallFault Value := do
  let (items, sep) ← twoArguments "join" args
  match items with
  | .list r =>
    let sep ← strArgument "join" sep
    let parts ← (h.list r).toList.mapM (strArgument "join")
    return .str (Text.join parts sep)
  | v => wrongType "join" "a list" v

def replaced (args : Array Value) : Except CallFault Value := do
  let (text, old, new) ← threeArguments "replace" args
  let s ← strArgument "replace" text
  let old ← strArgument "replace" old
  let new ← strArgument "replace" new
  return .str (Text.replace s old new)

/-- A text repeated, as long as it does not become too long. -/
def repeated (args : Array Value) : Except CallFault Value := do
  let (text, count) ← twoArguments "repeat" args
  let s ← strArgument "repeat" text
  let n ← intArgument "repeat" count
  if n < 0 then throw .negativeRepeat
  else if (repeatLength? s.utf8ByteSize n.toInt).isNone then throw (.repeatTooLarge n.toInt)
  else return .str (if s.isEmpty then "" else repeatText s n.toInt.toNat "")

def parts (args : Array Value) : Except CallFault (Array Value) := do
  let (text, sep) ← twoArguments "split" args
  let s ← strArgument "split" text
  let sep ← strArgument "split" sep
  return (Text.split s sep).map .str

def call (f : StringsFunction) (args : Array Value) : HeapCall :=
  match f with
  | .toUpper => ask fun _ => unary "to_upper" Text.toUpper args
  | .toLower => ask fun _ => unary "to_lower" Text.toLower args
  | .trim => ask fun _ => unary "trim" Text.trim args
  | .split => do
    let items ← ask fun _ => parts args
    OnHeap.newList items
  | .join => ask fun h => joined h args
  | .contains => ask fun _ => relation "contains" Text.contains args
  | .hasPrefix => ask fun _ => relation "has_prefix" Text.hasPrefix args
  | .hasSuffix => ask fun _ => relation "has_suffix" Text.hasSuffix args
  | .replace => ask fun _ => replaced args
  | .repeat => ask fun _ => repeated args

end StringsFunction
end Ember
