import Ember.Json.Reader
import Ember.Value.Text

/-! Values as JSON documents and back. A list or map that contains itself has no document. Keys of
maps become names by their text, so that keys of different types may fall together. -/
namespace Ember
set_option autoImplicit false

/-! ## Values as documents -/

inductive EncodeFault
  | notFinite (x : Float)
  | cyclicList
  | cyclicMap
  | unsupported (type : String)

def EncodeFault.message : EncodeFault → String
  | notFinite x => "cannot encode " ++ Decimal.bare.float x ++ " as json"
  | cyclicList => "cannot encode a cyclic list as json"
  | cyclicMap => "cannot encode a cyclic map as json"
  | unsupported type => "cannot encode " ++ type ++ " as json"

namespace Json

/-- The name of a member that stands for an entry of a map. -/
def nameOfKey : Key → String
  | .nil => "nil"
  | .bool b => toString b
  | .int n => toString n.toInt
  | .str s => s

def ofKey : Key → Json
  | .nil => .null
  | .bool b => .bool b
  | .int n => .number (.whole n.toInt)
  | .str s => .string s

/-- The members that stand for the entries of a map, added to `found`. -/
def membersOf (inside : Value → Except EncodeFault Json) :
    List (Key × Value) → OrderedMap String Json → Except EncodeFault (OrderedMap String Json)
  | [], found => .ok found
  | (k, v) :: rest, found =>
    match inside v with
    | .error e => .error e
    | .ok item => membersOf inside rest (found.insert (nameOfKey k) item)

/-- The document of a value. `opened` are the containers around it, innermost first, and `inside`
gives the documents of the contents of one more of them. -/
def ofValueWith (h : Heap) (inside : List Container → Value → Except EncodeFault Json)
    (opened : List Container) (v : Value) : Except EncodeFault Json :=
  match v with
  | .nil => .ok .null
  | .bool b => .ok (.bool b)
  | .int n => .ok (.number (.whole n.toInt))
  | .float x => if x.isFinite then .ok (.number (.float x)) else .error (.notFinite x)
  | .str s => .ok (.string s)
  | .list r =>
    if opened.contains (.list r) then .error .cyclicList
    else ((h.list r).toList.mapM (inside (.list r :: opened))).map .array
  | .set r => .ok (.array ((h.set r).keys.toList.map ofKey))
  | .map r =>
    if opened.contains (.map r) then .error .cyclicMap
    else
      match membersOf (inside (.map r :: opened)) (h.map r).toList .empty with
      | .error e => .error e
      | .ok members => .ok (.object members.toList)
  | .result .. | .error .. => .ok (.string (v.text h))
  | v => .error (.unsupported v.typeName)

/-- The document of a value, by at most so many steps into containers. -/
def ofValueWithin (h : Heap) : Nat → List Container → Value → Except EncodeFault Json
  | 0, opened, v => ofValueWith h (fun _ _ => .ok .null) opened v
  | steps + 1, opened, v => ofValueWith h (ofValueWithin h steps) opened v

/-- The document of a value. A path that opens each list and map once has no more steps than there
are lists and maps. -/
def ofValue (h : Heap) (v : Value) : Except EncodeFault Json :=
  ofValueWithin h (h.lists.size + h.maps.size) [] v

/-! ## Documents as values -/

/-- A whole number that is too large for an integer becomes a double. -/
def valueOfNumber : JsonNumber → Value
  | .whole n =>
    if -9223372036854775808 ≤ n ∧ n ≤ 9223372036854775807 then .int (Int64.ofInt n)
    else .float (Float.ofInt n)
  | .float x => .float x

mutual

/-- The value of a document, in new containers. -/
def toValue : Json → Heap → Value × Heap
  | null, h => (.nil, h)
  | bool b, h => (.bool b, h)
  | number n, h => (valueOfNumber n, h)
  | string s, h => (.str s, h)
  | array items, h =>
    let (values, h) := toValues items #[] h
    h.listValue values
  | object members, h =>
    let (entries, h) := toEntries members .empty h
    h.mapValue entries

def toValues : List Json → Array Value → Heap → Array Value × Heap
  | [], found, h => (found, h)
  | item :: rest, found, h =>
    let (v, h) := toValue item h
    toValues rest (found.push v) h

def toEntries : List (String × Json) → OrderedMap Key Value → Heap →
    OrderedMap Key Value × Heap
  | [], found, h => (found, h)
  | (name, item) :: rest, found, h =>
    let (v, h) := toValue item h
    toEntries rest (found.insert (.str name) v) h

end

end Json
end Ember
