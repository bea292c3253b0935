import Ember.Json.Cursor
import Ember.OrderedMap

/-! Reading a JSON document. Of members of the same name the first one gives the place and the last
one the value. Arrays and objects may be nested to a limited depth. -/
namespace Ember
namespace Json
set_option autoImplicit false

/-- How deep arrays and objects may be nested. -/
def maxDepth : Nat := 127

/-- A document. Arrays and objects are read by `inner`, if they are allowed. -/
def readWith (inner? : Option (Reader Json)) : Reader Json := fun s =>
  match h : skipBlank s with
  | [] => failPast [] .eofValue
  | c :: r =>
    have hr : r.length < s.length := length_lt_of_skipBlank h
    have hcr : (c :: r).length ≤ s.length := length_le_of_skipBlank h
    if c = 'n' then (readWord ['u', 'l', 'l'] r).map fun x => (x.map fun _ => .null).widen hr
    else if c = 't' then
      (readWord ['r', 'u', 'e'] r).map fun x => (x.map fun _ => .bool true).widen hr
    else if c = 'f' then
      (readWord ['a', 'l', 's', 'e'] r).map fun x => (x.map fun _ => .bool false).widen hr
    else if c = '-' then
      (readNumber true r).map fun x => (x.map .number).widenLt hr
    else if c.isDigit then (readNumber false (c :: r)).map fun x => (x.map .number).widen hcr
    else if c = '"' then (readText r).map fun x => (x.map .string).widen hr
    else if c = '[' then
      match inner? with
      | none => failPast (c :: r) .tooDeep
      | some inner =>
        (readArray inner r).map fun x =>
          (x.map fun items => .array items.toList).widenLt hr
    else if c = '\x7b' then
      match inner? with
      | none => failPast (c :: r) .tooDeep
      | some inner =>
        let member : OrderedMap String Json → String → Reader (OrderedMap String Json) :=
          fun members name s =>
            match readColon s with
            | .error e => .error e
            | .ok ⟨_, t, ht⟩ => (inner t).map fun x => (x.map (members.insert name)).widenLt ht
        (readObject member .empty r).map fun x =>
          (x.map fun members => .object members.toList).widenLt hr
    else failPast (c :: r) .expectedValue

/-- A document whose arrays and objects are nested at most so deep. -/
def readValue : Nat → Reader Json
  | 0 => readWith none
  | depth + 1 => readWith (some (readValue depth))

/-- Nothing but blanks may follow a document. -/
def checkEnd {α : Type} (value : α) (s : List Char) : Except ReadError α :=
  match skipBlank s with
  | [] => .ok value
  | rest => failPast rest .trailingCharacters

def parse (source : String) : Except ReadError Json :=
  match readValue maxDepth source.toList with
  | .error e => .error e
  | .ok r => checkEnd r.value r.rest

end Json
end Ember
