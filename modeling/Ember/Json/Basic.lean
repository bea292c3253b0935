import Ember.Decimal.Layout

/-! JSON documents, and their text without blanks. -/
namespace Ember
set_option autoImplicit false

/-- A whole number of at most 64 bits, or a double. -/
inductive JsonNumber
  | whole (n : Int)
  | float (x : Float)

inductive Json
  | null
  | bool (b : Bool)
  | number (n : JsonNumber)
  | string (s : String)
  | array (items : List Json)
  /-- The members in order; no two have the same name. -/
  | object (members : List (String × Json))

namespace Json

instance : Inhabited Json := ⟨.null⟩

/-! ## Text -/

/-- What a character of a string is written as. -/
def escape (c : Char) : List Char :=
  if c = '"' then ['\\', '"']
  else if c = '\\' then ['\\', '\\']
  else if 0x20 ≤ c.toNat then [c]
  else if c = '\n' then ['\\', 'n']
  else if c = '\r' then ['\\', 'r']
  else if c = '\t' then ['\\', 't']
  else if c.toNat = 0x8 then ['\\', 'b']
  else if c.toNat = 0xc then ['\\', 'f']
  else ['\\', 'u', '0', '0', Nat.digitChar (c.toNat / 16), Nat.digitChar (c.toNat % 16)]

def quoted (s : String) : String :=
  "\"" ++ s.foldl (fun out c => (escape c).foldl String.push out) "" ++ "\""

def numberText : JsonNumber → String
  | .whole n => toString n
  | .float x => Decimal.encoded.float x

mutual

/-- Writes a document after `out`. -/
def write : Json → String → String
  | null, out => out ++ "null"
  | bool b, out => out ++ toString b
  | number n, out => out ++ numberText n
  | string s, out => out ++ quoted s
  | array items, out => writeItems items true (out ++ "[") ++ "]"
  | object members, out => writeMembers members true (out ++ "\x7b") ++ "\x7d"

def writeItems : List Json → Bool → String → String
  | [], _, out => out
  | item :: rest, first, out =>
    writeItems rest false (write item (if first then out else out ++ ","))

def writeMembers : List (String × Json) → Bool → String → String
  | [], _, out => out
  | (name, item) :: rest, first, out =>
    writeMembers rest false (write item ((if first then out else out ++ ",") ++ quoted name ++ ":"))

end

def text (j : Json) : String := j.write ""

end Json
end Ember
