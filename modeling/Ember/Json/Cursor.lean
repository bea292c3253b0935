import Ember.Decimal.Reader
import Ember.Json.Basic

/-! Reading the parts of a JSON document from the front of a list of characters: blanks, words,
numbers, strings, and the punctuation of arrays and objects. A reader that succeeds leaves fewer
characters than it was given. A failure is reported at a position that counts bytes. -/
namespace Ember
namespace Json
set_option autoImplicit false

/-! ## Failures -/

inductive Problem
  | eofValue
  | eofList
  | eofObject
  | eofString
  | expectedValue
  | expectedWord
  | expectedColon
  | expectedListComma
  | expectedObjectComma
  | trailingComma
  | trailingCharacters
  | nameNotString
  | invalidNumber
  | numberOutOfRange
  | invalidEscape
  | controlCharacter
  | loneSurrogate
  | endOfHexEscape
  | tooDeep
  /-- A value of another type than is asked for. -/
  | wrongType (found expected : String)
  /-- A value of the right type that is not in its range. -/
  | wrongValue (found expected : String)
  | duplicateField (name : String)
  deriving DecidableEq, Repr

def Problem.message : Problem → String
  | eofValue => "EOF while parsing a value"
  | eofList => "EOF while parsing a list"
  | eofObject => "EOF while parsing an object"
  | eofString => "EOF while parsing a string"
  | expectedValue => "expected value"
  | expectedWord => "expected ident"
  | expectedColon => "expected `:`"
  | expectedListComma => "expected `,` or `]`"
  | expectedObjectComma => "expected `,` or `\x7d`"
  | trailingComma => "trailing comma"
  | trailingCharacters => "trailing characters"
  | nameNotString => "key must be a string"
  | invalidNumber => "invalid number"
  | numberOutOfRange => "number out of range"
  | invalidEscape => "invalid escape"
  | controlCharacter => "control character (\\u0000-\\u001F) found while parsing a string"
  | loneSurrogate => "lone leading surrogate in hex escape"
  | endOfHexEscape => "unexpected end of hex escape"
  | tooDeep => "recursion limit exceeded"
  | wrongType found expected => s!"invalid type: {found}, expected {expected}"
  | wrongValue found expected => s!"invalid value: {found}, expected {expected}"
  | duplicateField name => s!"duplicate field `{name}`"

/-- A problem, and the number of bytes of the document that are left where it is noticed. -/
structure ReadError where
  problem : Problem
  left : Nat
  deriving DecidableEq, Repr

def byteSize (s : List Char) : Nat := s.foldl (fun n c => n + c.utf8Size) 0

/-- A problem before the first of the characters that are left. -/
def failAt {α : Type} (s : List Char) (p : Problem) : Except ReadError α := .error ⟨p, byteSize s⟩

/-- A problem with the first byte that is left. -/
def failPast {α : Type} (s : List Char) (p : Problem) : Except ReadError α :=
  .error ⟨p, byteSize s - 1⟩

/-- The line and the column after so many bytes: lines count from one, columns from zero. -/
def advance : List Char → Nat → Nat → Nat → Nat × Nat
  | [], _, line, column => (line, column)
  | c :: s, bytes, line, column =>
    if bytes < c.utf8Size then (line, column + bytes)
    else if c = '\n' then advance s (bytes - 1) (line + 1) 0
    else advance s (bytes - c.utf8Size) line (column + c.utf8Size)

def ReadError.message (source : String) (e : ReadError) : String :=
  let (line, column) := advance source.toList (source.utf8ByteSize - e.left) 1 0
  let problem := e.problem.message
  s!"{problem} at line {line} column {column}"

/-! ## Results -/

/-- What was read, and the characters that are left, of which there are fewer than `bound`. -/
structure Read (α : Type) (bound : Nat) where
  value : α
  rest : List Char
  shorter : rest.length < bound

namespace Read

def widen {α : Type} {m n : Nat} (r : Read α m) (h : m ≤ n) : Read α n :=
  ⟨r.value, r.rest, Nat.lt_of_lt_of_le r.shorter h⟩

def widenLt {α : Type} {m n : Nat} (r : Read α m) (h : m < n) : Read α n := r.widen (Nat.le_of_lt h)

/-- What was read of `s`, as a part of `c :: s`. -/
def behind {α : Type} {s : List Char} (c : Char) (r : Read α s.length) : Read α (c :: s).length :=
  r.widen (Nat.le_succ _)

def map {α β : Type} {n : Nat} (f : α → β) (r : Read α n) : Read β n :=
  ⟨f r.value, r.rest, r.shorter⟩

end Read

/-- A reader of the characters `s`. -/
abbrev Reader (α : Type) : Type := (s : List Char) → Except ReadError (Read α s.length)

def isBlank (c : Char) : Bool := c == ' ' || c == '\n' || c == '\t' || c == '\r'

def skipBlank (s : List Char) : List Char := s.dropWhile isBlank

theorem length_lt_length_succ (s : List Char) : s.length < s.length + 1 := Nat.lt_succ_self _

theorem length_lt_of_cons {c : Char} {s : List Char} {bound : Nat} (h : (c :: s).length < bound) :
    s.length < bound := Nat.lt_of_succ_lt h

theorem length_dropWhile_le {α : Type} (p : α → Bool) (s : List α) :
    (s.dropWhile p).length ≤ s.length := by
  induction s with
  | nil => simp
  | cons c s ih =>
    rw [List.dropWhile_cons]
    split
    · exact Nat.le_trans ih (Nat.le_succ _)
    · exact Nat.le_refl _

theorem length_skipBlank_le (s : List Char) : (skipBlank s).length ≤ s.length :=
  length_dropWhile_le _ _

theorem length_le_of_skipBlank {s r : List Char} {c : Char} (h : skipBlank s = c :: r) :
    (c :: r).length ≤ s.length := h ▸ length_skipBlank_le s

theorem length_lt_of_skipBlank {s r : List Char} {c : Char} (h : skipBlank s = c :: r) :
    r.length < s.length := by
  have := length_skipBlank_le s
  rw [h, List.length_cons] at this
  omega

/-! ## Words -/

/-- The characters of a word, one by one. -/
def readWord : List Char → (s : List Char) → Except ReadError (Read Unit (s.length + 1))
  | [], s => .ok ⟨(), s, length_lt_length_succ s⟩
  | _ :: _, [] => failAt [] .eofValue
  | c :: word, d :: s =>
    if c = d then
      match readWord word s with
      | .ok r => .ok (r.widen (by simp))
      | .error e => .error e
    else failPast (d :: s) .expectedWord

/-! ## Numbers -/

/-- Digits read as a number: its value, how many digits it has, how many more digits did not fit,
and what follows them all. -/
structure Digits where
  value : Nat
  used : Nat
  dropped : Nat
  rest : List Char

/-- Continues the number `value` by the digits that follow, as long as it is at most `limit`. -/
def absorb (limit value used : Nat) : List Char → Nat × Nat × List Char
  | [] => (value, used, [])
  | c :: s =>
    let next := value * 10 + Decimal.digitValue c
    if c.isDigit && next ≤ limit then absorb limit next (used + 1) s else (value, used, c :: s)

theorem length_absorb_le (limit value used : Nat) (s : List Char) :
    (absorb limit value used s).2.2.length ≤ s.length := by
  induction s generalizing value used with
  | nil => simp [absorb]
  | cons c s ih =>
    rw [absorb]
    split
    · exact Nat.le_trans (ih _ _) (Nat.le_succ _)
    · simp

def readDigits (limit value : Nat) (s : List Char) : Digits :=
  let (value, used, rest) := absorb limit value 0 s
  let after := rest.dropWhile Char.isDigit
  ⟨value, used, rest.length - after.length, after⟩

theorem length_readDigits_le (limit value : Nat) (s : List Char) :
    (readDigits limit value s).rest.length ≤ s.length :=
  Nat.le_trans (length_dropWhile_le _ _) (length_absorb_le limit value 0 s)

/-- The greatest whole number that is kept as such. -/
def maxWhole : Nat := 18446744073709551615

/-- The greatest exponent that is read. -/
def maxExponent : Nat := 2147483647

def powerOfTen (n : Nat) : Float := Float.ofScientific 1 false n

/-- Divides by a power of ten, at most by `10^308` at a time. -/
def divideByPower (x : Float) (n : Nat) : Float :=
  if n ≤ 308 then x / powerOfTen n
  else if x == 0 then x
  else divideByPower (x / powerOfTen 308) (n - 308)
termination_by n

/-- The double `significand * 10^exponent`, computed by one rounded product or by quotients. There
is none beyond the range of doubles. -/
def scale? (significand : Nat) (exponent : Int) : Option Float :=
  let x := Float.ofNat significand
  if exponent < 0 then some (divideByPower x exponent.natAbs)
  else if exponent ≤ 308 then
    let y := x * powerOfTen exponent.toNat
    if y.isInf then none else some y
  else if x == 0 then some x else none

/-- The double with the given sign and parts, if it is in range. -/
def readScaled (negative : Bool) (significand : Nat) (exponent : Int) (s : List Char) :
    Except ReadError (Read Float (s.length + 1)) :=
  match scale? significand exponent with
  | some x => .ok ⟨if negative then -x else x, s, by omega⟩
  | none => failAt s .numberOutOfRange

/-- The digits of an exponent. If they are too many, the number is zero, or out of range. -/
def readExponentDigits (negative : Bool) (significand : Nat) (exponent : Int)
    (negativeExponent : Bool) (s : List Char) : Except ReadError (Read Float (s.length + 1)) :=
  match s with
  | [] => failAt [] .eofValue
  | c :: t =>
    if c.isDigit then
      match h : absorb maxExponent 0 0 (c :: t) with
      | (value, _, rest) =>
        have hrest : rest.length ≤ (c :: t).length := by
          have := length_absorb_le maxExponent 0 0 (c :: t)
          rwa [h] at this
        match rest with
        | d :: after =>
          if d.isDigit then
            if significand ≠ 0 && !negativeExponent then failAt after .numberOutOfRange
            else
              let zero : Float := if negative then -0.0 else 0.0
              have := length_dropWhile_le Char.isDigit after
              .ok ⟨zero, after.dropWhile Char.isDigit, by
                simp only [List.length_cons] at hrest ⊢
                omega⟩
          else
            (readScaled negative significand
              (if negativeExponent then exponent - value else exponent + value) (d :: after)).map
                fun r => r.widen (by omega)
        | [] =>
          (readScaled negative significand
            (if negativeExponent then exponent - value else exponent + value) []).map
              fun r => r.widen (by simp)
    else failPast (c :: t) .invalidNumber

/-- An exponent, if there is one. -/
def readExponent (negative : Bool) (significand : Nat) (exponent : Int) (s : List Char) :
    Except ReadError (Read Float (s.length + 1)) :=
  match s with
  | c :: r =>
    if c = 'e' || c = 'E' then
      match r with
      | '+' :: t =>
        (readExponentDigits negative significand exponent false t).map fun x => x.widen (by simp)
      | '-' :: t =>
        (readExponentDigits negative significand exponent true t).map fun x => x.widen (by simp)
      | t =>
        (readExponentDigits negative significand exponent false t).map fun x => x.widen (by simp)
    else readScaled negative significand exponent (c :: r)
  | [] => readScaled negative significand exponent []

/-- What follows the point of a number: at least one digit, and perhaps an exponent. -/
def readFraction (negative : Bool) (significand : Nat) (exponent : Int) (s : List Char) :
    Except ReadError (Read Float (s.length + 1)) :=
  match s with
  | [] => failPast [] .eofValue
  | c :: t =>
    if c.isDigit then
      let ds := readDigits maxWhole significand (c :: t)
      have hds : ds.rest.length ≤ (c :: t).length :=
        length_readDigits_le maxWhole significand (c :: t)
      (readExponent negative ds.value (exponent - ds.used) ds.rest).map fun r => r.widen (by omega)
    else failPast (c :: t) .invalidNumber

/-- What follows the digits before the point. A whole number that does not fit is read as a double,
and so is the negative zero. -/
def readAfterWhole (negative : Bool) (ds : Digits) :
    Except ReadError (Read JsonNumber (ds.rest.length + 1)) :=
  match ds.rest with
  | '.' :: r =>
    (readFraction negative ds.value ds.dropped r).map fun x => (x.map .float).widen (by simp)
  | c :: r =>
    if c = 'e' || c = 'E' || 0 < ds.dropped then
      (readExponent negative ds.value ds.dropped (c :: r)).map fun x => x.map .float
    else .ok ⟨whole, c :: r, by omega⟩
  | [] =>
    if 0 < ds.dropped then (readScaled negative ds.value ds.dropped []).map fun x => x.map .float
    else .ok ⟨whole, [], by simp⟩
where
  whole : JsonNumber :=
    if !negative then .whole ds.value
    else if ds.value = 0 || 9223372036854775808 < ds.value then .float (-(Float.ofNat ds.value))
    else .whole (-(ds.value : Int))

/-- A number without its sign. -/
def readNumber (negative : Bool) : Reader JsonNumber := fun s =>
  match s with
  | [] => failAt [] .eofValue
  | c :: r =>
    if c = '0' then
      match r with
      | d :: t =>
        if d.isDigit then failPast (d :: t) .invalidNumber
        else readAfterWhole negative ⟨0, 1, 0, d :: t⟩
      | [] => readAfterWhole negative ⟨0, 1, 0, []⟩
    else if c.isDigit then
      let ds := readDigits maxWhole (Decimal.digitValue c) r
      have hds : ds.rest.length ≤ r.length := length_readDigits_le maxWhole (Decimal.digitValue c) r
      (readAfterWhole negative ds).map fun x => x.widen (by simp only [List.length_cons]; omega)
    else failPast (c :: r) .invalidNumber

/-! ## Strings -/

def hexValue? (c : Char) : Option Nat :=
  if c.isDigit then some (c.toNat - 48)
  else if 'a' ≤ c ∧ c ≤ 'f' then some (c.toNat - 87)
  else if 'A' ≤ c ∧ c ≤ 'F' then some (c.toNat - 55)
  else none

/-- The number that four characters stand for, if all are hexadecimal digits. -/
def hexNumber? (a b c d : Char) : Option Nat := do
  return (((← hexValue? a) * 16 + (← hexValue? b)) * 16 + (← hexValue? c)) * 16 + (← hexValue? d)

/-- Four hexadecimal digits. -/
def readHex (s : List Char) : Except ReadError (Read Nat (s.length + 1)) :=
  match s with
  | a :: b :: c :: d :: r =>
    match hexNumber? a b c d with
    | some n => .ok ⟨n, r, by simp only [List.length_cons]; omega⟩
    | none => .error ⟨.invalidEscape, byteSize s - 4⟩
  | s => if byteSize s < 4 then .error ⟨.eofString, 0⟩ else .error ⟨.invalidEscape, byteSize s - 4⟩

def isLeadingSurrogate (n : Nat) : Bool := 0xd800 ≤ n && n ≤ 0xdbff

def isTrailingSurrogate (n : Nat) : Bool := 0xdc00 ≤ n && n ≤ 0xdfff

/-- The character that a hexadecimal escape stands for, together with the escape after it if the
two are a pair of surrogates. -/
def readUnicode (s : List Char) : Except ReadError (Read Char (s.length + 1)) :=
  match readHex s with
  | .error e => .error e
  | .ok ⟨n, r, h⟩ =>
    if isTrailingSurrogate n then failAt r .loneSurrogate
    else if isLeadingSurrogate n then
      match r with
      | [] => failAt [] .eofString
      | ['\\'] => failAt [] .eofString
      | '\\' :: 'u' :: t =>
        match readHex t with
        | .error e => .error e
        | .ok ⟨m, u, hu⟩ =>
          if isTrailingSurrogate m then
            .ok ⟨Char.ofNat (0x10000 + (n - 0xd800) * 0x400 + (m - 0xdc00)), u, by
              simp only [List.length_cons] at h
              omega⟩
          else failAt u .loneSurrogate
      | '\\' :: t => failPast t .endOfHexEscape
      | t => failPast t .endOfHexEscape
    else .ok ⟨Char.ofNat n, r, h⟩

def simpleEscape? (c : Char) : Option Char :=
  match c with
  | '"' => some '"'
  | '\\' => some '\\'
  | '/' => some '/'
  | 'b' => some (Char.ofNat 0x8)
  | 'f' => some (Char.ofNat 0xc)
  | 'n' => some '\n'
  | 'r' => some '\r'
  | 't' => some '\t'
  | _ => none

/-- What follows a backslash. -/
def readEscape (s : List Char) : Except ReadError (Read Char (s.length + 1)) :=
  match s with
  | [] => failAt [] .eofString
  | c :: r =>
    match simpleEscape? c with
    | some d => .ok ⟨d, r, by simp only [List.length_cons]; omega⟩
    | none =>
      if c = 'u' then (readUnicode r).map fun x => x.widen (by simp)
      else failPast (c :: r) .invalidEscape

/-- The rest of a string after its opening quote, added to `out`. -/
def readTextAfter (bound : Nat) (s : List Char) (h : s.length < bound) (out : String) :
    Except ReadError (Read String bound) :=
  match s with
  | [] => failAt [] .eofString
  | c :: r =>
    have hr : r.length < bound := length_lt_of_cons h
    if c = '"' then .ok ⟨out, r, hr⟩
    else if c = '\\' then
      match readEscape r with
      | .error e => .error e
      | .ok ⟨d, t, ht⟩ => readTextAfter bound t (by omega) (out.push d)
    else if c.toNat < 0x20 then failPast (c :: r) .controlCharacter
    else readTextAfter bound r hr (out.push c)
termination_by s.length
decreasing_by all_goals (simp only [List.length_cons]; omega)

/-- The rest of a string after its opening quote. -/
def readText (s : List Char) : Except ReadError (Read String (s.length + 1)) :=
  readTextAfter (s.length + 1) s (length_lt_length_succ s) ""

/-! ## Arrays and objects -/

/-- The items of an array from the first one on, added to `found`, and the closing bracket. -/
def readElements {α : Type} (item : Reader α) (bound : Nat) (s : List Char) (h : s.length ≤ bound)
    (found : Array α) : Except ReadError (Read (Array α) bound) :=
  match item s with
  | .error e => .error e
  | .ok ⟨v, r, hr⟩ =>
    match hc : skipBlank r with
    | [] => failPast [] .eofList
    | c :: t =>
      have ht := length_lt_of_skipBlank hc
      if c = ']' then .ok ⟨found.push v, t, by omega⟩
      else if c = ',' then
        have hlen := length_skipBlank_le t
        match hd : skipBlank t with
        | [] => failPast [] .eofValue
        | d :: u =>
          if d = ']' then failPast (d :: u) .trailingComma
          else readElements item bound (d :: u) (by rw [hd] at hlen; omega) (found.push v)
      else failPast (c :: t) .expectedListComma
termination_by s.length
decreasing_by rw [hd] at hlen; omega

/-- The items of an array after its opening bracket. -/
def readArray {α : Type} (item : Reader α) : Reader (Array α) := fun s =>
  match h : skipBlank s with
  | [] => failPast [] .eofList
  | c :: r =>
    if c = ']' then .ok ⟨#[], r, length_lt_of_skipBlank h⟩
    else
      readElements item s.length (c :: r) (length_le_of_skipBlank h) #[]

/-- The colon between a name and its value. -/
def readColon : Reader Unit := fun s =>
  match h : skipBlank s with
  | [] => failPast [] .eofObject
  | c :: r =>
    if c = ':' then .ok ⟨(), r, length_lt_of_skipBlank h⟩ else failPast (c :: r) .expectedColon

/-- The members of an object from the first one on, and the closing brace. A member is read after
its name, and changes the state. -/
def readMembers {σ : Type} (member : σ → String → Reader σ) (bound : Nat) (s : List Char)
    (h : s.length ≤ bound) (state : σ) : Except ReadError (Read σ bound) :=
  match s with
  | [] => failPast [] .eofValue
  | quote :: s =>
    if quote ≠ '"' then failPast (quote :: s) .nameNotString
    else
      match readText s with
      | .error e => .error e
      | .ok ⟨name, afterName, hname⟩ =>
        match member state name afterName with
        | .error e => .error e
        | .ok ⟨state, r, hr⟩ =>
          match hc : skipBlank r with
          | [] => failPast [] .eofObject
          | c :: t =>
            have ht := length_lt_of_skipBlank hc
            have hs : s.length < bound := h
            if c = '\x7d' then .ok ⟨state, t, by omega⟩
            else if c = ',' then
              have hlen := length_skipBlank_le t
              match hd : skipBlank t with
              | [] => failPast [] .eofValue
              | d :: u =>
                if d = '\x7d' then failPast (d :: u) .trailingComma
                else readMembers member bound (d :: u) (by rw [hd] at hlen; omega) state
            else failPast (c :: t) .expectedObjectComma
termination_by s.length
decreasing_by rw [hd] at hlen; simp only [List.length_cons] at hlen ⊢; omega

/-- The members of an object after its opening brace. -/
def readObject {σ : Type} (member : σ → String → Reader σ) (state : σ) : Reader σ := fun s =>
  match h : skipBlank s with
  | [] => failPast [] .eofObject
  | c :: r =>
    if c = '\x7d' then .ok ⟨state, r, length_lt_of_skipBlank h⟩
    else
      readMembers member s.length (c :: r) (length_le_of_skipBlank h) state

end Json
end Ember
