import Ember.Json.Cursor

/-! Leaving out a value of a JSON document. What is left out has to be well formed, but numbers may
be of any size, escapes may stand for no character, and values may be nested to any depth. -/
namespace Ember
namespace Json
set_option autoImplicit false

/-! ## Numbers -/

def skipDigits (s : List Char) : List Char := s.dropWhile Char.isDigit

theorem length_skipDigits_le (s : List Char) : (skipDigits s).length ≤ s.length :=
  length_dropWhile_le _ _

/-- An exponent after its mark. -/
def skipExponent (s : List Char) : Except ReadError { r : List Char // r.length ≤ s.length } :=
  let unsigned := match s with
    | '+' :: r => r
    | '-' :: r => r
    | r => r
  match h : unsigned with
  | [] => failPast [] .invalidNumber
  | c :: r =>
    if c.isDigit then
      .ok ⟨skipDigits r, by
        have := length_skipDigits_le r
        have hs : unsigned.length ≤ s.length := by
          simp only [unsigned]
          split <;> simp
        rw [h, List.length_cons] at hs
        omega⟩
    else failPast (c :: r) .invalidNumber

/-- What may follow the digits of a number. -/
def skipNumberTail (s : List Char) (point : Bool) :
    Except ReadError { r : List Char // r.length ≤ s.length } :=
  match s with
  | [] => .ok ⟨[], Nat.zero_le _⟩
  | c :: r =>
    if c = 'e' || c = 'E' then
      match skipExponent r with
      | .error e => .error e
      | .ok ⟨t, ht⟩ => .ok ⟨t, by simp only [List.length_cons]; omega⟩
    else if point && c = '.' then
      match r with
      | [] => failPast [] .invalidNumber
      | d :: t =>
        if d.isDigit then
          have hd := length_skipDigits_le t
          match skipNumberTail (skipDigits t) false with
          | .error e => .error e
          | .ok ⟨u, hu⟩ => .ok ⟨u, by simp only [List.length_cons]; omega⟩
        else failPast (d :: t) .invalidNumber
    else .ok ⟨c :: r, Nat.le_refl _⟩
termination_by point.toNat
decreasing_by simp_all

/-- A number without its sign. -/
def skipNumber : Reader Unit := fun s =>
  match s with
  | [] => failPast [] .invalidNumber
  | c :: r =>
    if c = '0' then
      match r with
      | d :: t =>
        if d.isDigit then failPast (d :: t) .invalidNumber
        else
          match skipNumberTail (d :: t) true with
          | .error e => .error e
          | .ok ⟨u, hu⟩ => .ok ⟨(), u, Nat.lt_succ_of_le hu⟩
      | [] => .ok ⟨(), [], Nat.succ_pos _⟩
    else if c.isDigit then
      have hd := length_skipDigits_le r
      match skipNumberTail (skipDigits r) true with
      | .error e => .error e
      | .ok ⟨u, hu⟩ => .ok ⟨(), u, Nat.lt_succ_of_le (Nat.le_trans hu hd)⟩
    else failPast (c :: r) .invalidNumber

/-! ## Strings -/

/-- The rest of a string after its opening quote. Escapes have the right form, but may stand for no
character. -/
def skipText (bound : Nat) (s : List Char) (h : s.length < bound) :
    Except ReadError (Read Unit bound) :=
  match s with
  | [] => failAt [] .eofString
  | c :: r =>
    have hr : r.length < bound := length_lt_of_cons h
    if c = '"' then .ok ⟨(), r, hr⟩
    else if c = '\\' then
      match r with
      | [] => failAt [] .eofString
      | d :: t =>
        have ht : t.length < bound := length_lt_of_cons hr
        if (simpleEscape? d).isSome then skipText bound t ht
        else if d = 'u' then
          match readHex t with
          | .error e => .error e
          | .ok ⟨_, u, hu⟩ => skipText bound u (by omega)
        else failPast (d :: t) .invalidEscape
    else if c.toNat < 0x20 then failAt (c :: r) .controlCharacter
    else skipText bound r hr
termination_by s.length
decreasing_by all_goals (simp only [List.length_cons]; omega)

/-- A name in an object, with the colon. -/
def skipName : Reader Unit := fun s =>
  match h : skipBlank s with
  | [] => failPast [] .eofObject
  | c :: r =>
    have hr : r.length < s.length := length_lt_of_skipBlank h
    if c = '"' then
      match skipText s.length r hr with
      | .error e => .error e
      | .ok ⟨_, t, ht⟩ => (readColon t).map fun x => x.widenLt ht
    else failPast (c :: r) .nameNotString

/-! ## Values -/

/-- A list or an object that has not been closed. -/
inductive Opened
  | list
  | object
  deriving DecidableEq, Repr

namespace Opened

def closing : Opened → Char
  | list => ']'
  | object => '\x7d'

/-- The problem if the document ends too early. -/
def ended : Opened → Problem
  | list => .eofList
  | object => .eofObject

/-- The problem if an item is followed neither by a comma nor by the end. -/
def undivided : Opened → Problem
  | list => .expectedListComma
  | object => .expectedObjectComma

end Opened

/-- A value that is neither a list nor an object. -/
def skipScalar : Reader Unit := fun s =>
  match s with
  | [] => failPast [] .eofValue
  | c :: r =>
    if c = 'n' then readWord ['u', 'l', 'l'] r
    else if c = 't' then readWord ['r', 'u', 'e'] r
    else if c = 'f' then readWord ['a', 'l', 's', 'e'] r
    else if c = '-' then (skipNumber r).map (Read.behind c)
    else if c.isDigit then skipNumber (c :: r)
    else if c = '"' then skipText (r.length + 1) r (length_lt_length_succ r)
    else failPast (c :: r) .expectedValue

mutual

/-- Leaves out a value, and then what follows it up to the end of all that is open, innermost
first. -/
def skipValue (opened : List Opened) (bound : Nat) (s : List Char) (h : s.length ≤ bound) :
    Except ReadError (Read Unit bound) :=
  match hc : skipBlank s with
  | [] => failPast [] .eofValue
  | c :: r =>
    have hcr : (c :: r).length ≤ s.length := length_le_of_skipBlank hc
    have hr : r.length < s.length := length_lt_of_skipBlank hc
    if c = '[' then skipInside .list opened true bound r (by omega)
    else if c = '\x7b' then skipInside .object opened true bound r (by omega)
    else
      match skipScalar (c :: r) with
      | .error e => .error e
      | .ok ⟨_, t, ht⟩ =>
        match opened with
        | [] => .ok ⟨(), t, by omega⟩
        | o :: outer => skipInside o outer false bound t (by omega)
termination_by (s.length, 0)
decreasing_by
  · exact Prod.Lex.left _ _ (by omega)
  · exact Prod.Lex.left _ _ (by omega)
  · exact Prod.Lex.left _ _ (by omega)

/-- Goes on inside a list or an object, before its first item or after another one. -/
def skipInside (o : Opened) (outer : List Opened) (first : Bool) (bound : Nat) (s : List Char)
    (h : s.length < bound) : Except ReadError (Read Unit bound) :=
  match hc : skipBlank s with
  | [] => failPast [] o.ended
  | c :: r =>
    have hcr : (c :: r).length ≤ s.length := length_le_of_skipBlank hc
    have hr : r.length < s.length := length_lt_of_skipBlank hc
    if c = o.closing then
      match outer with
      | [] => .ok ⟨(), r, by omega⟩
      | o :: outer => skipInside o outer false bound r (by omega)
    else if first then
      match o with
      | .list => skipValue (.list :: outer) bound (c :: r) (by omega)
      | .object =>
        match skipName (c :: r) with
        | .error e => .error e
        | .ok ⟨_, t, ht⟩ => skipValue (.object :: outer) bound t (by omega)
    else if c = ',' then
      match o with
      | .list => skipValue (.list :: outer) bound r (by omega)
      | .object =>
        match skipName r with
        | .error e => .error e
        | .ok ⟨_, t, ht⟩ => skipValue (.object :: outer) bound t (by omega)
    else failPast (c :: r) o.undivided
termination_by (s.length, 1)
decreasing_by
  · exact Prod.Lex.left _ _ (by omega)
  · rcases Nat.lt_or_eq_of_le hcr with hlt | heq
    · exact Prod.Lex.left _ _ hlt
    · rw [heq]; exact Prod.Lex.right _ (by omega)
  · exact Prod.Lex.left _ _ (by omega)
  · exact Prod.Lex.left _ _ (by omega)
  · exact Prod.Lex.left _ _ (by omega)

end

/-- Leaves out one value. -/
def skip : Reader Unit := fun s => skipValue [] s.length s (by omega)

end Json
end Ember
