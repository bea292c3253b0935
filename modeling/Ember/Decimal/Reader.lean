/-! Reading decimals as doubles, and exact operations on doubles that go through their bits. -/
namespace Ember.Decimal
set_option autoImplicit false

/-! ## Reading -/

def digitValue (c : Char) : Nat := c.toNat - 48

/-- The number that digits stand for. -/
def digitsValue (ds : List Char) : Nat := ds.foldl (fun n d => n * 10 + digitValue d) 0

/-- The number that digits stand for, except that no digit counts after the number reaches `cap`. It
is below `cap` just if the number without the exception is, and is then the same number. -/
def cappedValue (cap : Nat) (ds : List Char) : Nat :=
  ds.foldl (fun n d => if n < cap then n * 10 + digitValue d else n) 0

/-- The double nearest to `digits * 10^exponent`. Far outside the range of doubles the answer is
known from the size of the number alone. -/
def nearest (digits : Nat) (exponent : Int) : Float :=
  if digits == 0 then 0
  else
    let leading := exponent + ((toString digits).length : Int)
    if 400 < leading then 1 / 0
    else if leading < -400 then 0
    else if exponent < 0 then Float.ofScientific digits true exponent.natAbs
    else Float.ofScientific digits false exponent.natAbs

/-- How many digits, from the first that is not zero, are looked at one by one. A double and the
middle between two neighbouring doubles have fewer digits than these, so no such number lies
strictly between two decimals of this many digits that are next to each other. -/
def decidingDigits : Nat := 800

/-- The double nearest to the number that `ds` stand for times `10^exponent`. Of the digits after
the deciding ones it only matters whether one of them is not zero, and a last digit 1 stands for
that. -/
def nearestTo (ds : List Char) (exponent : Int) : Float :=
  let significant := ds.dropWhile (· == '0')
  let dropped := significant.drop decidingDigits
  if dropped.isEmpty then nearest (digitsValue significant) exponent
  else
    let last := if dropped.any (· != '0') then 1 else 0
    nearest (digitsValue (significant.take decidingDigits) * 10 + last)
      (exponent + (dropped.length : Int) - 1)

/-- The size from which the digits of an exponent no longer count. -/
def exponentCap : Nat := 65536

/-- An exponent part: nothing, or a mark, an optional sign and digits. -/
def readExponent? : List Char → Option Int
  | [] => some 0
  | mark :: rest =>
    if mark == 'e' || mark == 'E' then
      let (negative, digits) : Bool × List Char :=
        match rest with
        | '-' :: ds => (true, ds)
        | '+' :: ds => (false, ds)
        | ds => (false, ds)
      if digits.isEmpty || !digits.all Char.isDigit then none
      else
        let n := (cappedValue exponentCap digits : Int)
        some (if negative then -n else n)
    else none

/-- Digits, an optional point with digits, an optional exponent; at least one digit in all. -/
def readUnsigned? (cs : List Char) : Option Float :=
  let whole := cs.takeWhile Char.isDigit
  let rest := cs.dropWhile Char.isDigit
  let (fraction, rest) : List Char × List Char :=
    match rest with
    | '.' :: after => (after.takeWhile Char.isDigit, after.dropWhile Char.isDigit)
    | _ => ([], rest)
  if whole.isEmpty && fraction.isEmpty then none
  else (readExponent? rest).map fun e =>
    nearestTo (whole ++ fraction) (e - (fraction.length : Int))

def isWord (word : String) (cs : List Char) : Bool := cs.map Char.toLower == word.toList

/-- A double in decimal, or one of the words `inf`, `infinity` and `nan` in any case, after an
optional sign. -/
def read? (s : String) : Option Float :=
  let (negative, body) : Bool × List Char :=
    match s.toList with
    | '-' :: cs => (true, cs)
    | '+' :: cs => (false, cs)
    | cs => (false, cs)
  let magnitude :=
    if isWord "inf" body || isWord "infinity" body then some (1 / 0)
    else if isWord "nan" body then some (0 / 0)
    else readUnsigned? body
  magnitude.map fun x => if negative then -x else x

end Ember.Decimal
