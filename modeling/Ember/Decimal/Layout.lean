import Ember.Decimal.Shortest

/-! How a decimal is laid out as text. A `Layout` records the decisions of one output format; all
formats share the choice of digits. -/
namespace Ember.Decimal
set_option autoImplicit false

structure Layout where
  /-- Least exponent of the leading digit that is written without an exponent, if there is one. -/
  plainFrom : Option Int
  /-- Greatest such exponent, if there is one. -/
  plainTo : Option Int
  /-- Whether a whole number written without an exponent ends in `.0`. -/
  pointZero : Bool
  /-- Whether a positive exponent is written with its sign. -/
  exponentPlus : Bool
  tie : Tie

namespace Layout

def isPlain (l : Layout) (leading : Int) : Bool :=
  (match l.plainFrom with | some e => decide (e ≤ leading) | none => true) &&
  (match l.plainTo with | some e => decide (leading ≤ e) | none => true)

def zeros (n : Nat) : String := String.ofList (List.replicate n '0')

/-- The decimal without an exponent. -/
def plain (l : Layout) (d : Numeral) : String :=
  let text := toString d.digits
  if 0 ≤ d.exponent then
    text ++ zeros d.exponent.toNat ++ (if l.pointZero then ".0" else "")
  else
    let places := (-d.exponent).toNat
    let padded := zeros (places + 1 - text.length) ++ text
    let whole := padded.length - places
    String.ofList (padded.toList.take whole) ++ "." ++ String.ofList (padded.toList.drop whole)

/-- One digit, the others after a point, and the exponent of the first. -/
def scientific (l : Layout) (d : Numeral) (leading : Int) : String :=
  let sign := if leading < 0 then "-" else if l.exponentPlus then "+" else ""
  let mark := "e" ++ sign ++ toString leading.natAbs
  match (toString d.digits).toList with
  | [] => mark
  | [first] => String.singleton first ++ mark
  | first :: rest => String.singleton first ++ "." ++ String.ofList rest ++ mark

def decimal (l : Layout) (d : Numeral) : String :=
  if d.digits == 0 then l.plain ⟨0, 0⟩
  else
    let leading := d.exponent + ((toString d.digits).length : Int) - 1
    if l.isPlain leading then l.plain d else l.scientific d leading

/-- The text of a double. -/
def float (l : Layout) (x : Float) : String :=
  if x.isNaN then "NaN"
  else
    let bits := x.toBits
    let sign := if bits >>> 63 == 1 then "-" else ""
    if x.isInf then sign ++ "inf"
    else sign ++ l.decimal ((Binary.ofBits bits).shortest l.tie)

end Layout

/-- Values are shown so that they read as floating-point numbers: `1.0`, `1e16`, `1e-5`. -/
def shown : Layout := ⟨some (-4), some 15, true, false, .up⟩

/-- Some messages write numbers without an exponent and whole ones without a point. -/
def bare : Layout := ⟨none, none, false, false, .up⟩

/-- Numbers in encoded documents: `1.0`, `0.00001`, `1e+16`, `1e-6`. -/
def encoded : Layout := ⟨some (-5), some 15, true, true, .toEven⟩

end Ember.Decimal
