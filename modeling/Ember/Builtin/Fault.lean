import Ember.Json.Convert

/-! Why a call of a builtin fails. A failure stops the run that made the call. -/
namespace Ember
set_option autoImplicit false

inductive CallFault
  /- arguments -/
  | argumentCount (name : String) (expected given : Nat)
  | argumentRange (name : String) (least most given : Nat)
  | noTarget (name : String)
  | noCandidates (name : String)
  | wrongType (name expected found : String)
  | noLength (type : String)
  | unhashable (type : String)
  | incomparable (name left right : String)
  | unencodable (e : EncodeFault)
  | databaseCount (name expected : String) (given : Nat)
  | unbindable (name type : String)
  /- values -/
  | absOverflow
  | notAnInteger (x : Float)
  | invalidLiteral (name text : String)
  | indexOutOfRange (index : Int) (length : Nat)
  | zeroStep
  | rangeTooLarge (count : Int)
  | emptyList (name : String)
  | unwrappedFailure (message : String)
  | negativeRepeat
  | repeatTooLarge (count : Int)
  | negativeSleep
  | boundNotPositive

namespace CallFault

def kind : CallFault → ErrorKind
  | argumentCount .. | argumentRange .. | noTarget _ | noCandidates _ => .arity
  | wrongType .. | noLength _ | unhashable _ | incomparable .. | unencodable _
  | databaseCount .. | unbindable .. => .type
  | absOverflow | notAnInteger _ | invalidLiteral .. | indexOutOfRange .. | zeroStep
  | rangeTooLarge _ | emptyList _ | unwrappedFailure _ | negativeRepeat | repeatTooLarge _
  | negativeSleep | boundNotPositive => .runtime

def message : CallFault → String
  | argumentCount name expected given =>
    let noun := if expected = 1 then "argument" else "arguments"
    s!"{name}() takes exactly {expected} {noun} ({given} given)"
  | argumentRange name least most given =>
    s!"{name}() takes from {least} to {most} arguments ({given} given)"
  | noTarget name => s!"{name}() takes at least 1 argument (0 given)"
  | noCandidates name => s!"{name}() expected at least 1 argument (0 given)"
  | wrongType name expected found => s!"{name}() expected {expected} (got {found})"
  | noLength type => s!"object of type '{type}' has no len()"
  | unhashable type => s!"unhashable type: {type}"
  | incomparable name left right => s!"{name}() cannot compare {left} and {right}"
  | unencodable e => e.message
  | databaseCount name expected given => s!"{name}() takes {expected} ({given} given)"
  | unbindable name type => s!"{name}() cannot bind a {type}"
  | absOverflow => "integer overflow in abs()"
  | notAnInteger x => "cannot convert " ++ Decimal.bare.float x ++ " to int"
  | invalidLiteral name text => s!"invalid literal for {name}(): " ++ Text.quote text
  | indexOutOfRange index length => s!"index {index} out of range for list of length {length}"
  | zeroStep => "range() step must not be zero"
  | rangeTooLarge count => s!"range() too large ({count} items)"
  | emptyList name => s!"{name}() of an empty list"
  | unwrappedFailure message => s!"unwrap() called on err({message})"
  | negativeRepeat => "repeat() count must not be negative"
  | repeatTooLarge count => s!"repeat count too large ({count})"
  | negativeSleep => "sleep() duration must not be negative"
  | boundNotPositive => "rand.int() bound must be positive"

/-- The error value that tells a caller of the failure. -/
def toValue (f : CallFault) : Value := .error f.kind f.message

end CallFault
end Ember
