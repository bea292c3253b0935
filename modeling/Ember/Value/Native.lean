/-! The functions that the language provides: those that are always in scope and those that are
members of a library. Here are only their names; what each does is said where its family is
defined. -/
namespace Ember
set_option autoImplicit false

/-! ## Families of functions -/

inductive CoreFunction
  | len | type | str | int | float | list | set | keys | values | append | delete | range
  | min | max | abs | ok | err | isOk | isErr | unwrap | unwrapOr | errorMessage
  deriving DecidableEq, Repr

namespace CoreFunction

/-- In the order in which they are listed to users. -/
def all : Array CoreFunction :=
  #[len, type, str, int, float, list, set, keys, values, append, delete, range,
    min, max, abs, ok, err, isOk, isErr, unwrap, unwrapOr, errorMessage]

def name : CoreFunction → String
  | len => "len" | type => "type" | str => "str" | int => "int" | float => "float"
  | list => "list" | set => "set" | keys => "keys" | values => "values" | append => "append"
  | delete => "delete" | range => "range" | min => "min" | max => "max" | abs => "abs"
  | ok => "ok" | err => "err" | isOk => "is_ok" | isErr => "is_err" | unwrap => "unwrap"
  | unwrapOr => "unwrap_or" | errorMessage => "error_message"

end CoreFunction

inductive MathFunction
  | sqrt | floor | ceil | abs | pow | min | max | sin | cos | tan | log | exp
  deriving DecidableEq, Repr

namespace MathFunction

def all : List MathFunction := [sqrt, floor, ceil, abs, pow, min, max, sin, cos, tan, log, exp]

def name : MathFunction → String
  | sqrt => "sqrt" | floor => "floor" | ceil => "ceil" | abs => "abs" | pow => "pow"
  | min => "min" | max => "max" | sin => "sin" | cos => "cos" | tan => "tan" | log => "log"
  | exp => "exp"

end MathFunction

inductive JsonFunction
  | marshal | unmarshal
  deriving DecidableEq, Repr

namespace JsonFunction

def all : List JsonFunction := [marshal, unmarshal]

def name : JsonFunction → String
  | marshal => "marshal" | unmarshal => "unmarshal"

end JsonFunction

inductive StringsFunction
  | toUpper | toLower | trim | split | join | contains | hasPrefix | hasSuffix | replace | repeat
  deriving DecidableEq, Repr

namespace StringsFunction

def all : List StringsFunction :=
  [toUpper, toLower, trim, split, join, contains, hasPrefix, hasSuffix, replace, «repeat»]

def name : StringsFunction → String
  | toUpper => "to_upper" | toLower => "to_lower" | trim => "trim" | split => "split"
  | join => "join" | contains => "contains" | hasPrefix => "has_prefix"
  | hasSuffix => "has_suffix" | replace => "replace" | «repeat» => "repeat"

end StringsFunction

inductive TimeFunction
  | now | unix | sleep
  deriving DecidableEq, Repr

namespace TimeFunction

def all : List TimeFunction := [now, unix, sleep]

def name : TimeFunction → String
  | now => "now" | unix => "unix" | sleep => "sleep"

end TimeFunction

inductive UuidFunction
  | v4
  deriving DecidableEq, Repr

namespace UuidFunction

def all : List UuidFunction := [v4]

def name : UuidFunction → String
  | v4 => "v4"

end UuidFunction

inductive RandomFunction
  | int | float | choice
  deriving DecidableEq, Repr

namespace RandomFunction

def all : List RandomFunction := [int, float, choice]

def name : RandomFunction → String
  | int => "int" | float => "float" | choice => "choice"

end RandomFunction

inductive ConversionFunction
  | atoi | atof | itoa | parseBool
  deriving DecidableEq, Repr

namespace ConversionFunction

def all : List ConversionFunction := [atoi, atof, itoa, parseBool]

def name : ConversionFunction → String
  | atoi => "atoi" | atof => "atof" | itoa => "itoa" | parseBool => "parse_bool"

end ConversionFunction

inductive DatabaseFunction
  | connect | exec | query | close
  deriving DecidableEq, Repr

namespace DatabaseFunction

def all : List DatabaseFunction := [connect, exec, query, close]

def name : DatabaseFunction → String
  | connect => "connect" | exec => "exec" | query => "query" | close => "close"

end DatabaseFunction

/-! ## All functions -/

inductive Native
  | core (f : CoreFunction)
  | math (f : MathFunction)
  | json (f : JsonFunction)
  | strings (f : StringsFunction)
  | time (f : TimeFunction)
  | uuid (f : UuidFunction)
  | random (f : RandomFunction)
  | conversion (f : ConversionFunction)
  | database (f : DatabaseFunction)
  deriving DecidableEq, Repr

def Native.name : Native → String
  | .core f => f.name
  | .math f => f.name
  | .json f => f.name
  | .strings f => f.name
  | .time f => f.name
  | .uuid f => f.name
  | .random f => f.name
  | .conversion f => f.name
  | .database f => f.name

/-- A function that is not written in the language: one of its own, or one that the host of a
session adds, known by its place in the host's table. -/
inductive Builtin
  | native (f : Native)
  | host (name : String) (slot : Nat)
  deriving DecidableEq, Repr

def Builtin.name : Builtin → String
  | .native f => f.name
  | .host name _ => name

/-! ## Libraries -/

inductive Library
  | math | json | strings | time | uuid | random | conversion | database
  deriving DecidableEq, Repr

/-- What a library holds under a name. -/
inductive Member
  | number (x : Float)
  | function (f : Native)

namespace Library

/-- In the order in which they are listed to users. -/
def all : Array Library := #[math, json, strings, time, uuid, random, conversion, database]

def name : Library → String
  | math => "math" | json => "json" | strings => "strings" | time => "time" | uuid => "uuid"
  | random => "rand" | conversion => "strconv" | database => "pgx"

def members : Library → List (String × Member)
  | math =>
    [("pi", .number 3.141592653589793), ("e", .number 2.718281828459045), ("inf", .number (1 / 0))]
      ++ MathFunction.all.map fun f => (f.name, .function (.math f))
  | json => JsonFunction.all.map fun f => (f.name, .function (.json f))
  | strings => StringsFunction.all.map fun f => (f.name, .function (.strings f))
  | time => TimeFunction.all.map fun f => (f.name, .function (.time f))
  | uuid => UuidFunction.all.map fun f => (f.name, .function (.uuid f))
  | random => RandomFunction.all.map fun f => (f.name, .function (.random f))
  | conversion => ConversionFunction.all.map fun f => (f.name, .function (.conversion f))
  | database => DatabaseFunction.all.map fun f => (f.name, .function (.database f))

def member? (l : Library) (name : String) : Option Member := l.members.lookup name

end Library

end Ember
