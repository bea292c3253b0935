import Ember.Builtin.Arguments
import Ember.Builtin.Outside

/-! What builtins see of the world outside a program: whether the host has asked for an end, the
time, a source of chance, and the databases that can be reached. A sleep that is not cut short lets
the time pass. -/
namespace Ember
set_option autoImplicit false

structure World where
  cancelled : Bool
  /-- Nanoseconds since the beginning of 1970. -/
  clock : Nat
  /-- What the source of chance answers each time that the world outside is asked. -/
  chance : Nat → Draw
  /-- What the driver of databases answers each time that the world outside is asked. -/
  driver : Nat → Driver
  /-- How often the world outside was asked. -/
  asked : Nat
  /-- The numbers of the connections that are open. -/
  connections : List Nat

namespace World

/-- A world at a given time, with a source of chance of its own, in which no database is found. -/
def start (clock : Nat) (entropy : UInt64) : World where
  cancelled := false
  clock := clock
  chance := Draw.seeded entropy
  driver := fun _ => .unreachable "invalid connection string"
  asked := 0
  connections := []

/-- The source of chance is asked. -/
def draw (w : World) : Draw × World := (w.chance w.asked, { w with asked := w.asked + 1 })

/-- The driver of databases is asked. -/
def askDriver (w : World) : Driver × World := (w.driver w.asked, { w with asked := w.asked + 1 })

/-- A connection is open from now on. -/
def connected (w : World) (connection : Nat) : World :=
  { w with connections := connection :: w.connections }

/-- A connection is open no more. -/
def disconnected (w : World) (connection : Nat) : World :=
  { w with connections := w.connections.filter (· != connection) }

end World

/-- A call of a builtin that needs the world as well as the heap. -/
abbrev WorldCall : Type := World → OnHeap CallFault (Value × World)

/-! ## Time -/

namespace TimeFunction

/-- The longest sleep in milliseconds: a year. -/
def maxSleep : Int := 31536000000

def sleepFor (w : World) (milliseconds : Int) : OnHeap CallFault (Value × World) :=
  if milliseconds < 0 then throw .negativeSleep
  else if maxSleep < milliseconds then do
    let v ← OnHeap.newFailure s!"sleep duration too large ({milliseconds} ms)"
    return (v, w)
  else if w.cancelled then do
    let v ← OnHeap.newFailure "sleep cancelled"
    return (v, w)
  else do
    let v ← OnHeap.newResult true .nil
    return (v, { w with clock := w.clock + milliseconds.toNat * 1000000 })

def call (f : TimeFunction) (args : Array Value) : WorldCall := fun w =>
  match f with
  | .now => ask fun _ => do
    noArguments "now" args
    return (.float (Float.ofNat w.clock / 1000000000), w)
  | .unix => ask fun _ => do
    noArguments "unix" args
    return (.int (Int64.ofNat (w.clock / 1000000000)), w)
  | .sleep => do
    let n ← ask fun _ => do intArgument "sleep" (← oneArgument "sleep" args)
    sleepFor w n.toInt

end TimeFunction

/-! ## Chance -/

namespace RandomFunction

def call (f : RandomFunction) (args : Array Value) : WorldCall := fun w =>
  ask fun h =>
    match f with
    | .int => do
      let bound ← intArgument "int" (← oneArgument "int" args)
      if bound ≤ 0 then throw .boundNotPositive
      else
        let (draw, w) := w.draw
        return (.int (Int64.ofNat (draw.below bound.toInt.toNat)), w)
    | .float => do
      noArguments "float" args
      let (draw, w) := w.draw
      return (.float draw.unit, w)
    | .choice => do
      match ← oneArgument "choice" args with
      | .list r =>
        let items := h.list r
        if items.isEmpty then throw (.emptyList "rand.choice")
        else
          let (draw, w) := w.draw
          return (items.getD (draw.below items.size) .nil, w)
      | v => wrongType "choice" "a list" v

end RandomFunction

namespace UuidFunction

/-- So many hexadecimal digits of a number. -/
def hexDigits : Nat → Nat → List Char
  | 0, _ => []
  | count + 1, n => hexDigits count (n / 16) ++ [Nat.digitChar (n % 16)]

/-- A random identifier: 32 hexadecimal digits in five groups, with the version in the third group
and the variant in the fourth. -/
def layout (high low : Nat) : String :=
  let group := fun (count n : Nat) => String.ofList (hexDigits count n)
  String.intercalate "-" [group 8 (high >>> 32), group 4 (high >>> 16),
    group 4 (0x4000 + high % 0x1000), group 4 (0x8000 + (low >>> 48) % 0x4000), group 12 low]

def call (f : UuidFunction) (args : Array Value) : WorldCall := fun w =>
  match f with
  | .v4 => ask fun _ => do
    noArguments "v4" args
    let (draw, w) := w.draw
    return (.str (layout draw.bits.1.toNat draw.bits.2.toNat), w)

end UuidFunction

end Ember
