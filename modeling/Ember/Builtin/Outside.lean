import Ember.Value.Basic

/-! What programs ask of the world outside: a source of chance, and a driver that talks to
databases. Neither is part of the language, so that each is known only by what it answers. -/
namespace Ember
set_option autoImplicit false

/-! ## Chance -/

/-- What the source of chance answers when it is asked once. -/
structure Draw where
  /-- A number below a bound. -/
  below : Nat → Nat
  below_lt : ∀ bound, 0 < bound → below bound < bound
  /-- A number from zero up to but not including one. -/
  unit : Float
  /-- The upper and the lower half of 128 bits. -/
  bits : UInt64 × UInt64

namespace Draw

/-- Spreads the bits of a number. -/
def mix (state : UInt64) : UInt64 :=
  let a := (state ^^^ (state >>> 30)) * 0xbf58476d1ce4e5b9
  let b := (a ^^^ (a >>> 27)) * 0x94d049bb133111eb
  b ^^^ (b >>> 31)

/-- A source of chance that is computed from a seed. -/
def seeded (seed : UInt64) (asked : Nat) : Draw :=
  let high := mix (seed + UInt64.ofNat (2 * asked + 1) * 0x9e3779b97f4a7c15)
  let low := mix (seed + UInt64.ofNat (2 * asked + 2) * 0x9e3779b97f4a7c15)
  { below := fun bound => high.toNat % bound
    below_lt := fun _ hbound => Nat.mod_lt _ hbound
    unit := (high >>> 11).toFloat / 9007199254740992
    bits := (high, low) }

end Draw

/-! ## Databases -/

/-- What is put into a statement in place of a parameter. -/
inductive Parameter
  | null
  | bool (b : Bool)
  | int (n : Int64)
  | float (x : Float)
  | text (s : String)

/-- What a row has in a column, which may be null. The driver reads it by the type of the column,
and as text where the language has no such type. -/
inductive Column
  | bool (read : Except String (Option Bool))
  | int16 (read : Except String (Option Int16))
  | int32 (read : Except String (Option Int32))
  | int64 (read : Except String (Option Int64))
  | float32 (read : Except String (Option Float32))
  | float64 (read : Except String (Option Float))
  | other (read : Except String (Option String))

/-- The columns of a row with their names. -/
abbrev Row : Type := List (String × Column)

/-- What the driver answers when it is asked once, of the connection with the given number: what was
asked for, or why it failed. -/
structure Driver where
  connect : (address : String) → Except String Unit
  execute : (connection : Nat) → (statement : String) → List Parameter → Except String UInt64
  query : (connection : Nat) → (statement : String) → List Parameter → Except String (List Row)
  close : (connection : Nat) → Except String Unit

namespace Driver

/-- A driver that finds no database under any address. -/
def unreachable (reason : String) : Driver :=
  ⟨fun _ => .error reason, fun _ _ _ => .error reason, fun _ _ _ => .error reason,
    fun _ => .error reason⟩

end Driver
end Ember
