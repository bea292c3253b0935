/-! Texts filled up to a length. -/
namespace Ember.Text
set_option autoImplicit false

/-- A text filled up on the left to the given length. -/
def padLeft (fill : Char) (length : Nat) (s : String) : String :=
  String.ofList (List.replicate (length - s.length) fill) ++ s

/-- A text filled up on the right to the given length. -/
def padRight (fill : Char) (length : Nat) (s : String) : String :=
  s ++ String.ofList (List.replicate (length - s.length) fill)

/-- An offset of code, in at least four digits. -/
def offset (n : Nat) : String := padLeft '0' 4 (toString n)

end Ember.Text
