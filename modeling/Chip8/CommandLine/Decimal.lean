/-!
# Decimal numbers on the command line

A number is a run of decimal digits, which may begin with zeros, and may have a sign.
Nothing else may stand in the argument, not even a space.
-/

namespace Chip8
namespace Decimal

def digit? (c : Char) : Option Nat :=
  if '0' ≤ c ∧ c ≤ '9' then some (c.toNat - '0'.toNat) else none

/-- The value of the digits in a list, after `high` was read. -/
def digits? (high : Nat) : List Char → Option Nat
  | [] => some high
  | c :: rest =>
      match digit? c with
      | some d => digits? (10 * high + d) rest
      | none => none

def natural? (cs : List Char) : Option Nat :=
  if cs.isEmpty then none else digits? 0 cs

/-- The value of digits that may follow a plus sign. -/
def unsigned? (text : String) : Option Nat :=
  match text.toList with
  | '+' :: rest => natural? rest
  | cs => natural? cs

/-- The value of digits that may follow a plus or a minus sign. -/
def signed? (text : String) : Option Int :=
  match text.toList with
  | '-' :: rest => (natural? rest).map (fun n ↦ -(n : Int))
  | _ => (unsigned? text).map (fun n ↦ (n : Int))

/-- A number from zero to `bound`, whose sign does not matter if it is zero. -/
def bounded? (bound : Nat) (text : String) : Option Nat :=
  match signed? text with
  | some n => if 0 ≤ n ∧ n ≤ bound then some n.toNat else none
  | none => none

/-- A number from zero to `bound` without a minus sign. -/
def boundedUnsigned? (bound : Nat) (text : String) : Option Nat :=
  match unsigned? text with
  | some n => if n ≤ bound then some n else none
  | none => none

end Decimal
end Chip8
