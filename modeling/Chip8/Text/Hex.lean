import Chip8.Address

/-!
# Hexadecimal text

Numbers are written with the digits `0` to `9` and `A` to `F`.  A column shows a
fixed count of digits, and a padded number has at least a given count of digits
and never loses one.
-/

namespace Chip8
namespace Hex

def digit (d : Nibble) : Char :=
  if d.val < 10 then Char.ofNat (48 + d.val) else Char.ofNat (55 + d.val)

theorem digit_injective : ∀ c d : Nibble, digit c = digit d → c = d := by
  decide

/-- The last `width` digits of a number, the most significant one first. -/
def column : Nat → Nat → List Char
  | 0, _ => []
  | width + 1, value => column width (value / 16) ++ [digit (Fin.ofNat 16 value)]

@[simp] theorem length_column (width value : Nat) :
    (column width value).length = width := by
  induction width generalizing value with
  | zero => rfl
  | succ width ih => simp [column, ih]

def digitCount (value : Nat) : Nat := Nat.log2 value / 4 + 1

/-- A number with at least `width` digits. -/
def padded (width value : Nat) : String :=
  String.ofList (column (max width (digitCount value)) value)

end Hex
end Chip8
