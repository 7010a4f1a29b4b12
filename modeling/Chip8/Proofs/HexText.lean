import Chip8.Text.Hex
import Mathlib.Algebra.Group.Nat.Defs

/-!
# Hexadecimal text determines numbers

A column that is wide enough for a number determines the number, and a padded number
that fits its width is a column.
-/

namespace Chip8
namespace Hex

/-- A column wide enough for its number determines the number. -/
theorem column_inj {width a b : Nat} (ha : a < 16 ^ width) (hb : b < 16 ^ width)
    (h : column width a = column width b) : a = b := by
  induction width generalizing a b with
  | zero => simp at ha hb; omega
  | succ width ih =>
      rw [Nat.pow_succ] at ha hb
      simp only [column] at h
      obtain ⟨hhigh, hlow⟩ := List.append_inj h (by simp)
      have hquotient := ih (by omega) (by omega) hhigh
      have hdigit := digit_injective _ _ (by simpa using hlow)
      have hremainder : a % 16 = b % 16 := by
        simpa [Fin.ofNat] using congrArg Fin.val hdigit
      omega

theorem digitCount_le {width value : Nat} (hwidth : 0 < width)
    (h : value < 16 ^ width) : digitCount value ≤ width := by
  unfold digitCount
  by_cases hzero : value = 0
  · subst hzero
    simpa using Nat.succ_le_of_lt hwidth
  · have hpow : (16 : Nat) ^ width = 2 ^ (4 * width) := by
      rw [Nat.pow_mul]
    have hlog := (Nat.log2_lt hzero).mpr (hpow ▸ h)
    omega

theorem padded_eq_column {width value : Nat} (hwidth : 0 < width)
    (h : value < 16 ^ width) :
    padded width value = String.ofList (column width value) := by
  rw [padded, Nat.max_eq_left (digitCount_le hwidth h)]

end Hex
end Chip8
