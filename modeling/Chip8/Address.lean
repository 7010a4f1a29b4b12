/-!
# Addresses and selectors

The address space has 4096 bytes and addresses wrap around at its end.  Registers
and keys are numbered by one hexadecimal digit, so of a byte that names one of
them only the low digit counts.
-/

namespace Chip8

abbrev Address := Fin 4096

-- The zero is named because other libraries bring in another one for numbers.
instance Address.neZero : @NeZero Nat Zero.ofOfNat0 4096 := ⟨by decide⟩

/-- The address `n` bytes further on, wrapping around at the end of memory. -/
def Address.offset (a : Address) (n : Nat) : Address := Fin.ofNat 4096 (a.val + n)

@[simp] theorem Address.val_offset (a : Address) (n : Nat) :
    (a.offset n).val = (a.val + n) % 4096 := rfl

theorem Address.val_offset_of_lt {a : Address} {n : Nat} (h : a.val + n < 4096) :
    (a.offset n).val = a.val + n := Nat.mod_eq_of_lt h

@[simp] theorem Address.offset_zero (a : Address) : a.offset 0 = a :=
  Fin.ext (Nat.mod_eq_of_lt a.isLt)

abbrev Nibble := Fin 16

instance Nibble.neZero : @NeZero Nat Zero.ofOfNat0 16 := ⟨by decide⟩

def Nibble.ofByte (b : UInt8) : Nibble := Fin.ofNat 16 b.toNat

@[simp] theorem Nibble.val_ofByte (b : UInt8) :
    (Nibble.ofByte b).val = b.toNat % 16 := rfl

abbrev Register := Nibble

/-- The register that receives carries, borrows and collisions. -/
def Register.flag : Register := 15

abbrev Key := Nibble

end Chip8
