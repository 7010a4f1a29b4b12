import Chip8.Word

/-!
# Instructions

An instruction is what a word means: its operation together with typed operands.
The register operations share one shape, in which the old values of two registers
give the new value of the first and, for some of them, a flag.
-/

namespace Chip8

inductive Arithmetic where
  | copy
  | or
  | and
  | xor
  | add
  | subtract
  | shiftRight
  | subtractFrom
  | shiftLeft
deriving DecidableEq

namespace Arithmetic

/-- The new value of the first register and the flag, if the operation reports
one.  A sum reports its carry, a difference that nothing was borrowed, and a shift
the bit that it drops; shifts leave the second register out. -/
def apply : Arithmetic → UInt8 → UInt8 → UInt8 × Option Bool
  | .copy, _, b => (b, none)
  | .or, a, b => (a ||| b, none)
  | .and, a, b => (a &&& b, none)
  | .xor, a, b => (a ^^^ b, none)
  | .add, a, b => (a + b, some (decide (256 ≤ a.toNat + b.toNat)))
  | .subtract, a, b => (a - b, some (decide (b ≤ a)))
  | .shiftRight, a, _ => (a / 2, some (decide (a % 2 = 1)))
  | .subtractFrom, a, b => (b - a, some (decide (a ≤ b)))
  | .shiftLeft, a, _ => (a + a, some (decide (128 ≤ a)))

end Arithmetic

inductive Instruction where
  | clearScreen
  | ret
  | skipIfKey (x : Register)
  | skipUnlessKey (x : Register)
  | readDelay (x : Register)
  /-- Suspend until a key is pressed and store its number. -/
  | awaitKey (x : Register)
  | setDelay (x : Register)
  | setSound (x : Register)
  | addIndex (x : Register)
  | selectGlyph (x : Register)
  | storeDecimal (x : Register)
  | storeRegisters (x : Register)
  | loadRegisters (x : Register)
  | skipIfEqual (x y : Register)
  | arithmetic (operation : Arithmetic) (x y : Register)
  | skipUnlessEqual (x y : Register)
  /-- Call a routine in the code of the host processor. -/
  | machineCode (word : Word)
  | jump (target : Address)
  | call (target : Address)
  | skipIfByte (x : Register) (value : UInt8)
  | skipUnlessByte (x : Register) (value : UInt8)
  | loadByte (x : Register) (value : UInt8)
  | addByte (x : Register) (value : UInt8)
  | setIndex (target : Address)
  /-- Jump to an address moved by the first register. -/
  | jumpOffset (base : Address)
  /-- Load a random byte cut to the bits of `bits`. -/
  | random (x : Register) (bits : UInt8)
  /-- Draw a sprite of `rows` rows at the place that two registers give. -/
  | draw (x y : Register) (rows : Nibble)
deriving DecidableEq

end Chip8
