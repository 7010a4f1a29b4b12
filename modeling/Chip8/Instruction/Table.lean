import Chip8.Instruction.Basic

/-!
# The instruction table

A pattern fixes some bits of a word and gives the instruction of the words that
have them.  The table is searched in order, so a pattern that fixes more bits comes
before those that fix fewer.
-/

namespace Chip8

/-- A pattern matches the words that agree with `expected` on the bits of `mask`. -/
structure Pattern where
  mask : Word
  expected : Word
  mnemonic : String
  instruction : Word → Instruction

namespace Pattern

def Matches (pattern : Pattern) (w : Word) : Prop :=
  w &&& pattern.mask = pattern.expected

instance (pattern : Pattern) (w : Word) : Decidable (pattern.Matches w) :=
  inferInstanceAs (Decidable (_ = _))

/-- The mnemonic with the expected bits and the mask in parentheses. -/
def text (pattern : Pattern) : String :=
  pattern.mnemonic ++ " (" ++ pattern.expected.text ++ "/" ++ pattern.mask.text ++ ")"

end Pattern

namespace Instruction

/-- The patterns that fix a whole word. -/
def wordPatterns : List Pattern :=
  [⟨0xFFFF, 0x00E0, "CLS", fun _ ↦ .clearScreen⟩,
    ⟨0xFFFF, 0x00EE, "RET", fun _ ↦ .ret⟩]

/-- The patterns that fix all but the first register. -/
def registerPatterns : List Pattern :=
  [⟨0xF0FF, 0xE09E, "SKP Vx", fun w ↦ .skipIfKey w.x⟩,
    ⟨0xF0FF, 0xE0A1, "SKNP Vx", fun w ↦ .skipUnlessKey w.x⟩,
    ⟨0xF0FF, 0xF007, "LD Vx, DT", fun w ↦ .readDelay w.x⟩,
    ⟨0xF0FF, 0xF00A, "LD Vx, K", fun w ↦ .awaitKey w.x⟩,
    ⟨0xF0FF, 0xF015, "LD DT, Vx", fun w ↦ .setDelay w.x⟩,
    ⟨0xF0FF, 0xF018, "LD ST, Vx", fun w ↦ .setSound w.x⟩,
    ⟨0xF0FF, 0xF01E, "ADD I, Vx", fun w ↦ .addIndex w.x⟩,
    ⟨0xF0FF, 0xF029, "LD F, Vx", fun w ↦ .selectGlyph w.x⟩,
    ⟨0xF0FF, 0xF033, "LD B, Vx", fun w ↦ .storeDecimal w.x⟩,
    ⟨0xF0FF, 0xF055, "LD [I], Vx", fun w ↦ .storeRegisters w.x⟩,
    ⟨0xF0FF, 0xF065, "LD Vx, [I]", fun w ↦ .loadRegisters w.x⟩]

/-- The patterns that leave two registers open. -/
def pairPatterns : List Pattern :=
  [⟨0xF00F, 0x5000, "SE Vx, Vy", fun w ↦ .skipIfEqual w.x w.y⟩,
    ⟨0xF00F, 0x8000, "LD Vx, Vy", fun w ↦ .arithmetic .copy w.x w.y⟩,
    ⟨0xF00F, 0x8001, "OR Vx, Vy", fun w ↦ .arithmetic .or w.x w.y⟩,
    ⟨0xF00F, 0x8002, "AND Vx, Vy", fun w ↦ .arithmetic .and w.x w.y⟩,
    ⟨0xF00F, 0x8003, "XOR Vx, Vy", fun w ↦ .arithmetic .xor w.x w.y⟩,
    ⟨0xF00F, 0x8004, "ADD Vx, Vy", fun w ↦ .arithmetic .add w.x w.y⟩,
    ⟨0xF00F, 0x8005, "SUB Vx, Vy", fun w ↦ .arithmetic .subtract w.x w.y⟩,
    ⟨0xF00F, 0x8006, "SHR Vx", fun w ↦ .arithmetic .shiftRight w.x w.y⟩,
    ⟨0xF00F, 0x8007, "SUBN Vx, Vy", fun w ↦ .arithmetic .subtractFrom w.x w.y⟩,
    ⟨0xF00F, 0x800E, "SHL Vx", fun w ↦ .arithmetic .shiftLeft w.x w.y⟩,
    ⟨0xF00F, 0x9000, "SNE Vx, Vy", fun w ↦ .skipUnlessEqual w.x w.y⟩]

/-- The patterns that fix only the class of a word. -/
def classPatterns : List Pattern :=
  [⟨0xF000, 0x0000, "SYS addr", fun w ↦ .machineCode w⟩,
    ⟨0xF000, 0x1000, "JP addr", fun w ↦ .jump w.nnn⟩,
    ⟨0xF000, 0x2000, "CALL addr", fun w ↦ .call w.nnn⟩,
    ⟨0xF000, 0x3000, "SE Vx, byte", fun w ↦ .skipIfByte w.x w.nn⟩,
    ⟨0xF000, 0x4000, "SNE Vx, byte", fun w ↦ .skipUnlessByte w.x w.nn⟩,
    ⟨0xF000, 0x6000, "LD Vx, byte", fun w ↦ .loadByte w.x w.nn⟩,
    ⟨0xF000, 0x7000, "ADD Vx, byte", fun w ↦ .addByte w.x w.nn⟩,
    ⟨0xF000, 0xA000, "LD I, addr", fun w ↦ .setIndex w.nnn⟩,
    ⟨0xF000, 0xB000, "JP V0, addr", fun w ↦ .jumpOffset w.nnn⟩,
    ⟨0xF000, 0xC000, "RND Vx, byte", fun w ↦ .random w.x w.nn⟩,
    ⟨0xF000, 0xD000, "DRW Vx, Vy, n", fun w ↦ .draw w.x w.y w.n⟩]

/-- All patterns, the more specific ones first. -/
def table : List Pattern :=
  wordPatterns ++ registerPatterns ++ pairPatterns ++ classPatterns

def firstMatch (patterns : List Pattern) (w : Word) : Option Pattern :=
  patterns.find? (fun pattern ↦ decide (pattern.Matches w))

/-- The pattern that decides what a word means, if any matches. -/
def lookup (w : Word) : Option Pattern := firstMatch table w

def ofWord? (w : Word) : Option Instruction :=
  (lookup w).map (fun pattern ↦ pattern.instruction w)

end Instruction
end Chip8
