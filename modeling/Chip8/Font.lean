import Chip8.Address

/-!
# The built-in font

Each hexadecimal digit has a glyph of five rows, one byte a row.  The glyphs lie
one after the other from address `0x50` on.
-/

namespace Chip8
namespace Font

def base : Nat := 0x50

def glyphSize : Nat := 5

/-- The rows of all glyphs in the order of their digits. -/
def glyphs : Vector (List UInt8) 16 :=
  #v[[0xF0, 0x90, 0x90, 0x90, 0xF0],
    [0x20, 0x60, 0x20, 0x20, 0x70],
    [0xF0, 0x10, 0xF0, 0x80, 0xF0],
    [0xF0, 0x10, 0xF0, 0x10, 0xF0],
    [0x90, 0x90, 0xF0, 0x10, 0x10],
    [0xF0, 0x80, 0xF0, 0x10, 0xF0],
    [0xF0, 0x80, 0xF0, 0x90, 0xF0],
    [0xF0, 0x10, 0x20, 0x40, 0x40],
    [0xF0, 0x90, 0xF0, 0x90, 0xF0],
    [0xF0, 0x90, 0xF0, 0x10, 0xF0],
    [0xF0, 0x90, 0xF0, 0x90, 0x90],
    [0xE0, 0x90, 0xE0, 0x90, 0xE0],
    [0xF0, 0x80, 0x80, 0x80, 0xF0],
    [0xE0, 0x90, 0x90, 0x90, 0xE0],
    [0xF0, 0x80, 0xF0, 0x80, 0xF0],
    [0xF0, 0x80, 0xF0, 0x80, 0x80]]

def glyph (digit : Nibble) : List UInt8 := glyphs[digit]

@[simp] theorem length_glyph (digit : Nibble) : (glyph digit).length = glyphSize := by
  revert digit
  decide

def bytes : List UInt8 := glyphs.toList.flatten

theorem length_bytes : bytes.length = 80 := by decide

def address (digit : Nibble) : Address := Fin.ofNat 4096 (base + glyphSize * digit.val)

@[simp] theorem val_address (digit : Nibble) :
    (address digit).val = base + glyphSize * digit.val := by
  have h := digit.isLt
  simp only [address, Fin.ofNat, base, glyphSize]
  omega

end Font
end Chip8
