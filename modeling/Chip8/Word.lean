import Chip8.Address
import Chip8.Text.Hex
import Chip8.Text.Record

/-!
# Instruction words

An instruction is one big endian word.  Every word splits into the same fields,
whether or not an instruction exists for it: the class `op`, the registers `x` and
`y`, and the immediate values `n`, `nn` and `nnn` of one, two and three digits.
-/

namespace Chip8

abbrev Word := UInt16

namespace Word

/-- The word made of two bytes, the more significant one first. -/
def ofBytes (high low : UInt8) : Word :=
  UInt16.ofNat (high.toNat * 256 + low.toNat)

@[simp] theorem toNat_ofBytes (high low : UInt8) :
    (ofBytes high low).toNat = high.toNat * 256 + low.toNat := by
  have hhigh := high.toNat_lt
  have hlow := low.toNat_lt
  simp [ofBytes]
  omega

def op (w : Word) : Nibble := Fin.ofNat 16 (w.toNat / 4096)

def x (w : Word) : Nibble := Fin.ofNat 16 (w.toNat / 256)

def y (w : Word) : Nibble := Fin.ofNat 16 (w.toNat / 16)

def n (w : Word) : Nibble := Fin.ofNat 16 w.toNat

def nn (w : Word) : UInt8 := UInt8.ofNat w.toNat

def nnn (w : Word) : Address := Fin.ofNat 4096 w.toNat

/-- The four digits of a word, the most significant one first. -/
def nibbles (w : Word) : List Nibble := [w.op, w.x, w.y, w.n]

theorem toNat_eq_nibbles (w : Word) :
    w.toNat = 4096 * w.op.val + 256 * w.x.val + 16 * w.y.val + w.n.val := by
  have h := w.toNat_lt
  simp only [op, x, y, n, Fin.ofNat]
  omega

def text (w : Word) : String := Hex.padded 4 w.toNat

def record (w : Word) : Record := ⟨"Opcode", [("word", w.toNat)]⟩

end Word
end Chip8
