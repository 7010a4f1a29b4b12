import Chip8.Block
import Chip8.Font
import Chip8.Program

/-!
# Main memory

Memory has 4096 bytes.  Accesses do not wrap around: one that runs past the end
fails and names the first byte outside.  At power on the font is in place and all
other bytes are zero.
-/

namespace Chip8

structure Memory where
  bytes : Vector UInt8 4096
deriving DecidableEq

namespace Memory

/-- The fault of an access at `address` that runs past the end. -/
def boundsFault (address : Nat) : Fault := .memoryBounds (max address 4096)

def slice (m : Memory) (address count : Nat) : Except Fault (List UInt8) :=
  if h : address + count ≤ 4096 then .ok (Block.read m.bytes address count h)
  else .error (boundsFault address)

def store (m : Memory) (address : Nat) (data : List UInt8) : Except Fault Memory :=
  if address + data.length ≤ 4096 then .ok ⟨Block.write m.bytes address data⟩
  else .error (boundsFault address)

/-- The big endian word at `address`. -/
def word (m : Memory) (address : Nat) : Except Fault Word :=
  if h : address + 1 < 4096 then .ok (Word.ofBytes m.bytes[address] m.bytes[address + 1])
  else .error (.fetchBounds address)

def load (m : Memory) (program : Program) : Memory :=
  ⟨Block.write m.bytes programStart program.bytes⟩

def powerOn : Memory := ⟨Block.write (Vector.replicate 4096 0) Font.base Font.bytes⟩

theorem slice_eq_error_iff (m : Memory) (address count : Nat) (fault : Fault) :
    m.slice address count = .error fault ↔
      4096 < address + count ∧ fault = boundsFault address := by
  unfold slice
  split
  · simp
    omega
  · rw [Except.error.injEq]
    constructor
    · rintro rfl
      exact ⟨by omega, rfl⟩
    · rintro ⟨_, rfl⟩
      rfl

theorem store_eq_error_iff (m : Memory) (address : Nat) (data : List UInt8)
    (fault : Fault) :
    m.store address data = .error fault ↔
      4096 < address + data.length ∧ fault = boundsFault address := by
  unfold store
  split
  · simp
    omega
  · rw [Except.error.injEq]
    constructor
    · rintro rfl
      exact ⟨by omega, rfl⟩
    · rintro ⟨_, rfl⟩
      rfl

/-- A range that could be cut out has the length that was asked for. -/
theorem length_of_slice {m : Memory} {address count : Nat} {data : List UInt8}
    (h : m.slice address count = .ok data) : data.length = count := by
  unfold slice at h
  split at h
  · cases h
    exact Block.length_read _ _ _ _
  · cases h

theorem store_of_le {m : Memory} {start : Nat} {data : List UInt8}
    (h : start + data.length ≤ 4096) :
    m.store start data = .ok ⟨Block.write m.bytes start data⟩ :=
  if_pos h

/-- A store puts its data into its range. -/
theorem getElem?_of_store {m n : Memory} {start : Nat} {data : List UInt8} {address : Address}
    (h : m.store start data = .ok n) (hle : start ≤ address.val)
    (hlt : address.val < start + data.length) :
    data[address.val - start]? = some (n.bytes.get address) := by
  have hin : address.val - start < data.length := by omega
  unfold store at h
  split at h
  · cases h
    change _ = some (Block.write m.bytes start data)[address.val]
    rw [Block.getElem_write, if_pos hle, List.getElem?_eq_getElem hin, Option.getD_some]
  · cases h

/-- A store leaves the bytes outside of its range alone. -/
theorem get_of_store {m n : Memory} {start : Nat} {data : List UInt8} {address : Address}
    (h : m.store start data = .ok n)
    (hout : address.val < start ∨ start + data.length ≤ address.val) :
    n.bytes.get address = m.bytes.get address := by
  unfold store at h
  split at h
  · cases h
    rcases hout with hbefore | hafter
    · exact Block.getElem_write_of_lt m.bytes data address.isLt hbefore
    · exact Block.getElem_write_of_le m.bytes data address.isLt hafter
  · cases h

end Memory
end Chip8
