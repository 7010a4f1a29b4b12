import Chip8.Fault

/-!
# Programs

A program is a string of bytes that fits between the address at which programs
start and the end of memory.
-/

namespace Chip8

def programStart : Nat := 0x200

def programCapacity : Nat := 4096 - programStart

structure Program where
  bytes : List UInt8
  length_le : bytes.length ≤ programCapacity := by decide
deriving DecidableEq

namespace Program

def empty : Program := { bytes := [] }

def size (program : Program) : Nat := program.bytes.length

def ofBytes (bytes : List UInt8) : Except Fault Program :=
  if h : bytes.length ≤ programCapacity then .ok ⟨bytes, h⟩
  else .error (.programTooLarge bytes.length programCapacity)

@[ext] theorem ext {p q : Program} (h : p.bytes = q.bytes) : p = q := by
  cases p
  cases q
  simpa using h

theorem ofBytes_eq_ok_iff {bytes : List UInt8} {program : Program} :
    ofBytes bytes = .ok program ↔ program.bytes = bytes := by
  unfold ofBytes
  split
  · constructor
    · intro h
      cases h
      rfl
    · rintro rfl
      rfl
  · constructor
    · intro h
      cases h
    · rintro rfl
      exact absurd program.length_le (by assumption)

end Program
end Chip8
