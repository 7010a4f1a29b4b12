import Chip8.Word

/-!
# Faults

A fault is a cause for which a program cannot be loaded or an instruction cannot
be executed.  Only a call of machine code is safe to skip; every other fault halts
the machine.
-/

namespace Chip8

inductive Fault where
  /-- No instruction has this word. -/
  | illegalInstruction (word : Word) (address : Nat)
  /-- The word calls a routine in the code of the host processor. -/
  | machineCodeCall (word : Word) (address : Nat)
  /-- A call at `address` finds `capacity` return addresses stacked. -/
  | stackOverflow (address capacity : Nat)
  /-- A return at `address` finds no return address. -/
  | stackUnderflow (address : Nat)
  /-- An access runs past the end of memory, where `address` is the first byte outside. -/
  | memoryBounds (address : Nat)
  /-- No whole word is stored at `address`. -/
  | fetchBounds (address : Nat)
  | programTooLarge (size capacity : Nat)
deriving DecidableEq

namespace Fault

def isFatal : Fault → Bool
  | .machineCodeCall _ _ => false
  | _ => true

def marked (width value : Nat) : String := "0x" ++ Hex.padded width value

def message : Fault → String
  | .illegalInstruction word address =>
      "illegal opcode " ++ marked 4 word.toNat ++ " at " ++ marked 3 address
  | .machineCodeCall word address =>
      "unsupported machine code call " ++ marked 4 word.toNat ++ " at " ++ marked 3 address
  | .stackOverflow address capacity =>
      "stack overflow: call at " ++ marked 3 address ++ " exceeds " ++
        toString capacity ++ " nested calls"
  | .stackUnderflow address =>
      "stack underflow: return at " ++ marked 3 address ++ " with an empty call stack"
  | .memoryBounds address => "memory access out of bounds at " ++ marked 4 address
  | .fetchBounds address => "cannot fetch an instruction at " ++ marked 3 address
  | .programTooLarge size capacity =>
      "program is too large (" ++ toString size ++ " bytes), at most " ++
        toString capacity ++ " bytes fit"

def record : Fault → Record
  | .illegalInstruction word address =>
      ⟨"IllegalOpcode", [("opcode", word.toNat), ("address", address)]⟩
  | .machineCodeCall word address =>
      ⟨"UnsupportedInstruction", [("opcode", word.toNat), ("address", address)]⟩
  | .stackOverflow address capacity =>
      ⟨"StackOverflow", [("address", address), ("capacity", capacity)]⟩
  | .stackUnderflow address => ⟨"StackUnderflow", [("address", address)]⟩
  | .memoryBounds address => ⟨"MemoryOutOfBounds", [("address", address)]⟩
  | .fetchBounds address => ⟨"FetchOutOfBounds", [("address", address)]⟩
  | .programTooLarge size capacity =>
      ⟨"RomTooLarge", [("size", size), ("max_size", capacity)]⟩

end Fault
end Chip8
