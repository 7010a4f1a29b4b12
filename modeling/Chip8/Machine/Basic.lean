import Chip8.CallStack
import Chip8.Frame
import Chip8.Keypad
import Chip8.Memory
import Chip8.Random
import Chip8.Registers
import Chip8.Timers

/-!
# The machine

The state of a machine is the state of its parts together with the program that a
reset brings back.  Loading a program and resetting both lead to the state at power
on with that program in memory.  Only the source of random bytes and the
compatibility settings outlive them.
-/

namespace Chip8

/-- Settings on which historical interpreters differ. -/
structure Compatibility where
  /-- Whether an addition to the index register reports in the flag register that it
  ran past the last address. -/
  indexOverflowSetsFlag : Bool := false
deriving DecidableEq

inductive Execution where
  | running
  /-- The number of the next key goes to register `x`. -/
  | awaitingKey (x : Register)
deriving DecidableEq

structure Machine where
  memory : Memory := Memory.powerOn
  registers : Registers := {}
  stack : CallStack := CallStack.empty
  timers : Timers := {}
  frame : Frame := Frame.blank
  keypad : Keypad := {}
  compatibility : Compatibility := {}
  random : RandomSource
  execution : Execution := .running
  /-- The program that was loaded last. -/
  program : Program := Program.empty
  /-- Whether the picture changed since it was last taken. -/
  redraw : Bool := false
deriving DecidableEq

namespace Machine

def ofSeed (seed : UInt64) : Machine := { random := { seed } }

def reset (m : Machine) : Machine :=
  { memory := Memory.powerOn.load m.program
    compatibility := m.compatibility
    random := m.random
    program := m.program
    redraw := true }

def load (m : Machine) (program : Program) : Machine := { m with program }.reset

def tickTimers (m : Machine) : Machine := { m with timers := m.timers.tick }

def soundActive (m : Machine) : Bool := m.timers.soundActive

/-- Reports the key that the low digit of `pin` selects as down or up. -/
def setKey (m : Machine) (pin : UInt8) (isDown : Bool) : Machine :=
  { m with keypad := m.keypad.set (Nibble.ofByte pin) isDown }

def releaseKeys (m : Machine) : Machine := { m with keypad := m.keypad.releaseAll }

def takeRedraw (m : Machine) : Machine := { m with redraw := false }

def configure (m : Machine) (compatibility : Compatibility) : Machine :=
  { m with compatibility }

def programCounter (m : Machine) : Address := m.registers.programCounter

def advance (m : Machine) (distance : Nat) : Machine :=
  { m with registers := m.registers.advance distance }

def jump (m : Machine) (target : Address) : Machine :=
  { m with registers := { m.registers with programCounter := target } }

end Machine
end Chip8
