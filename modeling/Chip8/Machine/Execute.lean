import Chip8.Instruction.Table
import Chip8.Machine.Basic

/-!
# Execution of instructions

An instruction works on the machine in place.  It says where execution goes on, or it
ends with a fault, and then everything that it did before the fault stays done.  A
result and a flag are written in this order, and the flag wins when the result goes to
the flag register.
-/

namespace Chip8

/-- Where execution goes on after an instruction. -/
inductive Flow where
  | next
  | skip
  | jump (target : Address)
  /-- At the same instruction, once a key is pressed. -/
  | wait
deriving DecidableEq

namespace Flow

def skipIf (condition : Bool) : Flow := if condition then .skip else .next

end Flow

/-- A computation on a machine in place.  A fault ends it and keeps the machine as it is
then. -/
abbrev Computation := EStateM Fault Machine

@[simp] theorem Computation.run_ofExcept {α : Type} (result : Except Fault α) (m : Machine) :
    EStateM.run (ofExcept result : Computation α) m =
      match result with
      | .ok value => .ok value m
      | .error fault => .error fault m := by
  cases result <;> rfl

namespace Machine

def calculate (m : Machine) (operation : Arithmetic) (x y : Register) : Machine :=
  let (value, flag?) := operation.apply (m.registers.get x) (m.registers.get y)
  let registers := m.registers.set x value
  match flag? with
  | none => { m with registers }
  | some flag => { m with registers := registers.setFlag flag }

def addIndex (m : Machine) (x : Register) : Machine :=
  let sum := m.registers.index.val + (m.registers.get x).toNat
  let registers := { m.registers with index := Fin.ofNat 4096 sum }
  if m.compatibility.indexOverflowSetsFlag then
    { m with registers := registers.setFlag (decide (4096 ≤ sum)) }
  else { m with registers }

def selectGlyph (m : Machine) (x : Register) : Machine :=
  { m with registers :=
      { m.registers with index := Font.address (Nibble.ofByte (m.registers.get x)) } }

def decimalDigits (value : UInt8) : List UInt8 :=
  [value / 100, value / 10 % 10, value % 10]

@[simp] theorem length_decimalDigits (value : UInt8) : (decimalDigits value).length = 3 := rfl

def storeAtIndex (data : List UInt8) : Computation Unit := do
  let m ← get
  let memory ← ofExcept (m.memory.store m.registers.index.val data)
  set { m with memory }

def loadRegisters (x : Register) : Computation Unit := do
  let m ← get
  let data ← ofExcept (m.memory.slice m.registers.index.val (x.val + 1))
  set { m with registers := m.registers.fill data }

def loadRandom (m : Machine) (x : Register) (bits : UInt8) : Machine :=
  { m with
    registers := m.registers.set x (m.random.peek &&& bits)
    random := m.random.advance }

/-- Draws the sprite that the index register points at and writes the collision to the
flag register. -/
def drawSprite (x y : Register) (rows : Nibble) : Computation Unit := do
  let m ← get
  let data ← ofExcept (m.memory.slice m.registers.index.val rows.val)
  let drawn := m.frame.draw (m.registers.get x).toNat (m.registers.get y).toNat data
  modify (fun m ↦ { m with frame := drawn.1 })
  modify (fun m ↦ { m with registers := m.registers.setFlag drawn.2 })
  modify (fun m ↦ { m with redraw := true })

def awaitKey (m : Machine) (x : Register) : Machine :=
  { m with keypad := m.keypad.discardPresses, execution := .awaitingKey x }

def call : Computation Unit := do
  let m ← get
  let stack ← ofExcept (m.stack.push (m.programCounter.offset 2) m.programCounter)
  set { m with stack }

def ret : Computation Address := do
  let m ← get
  let result ← ofExcept (m.stack.pop m.programCounter)
  set { m with stack := result.2 }
  return result.1

end Machine

namespace Instruction

/-- The effect of an instruction on a machine, the program counter apart. -/
def execute (instruction : Instruction) : Computation Flow :=
  match instruction with
  | .clearScreen => do
      modify (fun m ↦ { m with frame := Frame.blank })
      modify (fun m ↦ { m with redraw := true })
      return .next
  | .ret => do
      let target ← Machine.ret
      return .jump target
  | .skipIfKey x => do
      let m ← get
      return .skipIf (m.keypad.isDown (Nibble.ofByte (m.registers.get x)))
  | .skipUnlessKey x => do
      let m ← get
      return .skipIf (!m.keypad.isDown (Nibble.ofByte (m.registers.get x)))
  | .readDelay x => do
      modify (fun m ↦ { m with registers := m.registers.set x m.timers.delay })
      return .next
  | .awaitKey x => do
      modify (fun m ↦ m.awaitKey x)
      return .wait
  | .setDelay x => do
      modify (fun m ↦ { m with timers := { m.timers with delay := m.registers.get x } })
      return .next
  | .setSound x => do
      modify (fun m ↦ { m with timers := { m.timers with sound := m.registers.get x } })
      return .next
  | .addIndex x => do
      modify (fun m ↦ m.addIndex x)
      return .next
  | .selectGlyph x => do
      modify (fun m ↦ m.selectGlyph x)
      return .next
  | .storeDecimal x => do
      let m ← get
      Machine.storeAtIndex (Machine.decimalDigits (m.registers.get x))
      return .next
  | .storeRegisters x => do
      let m ← get
      Machine.storeAtIndex (m.registers.upTo x)
      return .next
  | .loadRegisters x => do
      Machine.loadRegisters x
      return .next
  | .skipIfEqual x y => do
      let m ← get
      return .skipIf (m.registers.get x == m.registers.get y)
  | .arithmetic operation x y => do
      modify (fun m ↦ m.calculate operation x y)
      return .next
  | .skipUnlessEqual x y => do
      let m ← get
      return .skipIf (m.registers.get x != m.registers.get y)
  | .machineCode word => do
      let m ← get
      throw (.machineCodeCall word m.programCounter)
  | .jump target => return .jump target
  | .call target => do
      Machine.call
      return .jump target
  | .skipIfByte x value => do
      let m ← get
      return .skipIf (m.registers.get x == value)
  | .skipUnlessByte x value => do
      let m ← get
      return .skipIf (m.registers.get x != value)
  | .loadByte x value => do
      modify (fun m ↦ { m with registers := m.registers.set x value })
      return .next
  | .addByte x value => do
      modify (fun m ↦ { m with
        registers := m.registers.set x (m.registers.get x + value) })
      return .next
  | .setIndex target => do
      modify (fun m ↦ { m with registers := { m.registers with index := target } })
      return .next
  | .jumpOffset base => do
      let m ← get
      return .jump (base.offset (m.registers.get 0).toNat)
  | .random x bits => do
      modify (fun m ↦ m.loadRandom x bits)
      return .next
  | .draw x y rows => do
      Machine.drawSprite x y rows
      return .next

end Instruction
end Chip8
