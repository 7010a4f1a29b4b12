import Chip8.Machine.Operation
import Chip8.Proofs.Bare.Parts

/-!
# The bare machine

The bare machine is made of bare parts.  It looks up the instruction of a word in the table,
but reads the operands from the word itself.  An operation either has a result, which may be
that the program is at fault, or stops at a guard.
-/

namespace Chip8

inductive BareExecution where
  | running
  | awaitingKey (register : UInt8)
deriving DecidableEq

inductive BareFlow where
  | next
  | skip
  | jump (target : UInt16)
  | wait
deriving DecidableEq

structure BareMachine where
  memory : Memory
  registers : BareRegisters
  stack : BareStack
  timers : Timers := {}
  frame : Frame := Frame.blank
  keypad : Keypad := {}
  compatibility : Compatibility := {}
  random : RandomSource
  execution : BareExecution := .running
  program : List UInt8 := []
  redraw : Bool := false
deriving DecidableEq

/-- A machine and the result of what it did, which is a fault if its program failed. -/
abbrev BareMachine.Result (α : Type) := BareMachine × Except Fault α

namespace BareFlow

def skipIf (condition : Bool) : BareFlow := if condition then .skip else .next

end BareFlow

namespace BareMachine

def start (random : RandomSource) : Guarded BareMachine := do
  let memory ← BareMemory.start
  let registers ← BareRegisters.start
  let stack ← BareStack.start
  .ok { memory, registers, stack, random }

/-- The program is copied into fresh memory, which stays without it if it does not fit. -/
def reset (m : BareMachine) : Guarded BareMachine := do
  let fresh ← BareMemory.start
  let loaded ← BareMemory.load fresh m.program
  let memory := match loaded with
    | .ok memory => memory
    | .error _ => fresh
  let registers ← BareRegisters.start
  let stack ← BareStack.start
  .ok
    { memory
      registers
      stack
      compatibility := m.compatibility
      random := m.random
      program := m.program
      redraw := true }

/-! ## Handlers -/

def calculate (m : BareMachine) (operation : Arithmetic) (w : Word) :
    Guarded (Result BareFlow) := do
  let a ← m.registers.get w.xField
  let b ← m.registers.get w.yField
  let result := operation.apply a b
  let registers ← m.registers.set w.xField result.1
  match result.2 with
  | none => .ok ({ m with registers }, .ok .next)
  | some flag =>
      let registers ← registers.setFlag flag
      .ok ({ m with registers }, .ok .next)

def addIndex (m : BareMachine) (w : Word) : Guarded (Result BareFlow) := do
  let value ← m.registers.get w.xField
  let sum ← Guarded.addWord m.registers.index value.toUInt16
  let index ← Guarded.address (sum &&& 0x0FFF)
  let registers := { m.registers with index }
  if m.compatibility.indexOverflowSetsFlag then
    let registers ← registers.setFlag (decide (0x0FFF < sum))
    .ok ({ m with registers }, .ok .next)
  else .ok ({ m with registers }, .ok .next)

def selectGlyph (m : BareMachine) (w : Word) : Guarded (Result BareFlow) := do
  let value ← m.registers.get w.xField
  let distance ← Guarded.mulWord (value &&& 0xF).toUInt16 5
  let place ← Guarded.addWord 0x50 distance
  let index ← Guarded.address place
  .ok ({ m with registers := { m.registers with index } }, .ok .next)

def storeAtIndex (m : BareMachine) (count : Nat) (data : List UInt8) :
    Guarded (Result BareFlow) := do
  match ← BareMemory.store m.memory m.registers.index.toNat count data with
  | .error fault => .ok (m, .error fault)
  | .ok memory => .ok ({ m with memory }, .ok .next)

def loadRegisters (m : BareMachine) (w : Word) : Guarded (Result BareFlow) := do
  let count ← Guarded.addSize w.xField.toNat 1
  match ← BareMemory.slice m.memory m.registers.index.toNat count with
  | .error fault => .ok (m, .error fault)
  | .ok data =>
      let registers ← m.registers.fill w.xField data
      .ok ({ m with registers }, .ok .next)

def drawSprite (m : BareMachine) (w : Word) : Guarded (Result BareFlow) := do
  let x ← m.registers.get w.xField
  let y ← m.registers.get w.yField
  match ← BareMemory.slice m.memory m.registers.index.toNat w.nField.toNat with
  | .error fault => .ok (m, .error fault)
  | .ok rows =>
      let drawn ← BareFrame.draw m.frame x y rows
      let registers ← m.registers.setFlag drawn.2
      .ok ({ m with frame := drawn.1, registers, redraw := true }, .ok .next)

def call (m : BareMachine) (w : Word) : Guarded (Result BareFlow) := do
  let following ← BareRegisters.wrappingOffset m.registers.programCounter 2
  match ← m.stack.push following m.registers.programCounter with
  | .error fault => .ok (m, .error fault)
  | .ok stack =>
      let target ← w.nnnField
      .ok ({ m with stack }, .ok (.jump target))

def ret (m : BareMachine) : Guarded (Result BareFlow) := do
  match ← m.stack.pop m.registers.programCounter with
  | .error fault => .ok (m, .error fault)
  | .ok (target, stack) => .ok ({ m with stack }, .ok (.jump target))

def skipIf (m : BareMachine) (condition : Bool) : Guarded (Result BareFlow) :=
  .ok (m, .ok (.skipIf condition))

def setRegister (m : BareMachine) (w : Word) (value : UInt8) : Guarded (Result BareFlow) := do
  let registers ← m.registers.set w.xField value
  .ok ({ m with registers }, .ok .next)

/-- Does what the instruction of a word says with the operands of the word. -/
def execute (m : BareMachine) (w : Word) : Instruction → Guarded (Result BareFlow)
  | .clearScreen => .ok ({ m with frame := Frame.blank, redraw := true }, .ok .next)
  | .ret => m.ret
  | .skipIfKey _ => do
      let key ← m.registers.get w.xField
      let isDown ← BareKeypad.isDown m.keypad key
      m.skipIf isDown
  | .skipUnlessKey _ => do
      let key ← m.registers.get w.xField
      let isDown ← BareKeypad.isDown m.keypad key
      m.skipIf !isDown
  | .readDelay _ => m.setRegister w m.timers.delay
  | .awaitKey _ =>
      .ok
        ({ m with
          keypad := m.keypad.discardPresses
          execution := .awaitingKey w.xField }, .ok .wait)
  | .setDelay _ => do
      let delay ← m.registers.get w.xField
      .ok ({ m with timers := { m.timers with delay } }, .ok .next)
  | .setSound _ => do
      let sound ← m.registers.get w.xField
      .ok ({ m with timers := { m.timers with sound } }, .ok .next)
  | .addIndex _ => m.addIndex w
  | .selectGlyph _ => m.selectGlyph w
  | .storeDecimal _ => do
      let value ← m.registers.get w.xField
      m.storeAtIndex 3 (Machine.decimalDigits value)
  | .storeRegisters _ => do
      let data ← m.registers.upTo w.xField
      m.storeAtIndex data.length data
  | .loadRegisters _ => m.loadRegisters w
  | .skipIfEqual _ _ => do
      let a ← m.registers.get w.xField
      let b ← m.registers.get w.yField
      m.skipIf (a == b)
  | .arithmetic operation _ _ => m.calculate operation w
  | .skipUnlessEqual _ _ => do
      let a ← m.registers.get w.xField
      let b ← m.registers.get w.yField
      m.skipIf (a != b)
  | .machineCode _ =>
      .ok (m, .error (.machineCodeCall w m.registers.programCounter.toNat))
  | .jump _ => do
      let target ← w.nnnField
      .ok (m, .ok (.jump target))
  | .call _ => m.call w
  | .skipIfByte _ _ => do
      let a ← m.registers.get w.xField
      m.skipIf (a == w.nnField)
  | .skipUnlessByte _ _ => do
      let a ← m.registers.get w.xField
      m.skipIf (a != w.nnField)
  | .loadByte _ _ => m.setRegister w w.nnField
  | .addByte _ _ => do
      let a ← m.registers.get w.xField
      m.setRegister w (a + w.nnField)
  | .setIndex _ => do
      let index ← w.nnnField
      .ok ({ m with registers := { m.registers with index } }, .ok .next)
  | .jumpOffset _ => do
      let distance ← m.registers.get 0
      let base ← w.nnnField
      let target ← BareRegisters.wrappingOffset base distance.toUInt16
      .ok (m, .ok (.jump target))
  | .random _ _ => do
      let random := m.random.advance
      { m with random }.setRegister w (m.random.peek &&& w.nnField)
  | .draw _ _ _ => m.drawSprite w

/-! ## Cycles -/

def poll (m : BareMachine) (register : UInt8) : Guarded (Result Status) :=
  match m.keypad.takePress with
  | (none, keypad) => .ok ({ m with keypad }, .ok .awaitingKey)
  | (some key, keypad) => do
      let registers ← m.registers.set register (UInt8.ofNat key.val)
      let registers ← registers.advance 2
      .ok ({ m with keypad, registers, execution := .running }, .ok .executed)

def advance (m : BareMachine) (distance : UInt16) : Guarded BareMachine := do
  let registers ← m.registers.advance distance
  .ok { m with registers }

/-- Goes on after an instruction, where a fault that is not fatal is passed over. -/
def proceed (m : BareMachine) : Except Fault BareFlow → Guarded (Result Status)
  | .ok .next => do
      let after ← m.advance 2
      .ok (after, .ok .executed)
  | .ok .skip => do
      let after ← m.advance 4
      .ok (after, .ok .executed)
  | .ok (.jump target) =>
      .ok
        ({ m with registers := { m.registers with programCounter := target } },
          .ok .executed)
  | .ok .wait => .ok (m, .ok .awaitingKey)
  | .error fault =>
      if fault.isFatal then .ok (m, .error fault)
      else do
        let after ← m.advance 2
        .ok (after, .error fault)

def dispatch (m : BareMachine) (w : Word) : Guarded (Result Status) :=
  match Instruction.lookup w with
  | none =>
      .ok (m, .error (.illegalInstruction w m.registers.programCounter.toNat))
  | some pattern => do
      -- The log shows all registers.
      let _ ← m.registers.upTo 0xF
      let outcome ← m.execute w (pattern.instruction w)
      outcome.1.proceed outcome.2

def cycle (m : BareMachine) : Guarded (Result Status) :=
  match m.execution with
  | .awaitingKey register => m.poll register
  | .running => do
      match ← BareMemory.word m.memory m.registers.programCounter with
      | .error fault => .ok (m, .error fault)
      | .ok w => m.dispatch w

/-! ## Operations of the host -/

def setKey (m : BareMachine) (pin : UInt8) (isDown : Bool) : Guarded BareMachine := do
  let keypad ← BareKeypad.set m.keypad pin isDown
  .ok { m with keypad }

def load (m : BareMachine) (bytes : List UInt8) : Guarded (Result Nat) :=
  if programCapacity < bytes.length then
    .ok (m, .error (.programTooLarge bytes.length programCapacity))
  else do
    let after ← { m with program := bytes }.reset
    .ok (after, .ok bytes.length)

def perform (m : BareMachine) : Operation → Guarded (BareMachine × Reply)
  | .cycle => do
      let outcome ← m.cycle
      .ok (outcome.1, .cycled outcome.2)
  | .tickTimers => .ok ({ m with timers := m.timers.tick }, .done)
  | .setKey pin isDown => do
      let after ← m.setKey pin isDown
      .ok (after, .done)
  | .releaseKeys => .ok ({ m with keypad := m.keypad.releaseAll }, .done)
  | .takeRedraw => .ok ({ m with redraw := false }, .redraw m.redraw)
  | .reset => do
      let after ← m.reset
      .ok (after, .done)
  | .load bytes => do
      let outcome ← m.load bytes
      .ok (outcome.1, .loaded outcome.2)
  | .configure compatibility => .ok ({ m with compatibility }, .done)

def run (m : BareMachine) (history : List Operation) : Guarded BareMachine :=
  history.foldlM (fun m operation ↦ do
    let outcome ← m.perform operation
    .ok outcome.1) m

end BareMachine
end Chip8
