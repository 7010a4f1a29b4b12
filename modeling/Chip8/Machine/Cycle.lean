import Chip8.Log
import Chip8.Machine.Execute

/-!
# Cycles

A cycle of a running machine executes one instruction, and a cycle of a machine that
waits for a key looks for a press.  A fatal fault leaves the machine as it was; a call
of machine code is reported and passed over.
-/

namespace Chip8

inductive Status where
  /-- An instruction was executed, or a wait for a key ended. -/
  | executed
  | awaitingKey
deriving DecidableEq

structure Cycle where
  machine : Machine
  result : Except Fault Status
  log : List LogEntry := []

namespace Machine

def fetch (m : Machine) : Except Fault Word := m.memory.word m.programCounter.val

/-- Ends the wait for a key if one was pressed since the wait began. -/
def poll (m : Machine) (x : Register) : Cycle :=
  match m.keypad.takePress with
  | (none, keypad) => { machine := { m with keypad }, result := .ok .awaitingKey }
  | (some key, keypad) =>
      { machine :=
          { m with
            keypad
            registers := (m.registers.set x (UInt8.ofNat key.val)).advance 2
            execution := .running }
        result := .ok .executed
        log := [.resuming key] }

def proceed (m : Machine) (site : Address) (flow : Flow) : Cycle :=
  match flow with
  | .next => { machine := m.advance 2, result := .ok .executed }
  | .skip => { machine := m.advance 4, result := .ok .executed }
  | .jump target => { machine := m.jump target, result := .ok .executed }
  | .wait => { machine := m, result := .ok .awaitingKey, log := [.suspended site] }

/-- Passes over a fault that is not fatal and stops at one that is. -/
def fail (m : Machine) (fault : Fault) : Cycle :=
  if fault.isFatal then { machine := m, result := .error fault }
  else { machine := m.advance 2, result := .error fault, log := [.skipping fault] }

def executeInstruction (m : Machine) (instruction : Instruction) : Cycle :=
  match instruction.execute.run m with
  | .ok flow after => after.proceed m.programCounter flow
  | .error fault after => after.fail fault

def traceEntry (m : Machine) (word : Word) (mnemonic : String) : LogEntry :=
  .executing m.programCounter word mnemonic m.registers.values m.registers.index

def dispatch (m : Machine) (word : Word) : Cycle :=
  match Instruction.lookup word with
  | none =>
      { machine := m, result := .error (.illegalInstruction word m.programCounter) }
  | some pattern =>
      let cycle := m.executeInstruction (pattern.instruction word)
      { cycle with log := m.traceEntry word pattern.mnemonic :: cycle.log }

def cycle (m : Machine) : Cycle :=
  match m.execution with
  | .awaitingKey x => m.poll x
  | .running =>
      match m.fetch with
      | .ok word => m.dispatch word
      | .error fault => { machine := m, result := .error fault }

end Machine
end Chip8
