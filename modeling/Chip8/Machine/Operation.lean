import Chip8.Machine.Cycle

/-!
# Operations of the host

A host drives a machine by cycles, ticks of the timer clock, reports from the keypad
and a few commands.  Every operation has a reply and may log.  A history is a list of
operations that are applied one after the other.
-/

namespace Chip8

inductive Operation where
  | cycle
  | tickTimers
  | setKey (pin : UInt8) (isDown : Bool)
  | releaseKeys
  | takeRedraw
  | reset
  | load (bytes : List UInt8)
  | configure (compatibility : Compatibility)
deriving DecidableEq

inductive Reply where
  | done
  | cycled (result : Except Fault Status)
  | redraw (changed : Bool)
  | loaded (result : Except Fault Nat)

structure Response where
  machine : Machine
  reply : Reply := .done
  log : List LogEntry := []

namespace Machine

def loadLog (program : Program) : List LogEntry :=
  [.machineReset, .programLoaded program.size]

/-- Loads bytes as a program.  Bytes that do not fit change nothing. -/
def loadBytes (m : Machine) (bytes : List UInt8) : Response :=
  match Program.ofBytes bytes with
  | .ok program =>
      { machine := m.load program
        reply := .loaded (.ok program.size)
        log := loadLog program }
  | .error fault => { machine := m, reply := .loaded (.error fault) }

def perform (m : Machine) (operation : Operation) : Response :=
  match operation with
  | .cycle =>
      let cycle := m.cycle
      { machine := cycle.machine, reply := .cycled cycle.result, log := cycle.log }
  | .tickTimers => { machine := m.tickTimers }
  | .setKey pin isDown => { machine := m.setKey pin isDown }
  | .releaseKeys => { machine := m.releaseKeys }
  | .takeRedraw => { machine := m.takeRedraw, reply := .redraw m.redraw }
  | .reset => { machine := m.reset, log := [.machineReset] }
  | .load bytes => m.loadBytes bytes
  | .configure compatibility => { machine := m.configure compatibility }

def run (m : Machine) (history : List Operation) : Machine :=
  history.foldl (fun m operation ↦ (m.perform operation).machine) m

@[simp] theorem run_nil (m : Machine) : m.run [] = m := rfl

@[simp] theorem run_cons (m : Machine) (operation : Operation)
    (history : List Operation) :
    m.run (operation :: history) = (m.perform operation).machine.run history := rfl

theorem run_append (m : Machine) (earlier later : List Operation) :
    m.run (earlier ++ later) = (m.run earlier).run later := by
  simp [run, List.foldl_append]

def responses (m : Machine) : List Operation → List Response
  | [] => []
  | operation :: history =>
      let response := m.perform operation
      response :: response.machine.responses history

end Machine

/-- The outcome of many cycles: how many had each result, and the fault that ended them
early if there was one. -/
structure Burst where
  machine : Machine
  executed : Nat := 0
  awaiting : Nat := 0
  skipped : Nat := 0
  stop : Option Fault := none
  log : Array LogEntry := #[]

namespace Burst

def count (burst : Burst) (cycle : Cycle) : Burst :=
  let burst := { burst with machine := cycle.machine, log := burst.log ++ cycle.log }
  match cycle.result with
  | .ok .executed => { burst with executed := burst.executed + 1 }
  | .ok .awaitingKey => { burst with awaiting := burst.awaiting + 1 }
  | .error fault =>
      if fault.isFatal then { burst with stop := some fault }
      else { burst with skipped := burst.skipped + 1 }

/-- Adds up to a number of cycles and ends at the first fatal fault. -/
def extend (burst : Burst) : Nat → Burst
  | 0 => burst
  | cycles + 1 =>
      match burst.stop with
      | some _ => burst
      | none => (burst.count burst.machine.cycle).extend cycles

end Burst
end Chip8
