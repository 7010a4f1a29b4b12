import Chip8.Machine.Operation
import Chip8.Storage

/-!
# Loading stored programs

A stored program cannot be loaded if its file cannot be read or if the machine rejects
its bytes.
-/

namespace Chip8

inductive LoadError where
  | unreadable (path : String) (cause : ReadError)
  | rejected (fault : Fault)
deriving DecidableEq

namespace LoadError

def message : LoadError → String
  | .unreadable path cause => "could not read program " ++ path ++ ": " ++ cause.text
  | .rejected fault => fault.message

def source? : LoadError → Option String
  | .unreadable _ cause => some cause.text
  | .rejected _ => none

end LoadError

structure Loading where
  machine : Machine
  result : Except LoadError Nat
  log : List LogEntry := []

namespace Machine

def loadStored (m : Machine) (path : String) (content : Except ReadError (List UInt8)) :
    Loading :=
  match content with
  | .error cause => { machine := m, result := .error (.unreadable path cause) }
  | .ok bytes =>
      match Program.ofBytes bytes with
      | .error fault => { machine := m, result := .error (.rejected fault) }
      | .ok program =>
          { machine := m.load program
            result := .ok program.size
            log := loadLog program }

end Machine
end Chip8
