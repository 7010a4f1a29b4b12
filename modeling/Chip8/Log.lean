import Chip8.Fault

/-!
# The log

An entry records one event of a run.  Its level and its wording are functions of the
event.  The line of an executed instruction shows the whole register state before the
instruction, in columns of fixed width.
-/

namespace Chip8

inductive LogLevel where
  | trace
  | debug
  | info
  | warn
  | error
deriving DecidableEq

namespace LogLevel

def text : LogLevel → String
  | .trace => "TRACE"
  | .debug => "DEBUG"
  | .info => "INFO"
  | .warn => "WARN"
  | .error => "ERROR"

end LogLevel

inductive LogEntry where
  /-- An instruction is about to be executed in the given register state. -/
  | executing (address : Address) (word : Word) (mnemonic : String)
      (values : Vector UInt8 16) (index : Address)
  /-- The machine waits for a key at `address`. -/
  | suspended (address : Address)
  | resuming (key : Key)
  | skipping (fault : Fault)
  | machineReset
  | programLoaded (size : Nat)
  | running (rate : UInt32)
  | shuttingDown
  | halting (fault : Fault)
  /-- An update of the display reached no interface. -/
  | interfaceGone
  | emulationStopped
  | emulationHalted (fault : Fault)
deriving DecidableEq

namespace LogEntry

def level : LogEntry → LogLevel
  | .executing .. => .trace
  | .suspended _ => .debug
  | .resuming _ => .debug
  | .skipping _ => .warn
  | .machineReset => .debug
  | .programLoaded _ => .debug
  | .running _ => .info
  | .shuttingDown => .debug
  | .halting _ => .error
  | .interfaceGone => .warn
  | .emulationStopped => .info
  | .emulationHalted _ => .error

/-- Text filled up with spaces to a width. -/
def padRight (width : Nat) (text : String) : String :=
  text ++ String.ofList (List.replicate (width - text.length) ' ')

def valuesText (values : Vector UInt8 16) : String :=
  "[" ++ ", ".intercalate (values.toList.map (fun v ↦ Hex.padded 2 v.toNat)) ++ "]"

def message : LogEntry → String
  | .executing address word mnemonic values index =>
      Hex.padded 3 address.val ++ ": " ++ word.text ++ " " ++ padRight 14 mnemonic ++
        " v" ++ valuesText values ++ " i" ++ Hex.padded 3 index.val
  | .suspended address =>
      "suspended at " ++ Hex.padded 3 address.val ++ " until a key is pressed"
  | .resuming key => "key " ++ Hex.padded 1 key.val ++ " pressed, resuming"
  | .skipping fault => fault.message ++ ", skipping"
  | .machineReset => "machine reset"
  | .programLoaded size => "loaded program of " ++ toString size ++ " bytes"
  | .running rate =>
      "running at " ++ toString rate.toNat ++ " instructions per second"
  | .shuttingDown => "event loop shutting down"
  | .halting fault => "halting: " ++ fault.message
  | .interfaceGone => "sending updated display failed, the UI is gone"
  | .emulationStopped => "emulation stopped"
  | .emulationHalted fault => "emulation halted: " ++ fault.message

end LogEntry
end Chip8
