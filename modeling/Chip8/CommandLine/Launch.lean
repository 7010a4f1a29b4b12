import Chip8.CommandLine.Help
import Chip8.CommandLine.Request
import Chip8.Host.Session
import Chip8.Machine.Loading

/-!
# Launching

A command line either ends at once, with an exit code and some text, or launches a
machine with its program loaded.
-/

namespace Chip8

structure Exit where
  code : UInt8
  output : String := ""
  errors : String := ""
deriving DecidableEq

structure Launch where
  machine : Machine
  settings : Settings

namespace Launch

def usageExit (error : UsageError) : Exit :=
  { code := 2, errors := "error: " ++ error.message ++ "\n\n" ++ Help.usageLine ++ "\n" }

def loadExit (error : LoadError) : Exit := { code := 1, errors := error.message ++ "\n" }

/-- Loads the program of a command line, given what reading its file gave and a seed
that is used if the command line names none. -/
def ofOptions (options : RunOptions) (content : Except ReadError (List UInt8))
    (seed : UInt64) : Except Exit Launch :=
  let compatibility : Compatibility :=
    { indexOverflowSetsFlag := options.indexOverflowSetsFlag }
  let machine := (Machine.ofSeed (options.seed.getD seed)).configure compatibility
  let loading := machine.loadStored options.path content
  match loading.result with
  | .ok _ => .ok { machine := loading.machine, settings := { rate := options.rate } }
  | .error error => .error (loadExit error)

/-- Answers a command line, given how files are read. -/
def ofArguments (arguments : List String)
    (read : String → Except ReadError (List UInt8)) (seed : UInt64) :
    Except Exit Launch :=
  match CommandLine.parse arguments with
  | .error error => .error (usageExit error)
  | .ok .shortHelp => .error { code := 0, output := Help.short }
  | .ok .longHelp => .error { code := 0, output := Help.long }
  | .ok .version => .error { code := 0, output := Help.version }
  | .ok (.run options) => ofOptions options (read options.path) seed

end Launch
end Chip8
