import Chip8.CommandLine.Launch
import Chip8.Host.Clock

/-!
# The command

The outermost layer reads the program file, keeps time and prints.  Whenever the picture
changes it is printed from the upper left corner of the terminal, and a tone rings the
bell.
-/

namespace Chip8
namespace Command

/-- Whether a reported code stands for an error number, which may come negated. -/
def isCode (code number : UInt32) : Bool := code = number || code = 0 - number

def readError (error : IO.Error) : ReadError :=
  match error with
  | .noFileOrDirectory .. => .notFound
  | .inappropriateType _ code _ =>
      if isCode code 20 then .notDirectory
      else if isCode code 21 then .isDirectory
      else .other (toString error)
  | .invalidArgument _ code _ =>
      if isCode code 36 then .nameTooLong else .other (toString error)
  | _ => .other (toString error)

def readFile (path : String) : IO (Except ReadError (List UInt8)) := do
  try
    let bytes ← IO.FS.readBinFile path
    return .ok bytes.toList
  catch error =>
    return .error (readError error)

def perform (effect : Effect) : IO Unit :=
  match effect with
  | .log entry =>
      if entry.level = .trace ∨ entry.level = .debug then pure ()
      else IO.eprintln (entry.level.text ++ " " ++ entry.message)
  | .setPeriod _ => pure ()
  | .output (.present frame) => IO.print ("\x1b[H" ++ frame.text)
  | .output (.sound active) => IO.print (if active then "\x07" else "")

def waitUntil (origin time : Nat) : IO Unit := do
  let now ← IO.monoNanosNow
  IO.sleep (UInt32.ofNat ((origin + time - now) / 1000000))

/-- Runs a session on the real clock until it ends. -/
partial def play (settings : Settings) (session : Session) (clock : Clock)
    (origin : Nat) : IO UInt32 := do
  let (input, time) := clock.beat
  waitUntil origin time
  let iteration := session.iterate settings input
  for effect in iteration.effects do
    perform effect
  match iteration.ending with
  | none => play settings iteration.session clock.advance origin
  | some .stopped => return 0
  | some (.halted _) => return 1

end Command
end Chip8

open Chip8

def main (arguments : List String) : IO UInt32 := do
  let content ←
    match CommandLine.parse arguments with
    | .ok (.run options) => Command.readFile options.path
    | _ => pure (.error .notFound)
  let seed ← IO.rand 0 0xFFFFFFFFFFFFFFFF
  match Launch.ofArguments arguments (fun _ ↦ content) (UInt64.ofNat seed) with
  | .error exit =>
      IO.print exit.output
      IO.eprint exit.errors
      return exit.code.toUInt32
  | .ok launch =>
      let session := Session.start launch.machine launch.settings
      Command.play launch.settings session (Clock.ofRate session.rate)
        (← IO.monoNanosNow)
