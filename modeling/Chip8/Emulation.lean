import Chip8.Host.Clock
import Chip8.Screen.Feed

/-!
# Emulation

An emulation runs a session and shows it on an interface.  A session that halts with a
fault is reported in a dialog.  The last message of an emulation tells that it has come
to its end.
-/

namespace Chip8
namespace Emulation

def dialogTitle : String := "CHIP-8"

def dialogText (fault : Fault) : String :=
  "The machine halted:\n" ++ fault.message ++ "\n\nPress Esc to quit."

def openDialog (isOpen : Bool) (fault : Fault) : List Action :=
  if isOpen then [.send (.update (.openDialog dialogTitle (dialogText fault)))] else []

def conclude (isOpen : Bool) (ending : Ending) : List Action :=
  match ending with
  | .stopped => [.log .emulationStopped, .send .shutdown]
  | .halted fault =>
      .log (.emulationHalted fault) :: openDialog isOpen fault ++ [.send .shutdown]

/-- The actions of the emulation of a run, where `isOpen` tells whether the interface
takes updates. -/
def actions (isOpen : Bool) (run : Run) : List Action :=
  let feed := run.effects.foldl (Feed.follow isOpen) {}
  match run.ending with
  | none => feed.actions.toList
  | some ending => feed.actions.toList ++ conclude isOpen ending

/-- The interface after it observed the emulation of a run and refreshed. -/
def interfaceAfter (ui : Interface) (run : Run) : Interface :=
  ((actions ui.isOpen run).foldl Interface.observe ui).refresh

end Emulation
end Chip8
