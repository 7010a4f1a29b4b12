import Chip8.Screen.Display

/-!
# The interface

The interface shows a stack of layers.  It is changed by updates, which wait until it
applies them in the order in which they were sent.  An interface that is gone takes no
updates.
-/

namespace Chip8

inductive Layer where
  | display (display : Display)
  | dialog (title text : String)
  /-- A layer that belongs to the interface itself. -/
  | other (name : String)
deriving DecidableEq

inductive Update where
  /-- The uppermost layer makes room for a display. -/
  | replaceDisplay (display : Display)
  | openDialog (title text : String)
deriving DecidableEq

namespace Update

/-- The layers after an update, the uppermost one first. -/
def apply (update : Update) (layers : List Layer) : List Layer :=
  match update with
  | .replaceDisplay display => .display display :: layers.tail
  | .openDialog title text => .dialog title text :: layers

def applyAll (updates : List Update) (layers : List Layer) : List Layer :=
  updates.foldl (fun layers update ↦ update.apply layers) layers

end Update

structure Interface where
  /-- The layers, the uppermost one first. -/
  layers : List Layer
  /-- The updates that wait, in the order in which they were sent, or nothing if the
  interface is gone. -/
  waiting : Option (Array Update) := some #[]

namespace Interface

def isOpen (ui : Interface) : Bool := ui.waiting.isSome

def receive (ui : Interface) (update : Update) : Interface :=
  { ui with waiting := ui.waiting.map (fun updates ↦ updates.push update) }

/-- The interface goes away together with the updates that wait. -/
def close (ui : Interface) : Interface := { ui with waiting := none }

def refresh (ui : Interface) : Interface :=
  match ui.waiting with
  | none => ui
  | some updates => { layers := Update.applyAll updates.toList ui.layers }

end Interface
end Chip8
