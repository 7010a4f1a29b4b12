import Chip8.Host.Session
import Chip8.Screen.Interface

/-!
# Feeding the interface

A feed remembers the last picture and the last state of the tone.  Whenever one of them
is handed over, it sends a display of both to the interface.  If the interface is gone,
it logs a warning instead.
-/

namespace Chip8

inductive Message where
  | update (update : Update)
  | shutdown
deriving DecidableEq

inductive Action where
  | log (entry : LogEntry)
  | send (message : Message)
deriving DecidableEq

/-- The actions of a feed so far and the display of what was handed over last. -/
structure Feed where
  display : Display := {}
  actions : Array Action := #[]

namespace Feed

def act (feed : Feed) (action : Action) : Feed :=
  { feed with actions := feed.actions.push action }

/-- Sends the display, where `isOpen` tells whether the interface takes it. -/
def send (feed : Feed) (isOpen : Bool) : Feed :=
  feed.act
    (if isOpen then .send (.update (.replaceDisplay feed.display)) else .log .interfaceGone)

def receive (feed : Feed) (isOpen : Bool) (output : Output) : Feed :=
  match output with
  | .present frame => { feed with display := { feed.display with frame } }.send isOpen
  | .sound active =>
      { feed with display := { feed.display with sound := active } }.send isOpen

def follow (isOpen : Bool) (feed : Feed) (effect : Effect) : Feed :=
  match effect with
  | .log entry => feed.act (.log entry)
  | .setPeriod _ => feed
  | .output output => feed.receive isOpen output

end Feed

namespace Action

def entries (actions : List Action) : List LogEntry :=
  actions.filterMap (fun action ↦
    match action with
    | .log entry => some entry
    | .send _ => none)

def messages (actions : List Action) : List Message :=
  actions.filterMap (fun action ↦
    match action with
    | .log _ => none
    | .send message => some message)

end Action

namespace Interface

def observe (ui : Interface) (action : Action) : Interface :=
  match action with
  | .send (.update update) => ui.receive update
  | _ => ui

end Interface
end Chip8
