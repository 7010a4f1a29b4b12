import Chip8.Frame
import Chip8.Screen.Canvas

/-!
# Displays

A display shows one frame and, in a line of its own below, whether the tone sounds.  A
lit pixel is a printed space; the other pixels print nothing.
-/

namespace Chip8

structure Display where
  frame : Frame := Frame.blank
  sound : Bool := false
deriving DecidableEq

namespace Display

abbrev Position := Nat × Nat

def litPositions (display : Display) : List Position :=
  display.frame.litPlaces.map (fun p ↦ (p.column, p.row))

def statusRow : Nat := 32

def prints (display : Display) : List (Position × String) :=
  display.litPositions.map (fun position ↦ (position, " ")) ++
    if display.sound then [((0, statusRow), "beep")] else []

/-- The width and the height that the display asks for, whatever is available. -/
def requiredSize (_available : Nat × Nat) : Nat × Nat := (64, statusRow + 1)

def draw (display : Display) (canvas : Canvas) : Canvas :=
  display.prints.foldl (fun canvas printed ↦
    canvas.print printed.1.1 printed.1.2 printed.2) canvas

end Display
end Chip8
