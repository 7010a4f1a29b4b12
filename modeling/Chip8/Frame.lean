/-!
# Frames

A frame is the picture of 64 by 32 pixels, kept row by row.  A sprite is eight
pixels wide, wraps around at the edges and toggles the pixels it covers.  Drawing
reports a collision if it turns a lit pixel off.
-/

namespace Chip8

/-- The place of a pixel in row order. -/
abbrev Place := Fin 2048

namespace Place

/-- The place at a column and a row, both taken modulo the size of the picture. -/
def ofPosition (x y : Nat) : Place := ⟨y % 32 * 64 + x % 64, by omega⟩

def column (p : Place) : Nat := p.val % 64

def row (p : Place) : Nat := p.val / 64

end Place

structure Frame where
  pixels : Vector Bool 2048
deriving DecidableEq

namespace Frame

def blank : Frame := ⟨Vector.replicate 2048 false⟩

def isLit (frame : Frame) (p : Place) : Bool := frame.pixels[p]

def pixel (frame : Frame) (x y : Nat) : Bool := frame.isLit (Place.ofPosition x y)

theorem ext_isLit {f g : Frame} (h : ∀ p, f.isLit p = g.isLit p) : f = g := by
  cases f with
  | mk f =>
    cases g with
    | mk g =>
      congr
      exact Vector.ext (fun i hi ↦ h ⟨i, hi⟩)

def ofPixels? (pixels : List Bool) : Option Frame :=
  if h : pixels.length = 2048 then some ⟨⟨pixels.toArray, by simpa using h⟩⟩ else none

def toList (frame : Frame) : List Bool := frame.pixels.toList

@[simp] theorem length_toList (frame : Frame) : frame.toList.length = 2048 := by
  simp [toList]

theorem getElem?_toList (frame : Frame) (p : Place) :
    frame.toList[p.val]? = some (frame.isLit p) := by
  rw [toList, Vector.getElem?_toList, Vector.getElem?_eq_getElem p.isLt]
  rfl

@[simp] theorem ofPixels?_toList (frame : Frame) : ofPixels? frame.toList = some frame := by
  rw [ofPixels?, dif_pos (by simp [toList])]
  rfl

def toggle (frame : Frame) (p : Place) : Frame :=
  ⟨frame.pixels.set p (!frame.pixels[p])⟩

theorem isLit_toggle (frame : Frame) (p q : Place) :
    (frame.toggle p).isLit q = (frame.isLit q ^^ decide (p = q)) := by
  by_cases h : p = q
  · subst h
    simp [toggle, isLit]
  · have hval : p.val ≠ q.val := fun heq ↦ h (Fin.ext heq)
    simp [toggle, isLit, hval, h]

/-- The places that one row of a sprite covers, the most significant bit leftmost. -/
def rowPlaces (x y : Nat) (row : UInt8) : List Place :=
  (List.range 8).filterMap (fun i ↦
    if row.toNat.testBit (7 - i) then some (Place.ofPosition (x + i) y) else none)

/-- The places that a sprite covers with its upper left corner at (`x`, `y`). -/
def spritePlaces (x y : Nat) : List UInt8 → List Place
  | [] => []
  | row :: rest => rowPlaces x y row ++ spritePlaces x (y + 1) rest

/-- Switches one more pixel and notes whether it was lit. -/
def strike (state : Frame × Bool) (p : Place) : Frame × Bool :=
  (state.1.toggle p, state.2 || state.1.isLit p)

/-- Draws a sprite and tells whether a lit pixel was turned off. -/
def draw (frame : Frame) (x y : Nat) (rows : List UInt8) : Frame × Bool :=
  (spritePlaces x y rows).foldl strike (frame, false)

def litPlaces (frame : Frame) : List Place := (List.finRange 2048).filter frame.isLit

/-- Pixels cut into rows of 64, where the last row takes what is left. -/
def cutRows : List Bool → List (List Bool)
  | [] => []
  | lit :: rest => (lit :: rest.take 63) :: cutRows (rest.drop 63)
termination_by pixels => pixels.length
decreasing_by
  simp only [List.length_drop, List.length_cons]
  omega

def rows (frame : Frame) : List (List Bool) := cutRows frame.toList

/-- One line of text for each row, with `#` for a lit pixel and `.` for another. -/
def text (frame : Frame) : String :=
  String.join (frame.rows.map (fun row ↦
    String.ofList (row.map (fun lit ↦ if lit then '#' else '.')) ++ "\n"))

end Frame
end Chip8
