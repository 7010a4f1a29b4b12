/-!
# Canvases

A canvas is a rectangle of character cells.  Text is printed from a cell to the right,
and what lies outside the rectangle is cut off.
-/

namespace Chip8

/-- Cells row by row, each empty or printed with a character. -/
structure Canvas where
  width : Nat
  height : Nat
  cells : Vector (Option Char) (width * height)

namespace Canvas

def empty (width height : Nat) : Canvas :=
  { width, height, cells := Vector.replicate (width * height) none }

def cell? (canvas : Canvas) (x y : Nat) : Option Char :=
  if x < canvas.width ∧ y < canvas.height then
    (canvas.cells[y * canvas.width + x]?).join
  else none

def printChar (canvas : Canvas) (x y : Nat) (c : Char) : Canvas :=
  if x < canvas.width ∧ y < canvas.height then
    { canvas with cells := canvas.cells.setIfInBounds (y * canvas.width + x) (some c) }
  else canvas

def printChars (canvas : Canvas) (x y : Nat) : List Char → Canvas
  | [] => canvas
  | c :: rest => (canvas.printChar x y c).printChars (x + 1) y rest

def print (canvas : Canvas) (x y : Nat) (text : String) : Canvas :=
  canvas.printChars x y text.toList

def rows (canvas : Canvas) : List (List (Option Char)) :=
  List.ofFn (fun y : Fin canvas.height ↦
    List.ofFn (fun x : Fin canvas.width ↦ canvas.cell? x y))

/-! ## The cells that text fills -/

variable {x y u v : Nat}

theorem index_lt {width height : Nat} (hx : x < width) (hy : y < height) :
    y * width + x < width * height := by
  calc
    y * width + x < (y + 1) * width := by rw [Nat.succ_mul]; omega
    _ ≤ height * width := Nat.mul_le_mul_right width hy
    _ = width * height := Nat.mul_comm height width

/-- The place of a cell in row order determines its column and its row. -/
theorem index_eq_iff {width : Nat} (hu : u < width) (hx : x < width) :
    y * width + x = v * width + u ↔ u = x ∧ v = y := by
  constructor
  · intro h
    have hmod := congrArg (· % width) h
    have hcolumn : x = u := by
      simpa [Nat.mod_eq_of_lt hu, Nat.mod_eq_of_lt hx] using hmod
    subst hcolumn
    have hrow := Nat.eq_of_mul_eq_mul_right (Nat.zero_lt_of_lt hu) (Nat.add_right_cancel h)
    exact ⟨rfl, hrow.symm⟩
  · rintro ⟨rfl, rfl⟩
    rfl

@[simp] theorem size_printChar (canvas : Canvas) (x y : Nat) (c : Char) :
    (canvas.printChar x y c).width = canvas.width ∧
      (canvas.printChar x y c).height = canvas.height := by
  unfold printChar
  split
  · exact ⟨rfl, rfl⟩
  · exact ⟨rfl, rfl⟩

theorem cell?_printChar (canvas : Canvas) (x y : Nat) (c : Char) {u v : Nat}
    (hu : u < canvas.width) (hv : v < canvas.height) :
    (canvas.printChar x y c).cell? u v =
      if u = x ∧ v = y then some c else canvas.cell? u v := by
  unfold printChar
  split
  · rename_i hin
    have hindex := index_eq_iff (v := v) (y := y) hu hin.1
    simp only [cell?, hu, hv, and_self, if_true, Vector.getElem?_setIfInBounds, hindex,
      index_lt hin.1 hin.2]
    split
    · rfl
    · rfl
  · rename_i hout
    rw [if_neg]
    rintro ⟨rfl, rfl⟩
    exact hout ⟨hu, hv⟩

@[simp] theorem size_printChars (canvas : Canvas) (x y : Nat) (cs : List Char) :
    (canvas.printChars x y cs).width = canvas.width ∧
      (canvas.printChars x y cs).height = canvas.height := by
  induction cs generalizing canvas x with
  | nil => exact ⟨rfl, rfl⟩
  | cons c cs ih =>
      have hrest := ih (canvas.printChar x y c) (x + 1)
      rw [(size_printChar canvas x y c).1, (size_printChar canvas x y c).2] at hrest
      exact hrest

theorem cell?_printChars (canvas : Canvas) (x y : Nat) (cs : List Char) {u v : Nat}
    (hu : u < canvas.width) (hv : v < canvas.height) :
    (canvas.printChars x y cs).cell? u v =
      (if v = y ∧ x ≤ u then cs[u - x]? else none).or (canvas.cell? u v) := by
  induction cs generalizing canvas x with
  | nil =>
      rw [List.getElem?_nil, ite_self]
      rfl
  | cons c cs ih =>
      obtain ⟨hwidth, hheight⟩ := size_printChar canvas x y c
      rw [printChars, ih _ _ (by rwa [hwidth]) (by rwa [hheight]),
        cell?_printChar canvas x y c hu hv]
      by_cases hrow : v = y
      · rcases Nat.lt_trichotomy u x with hbefore | rfl | hlater
        · rw [if_neg (by omega), if_neg (by omega), if_neg (by omega)]
        · rw [if_neg (by omega), if_pos ⟨rfl, hrow⟩, if_pos ⟨hrow, Nat.le_refl u⟩, Nat.sub_self]
          rfl
        · have hnext : u - x = (u - (x + 1)) + 1 := by omega
          rw [if_pos ⟨hrow, hlater⟩, if_neg (by omega), if_pos (by omega), hnext,
            List.getElem?_cons_succ]
      · simp [hrow]

end Canvas
end Chip8
