import Chip8.Proofs.Hits
import Chip8.Screen.Display
import Mathlib.Data.List.Nodup

/-!
# Layouts of the picture

A pixel has one place in row order, and it is found there in three ways: a sprite wraps its
coordinates, a display divides the place of a lit pixel by the width, and the text cuts the
pixels into rows.  All three give a pixel the same column and row, so the lit positions are the
picture once more, in the order in which its rows are read.
-/

namespace Chip8

namespace Place

theorem column_lt (p : Place) : p.column < 64 := Nat.mod_lt _ (by decide)

theorem row_lt (p : Place) : p.row < 32 := by
  have hp := p.isLt
  simp only [row]
  omega

theorem ofPosition_column_row (p : Place) : ofPosition p.column p.row = p :=
  ofPosition_eq_iff_column.mpr ⟨Nat.mod_eq_of_lt p.column_lt, Nat.mod_eq_of_lt p.row_lt⟩

theorem column_ofPosition (x y : Nat) : (ofPosition x y).column = x % 64 :=
  (ofPosition_eq_iff_column.mp rfl).1.symm

theorem row_ofPosition (x y : Nat) : (ofPosition x y).row = y % 32 :=
  (ofPosition_eq_iff_column.mp rfl).2.symm

end Place

namespace Frame

variable {frame : Frame} {pixels : List Bool}

/-- A sprite of a single bit addresses the pixel at its corner. -/
theorem draw_bit (frame : Frame) (x y : Nat) :
    frame.draw x y [0x80] = (frame.toggle (Place.ofPosition x y), frame.pixel x y) := by
  have hplaces : spritePlaces x y [0x80] = [Place.ofPosition x y] := rfl
  rw [draw, hplaces, List.foldl_cons, List.foldl_nil, strike, Bool.false_or]
  rfl

theorem pixel_mod (frame : Frame) (x y : Nat) :
    frame.pixel (x % 64) (y % 32) = frame.pixel x y := by
  have hplace : Place.ofPosition (x % 64) (y % 32) = Place.ofPosition x y :=
    Place.ofPosition_eq_iff.mpr ⟨Nat.mod_mod x 64, Nat.mod_mod y 32⟩
  rw [pixel, hplace, pixel]

/-! ## The text -/

theorem getElem?_cutRows (pixels : List Bool) (y : Nat) :
    (cutRows pixels)[y]? =
      if y * 64 < pixels.length then some ((pixels.drop (y * 64)).take 64) else none := by
  induction y generalizing pixels with
  | zero =>
      cases pixels with
      | nil => simp [cutRows]
      | cons lit rest => simp [cutRows]
  | succ y ih =>
      cases pixels with
      | nil => simp [cutRows]
      | cons lit rest =>
          have hdrop : ((lit :: rest).drop ((y + 1) * 64)) = (rest.drop 63).drop (y * 64) := by
            rw [show (y + 1) * 64 = (63 + y * 64) + 1 by omega, List.drop_succ_cons,
              List.drop_drop]
          rw [cutRows, List.getElem?_cons_succ, ih, hdrop, List.length_drop, List.length_cons]
          refine if_congr ?_ rfl rfl
          omega

/-- The character for a pixel. -/
def symbol (lit : Bool) : Char := if lit then '#' else '.'

/-- The lines of the text of a frame, cut at the line ends. -/
def lines (frame : Frame) : List (List Char) := frame.text.toList.splitOn '\n'

def charAt? (frame : Frame) (column line : Nat) : Option Char :=
  frame.lines[line]?.bind (fun characters ↦ characters[column]?)

theorem splitOn_flatMap (rows : List (List Bool)) :
    (rows.flatMap (fun row ↦ row.map symbol ++ ['\n'])).splitOn '\n' =
      rows.map (fun row ↦ row.map symbol) ++ [[]] := by
  induction rows with
  | nil => rfl
  | cons row rows ih =>
      have hline : '\n' ∉ row.map symbol := by
        intro hmem
        obtain ⟨lit, -, heq⟩ := List.mem_map.mp hmem
        cases lit <;> cases heq
      rw [List.flatMap_cons, List.append_assoc, List.singleton_append,
        List.splitOn_append_cons_self_of_not_mem hline, ih, List.map_cons, List.cons_append]

/-- One line for each row, and nothing after the last line end. -/
theorem lines_eq (frame : Frame) :
    frame.lines = frame.rows.map (fun row ↦ row.map symbol) ++ [[]] := by
  rw [lines, text, String.toList_join, List.flatMap_map, ← splitOn_flatMap]
  congr 2
  funext row
  rw [String.toList_append, String.toList_ofList]
  rfl

theorem getElem?_rows (frame : Frame) (y : Nat) :
    frame.rows[y]? = if y < 32 then some ((frame.toList.drop (y * 64)).take 64) else none := by
  rw [rows, getElem?_cutRows, length_toList]
  refine if_congr ?_ rfl rfl
  omega

theorem length_rows (frame : Frame) : frame.rows.length = 32 := by
  apply Nat.le_antisymm
  · exact List.getElem?_eq_none_iff.mp (by simp [getElem?_rows])
  · apply Nat.le_of_not_lt
    intro hlt
    have hnone := List.getElem?_eq_none_iff.mpr (Nat.le_of_lt_succ hlt)
    simp [getElem?_rows] at hnone

/-- The characters of the text, column by column and line by line. -/
theorem charAt?_eq (frame : Frame) (x y : Nat) :
    frame.charAt? x y =
      if x < 64 ∧ y < 32 then some (symbol (frame.pixel x y)) else none := by
  rw [charAt?, lines_eq]
  by_cases hy : y < 32
  · have hrow : y < (frame.rows.map (fun row ↦ row.map symbol)).length := by
      rw [List.length_map, length_rows]
      exact hy
    rw [List.getElem?_append_left hrow, List.getElem?_map, getElem?_rows, if_pos hy,
      Option.map_some, Option.bind_some, List.getElem?_map]
    by_cases hx : x < 64
    · have hplace : y * 64 + x = (Place.ofPosition x y).val := by
        simp only [Place.ofPosition]
        omega
      rw [List.getElem?_take_of_lt hx, List.getElem?_drop, hplace, getElem?_toList,
        if_pos ⟨hx, hy⟩]
      rfl
    · rw [if_neg (fun h ↦ hx h.1), List.getElem?_eq_none]
      · rfl
      · rw [List.length_take]
        omega
  · have hrow : (frame.rows.map (fun row ↦ row.map symbol)).length ≤ y := by
      rw [List.length_map, length_rows]
      omega
    rw [List.getElem?_append_right hrow, if_neg (fun h ↦ hy h.2)]
    -- After the rows there is at most the empty rest of the text.
    cases y - (frame.rows.map (fun row ↦ row.map symbol)).length with
    | zero => rfl
    | succ k => rfl

theorem charAt?_mod_eq_iff (frame : Frame) (x y : Nat) :
    frame.charAt? (x % 64) (y % 32) = some '#' ↔ frame.pixel x y = true := by
  rw [charAt?_eq, if_pos ⟨Nat.mod_lt x (by decide), Nat.mod_lt y (by decide)⟩, Option.some_inj,
    pixel_mod]
  cases frame.pixel x y <;> decide

/-! ## Frames from lit positions -/

/-- Switches the pixel at a place on. -/
def light (frame : Frame) (p : Place) : Frame := ⟨frame.pixels.setIfInBounds p true⟩

theorem isLit_light (frame : Frame) (p q : Place) :
    (frame.light p).isLit q = (decide (p = q) || frame.isLit q) := by
  by_cases h : p = q
  · subst h
    simp [light, isLit]
  · have hval : p.val ≠ q.val := fun heq ↦ h (Fin.ext heq)
    simp [light, isLit, hval, h]

/-- The blank frame with the pixels at some positions switched on. -/
def ofPositions (positions : List Display.Position) : Frame :=
  positions.foldl (fun frame position ↦ frame.light (Place.ofPosition position.1 position.2))
    blank

theorem isLit_foldl_light (frame : Frame) (positions : List Display.Position) (p : Place) :
    (positions.foldl (fun frame position ↦
        frame.light (Place.ofPosition position.1 position.2)) frame).isLit p = true ↔
      frame.isLit p = true ∨
        ∃ position ∈ positions, Place.ofPosition position.1 position.2 = p := by
  induction positions generalizing frame with
  | nil => simp
  | cons position positions ih =>
      rw [List.foldl_cons, ih, isLit_light, Bool.or_eq_true, decide_eq_true_eq,
        List.exists_mem_cons_iff, or_assoc, or_left_comm]

theorem isLit_ofPositions (positions : List Display.Position) (p : Place) :
    (ofPositions positions).isLit p = true ↔
      ∃ position ∈ positions, Place.ofPosition position.1 position.2 = p := by
  have hblank : blank.isLit p = false := by simp [blank, isLit]
  rw [ofPositions, isLit_foldl_light, hblank]
  simp

end Frame

namespace Display

variable {display : Display} {x y : Nat}

/-- Positions in the order in which the rows are read. -/
def RowMajor (first second : Position) : Prop :=
  first.2 < second.2 ∨ first.2 = second.2 ∧ first.1 < second.1

theorem mem_litPositions_iff :
    (x, y) ∈ display.litPositions ↔ x < 64 ∧ y < 32 ∧ display.frame.pixel x y = true := by
  simp only [litPositions, Frame.litPlaces, List.mem_map, List.mem_filter, List.mem_finRange,
    true_and, Prod.mk.injEq]
  constructor
  · rintro ⟨p, hlit, rfl, rfl⟩
    refine ⟨p.column_lt, p.row_lt, ?_⟩
    rw [Frame.pixel, p.ofPosition_column_row]
    exact hlit
  · rintro ⟨hx, hy, hlit⟩
    refine ⟨Place.ofPosition x y, hlit, ?_, ?_⟩
    · rw [Place.column_ofPosition, Nat.mod_eq_of_lt hx]
    · rw [Place.row_ofPosition, Nat.mod_eq_of_lt hy]

theorem mem_litPositions_mod_iff (display : Display) (x y : Nat) :
    (x % 64, y % 32) ∈ display.litPositions ↔ display.frame.pixel x y = true := by
  rw [mem_litPositions_iff, Frame.pixel_mod]
  constructor
  · rintro ⟨-, -, hlit⟩
    exact hlit
  · intro hlit
    exact ⟨Nat.mod_lt x (by decide), Nat.mod_lt y (by decide), hlit⟩

/-- Greater places come later in the rows. -/
theorem rowMajor_of_lt {p q : Place} (h : p < q) :
    RowMajor (p.column, p.row) (q.column, q.row) := by
  have hval : p.val < q.val := h
  simp only [RowMajor, Place.column, Place.row]
  omega

theorem pairwise_litPositions (display : Display) :
    display.litPositions.Pairwise RowMajor := by
  rw [litPositions, List.pairwise_map]
  exact ((List.pairwise_lt_finRange 2048).filter _).imp rowMajor_of_lt

theorem nodup_litPositions (display : Display) : display.litPositions.Nodup := by
  refine display.pairwise_litPositions.imp ?_
  rintro first second h rfl
  rcases h with h | ⟨-, h⟩
  · exact absurd h (Nat.lt_irrefl _)
  · exact absurd h (Nat.lt_irrefl _)

/-- The lit positions are the whole picture. -/
theorem ofPositions_litPositions (display : Display) :
    Frame.ofPositions display.litPositions = display.frame := by
  apply Frame.ext_isLit
  intro p
  rw [Bool.eq_iff_iff, Frame.isLit_ofPositions]
  constructor
  · rintro ⟨⟨x, y⟩, hmem, rfl⟩
    exact (mem_litPositions_iff.mp hmem).2.2
  · intro hlit
    refine ⟨(p.column, p.row), ?_, p.ofPosition_column_row⟩
    refine mem_litPositions_iff.mpr ⟨p.column_lt, p.row_lt, ?_⟩
    rw [Frame.pixel, p.ofPosition_column_row]
    exact hlit

/-! ## What is printed -/

/-- The cells that a text takes from its position to the right. -/
def cellsOf (printed : Position × String) : List Position :=
  (List.range printed.2.length).map (fun i ↦ (printed.1.1 + i, printed.1.2))

/-- The character that a display prints in a cell, if any. -/
def charAt? (display : Display) (u v : Nat) : Option Char :=
  if (u, v) ∈ display.litPositions then some ' '
  else if display.sound ∧ v = statusRow then "beep".toList[u]? else none

theorem mem_cellsOf_space {position cell : Position} :
    cell ∈ cellsOf (position, " ") ↔ cell = position := by
  have hone : List.range " ".length = [0] := by decide
  rw [cellsOf, hone, List.map_singleton, List.mem_singleton, Nat.add_zero]

theorem mem_cellsOf_status {cell : Position} :
    cell ∈ cellsOf ((0, statusRow), "beep") ↔ cell.1 < 4 ∧ cell.2 = statusRow := by
  obtain ⟨u, v⟩ := cell
  simp only [cellsOf, List.mem_map, List.mem_range, Nat.zero_add, Prod.mk.injEq]
  constructor
  · rintro ⟨i, hi, rfl, rfl⟩
    exact ⟨hi, rfl⟩
  · rintro ⟨hu, rfl⟩
    exact ⟨u, hu, rfl, rfl⟩

theorem row_ne_statusRow (hlit : (x, y) ∈ display.litPositions) : y ≠ statusRow :=
  Nat.ne_of_lt (mem_litPositions_iff.mp hlit).2.1

/-- All that is printed fits the size that the display asks for. -/
theorem cell_lt_requiredSize {printed : Position × String} {cell : Position}
    (hprinted : printed ∈ display.prints) (hcell : cell ∈ cellsOf printed)
    (available : Nat × Nat) :
    cell.1 < (requiredSize available).1 ∧ cell.2 < (requiredSize available).2 := by
  rw [prints, List.mem_append] at hprinted
  change cell.1 < 64 ∧ cell.2 < 33
  rcases hprinted with hpixel | hstatus
  · obtain ⟨⟨x, y⟩, hlit, rfl⟩ := List.mem_map.mp hpixel
    obtain rfl := mem_cellsOf_space.mp hcell
    obtain ⟨hx, hy, -⟩ := mem_litPositions_iff.mp hlit
    exact ⟨hx, Nat.lt_succ_of_lt hy⟩
  · cases hsound : display.sound with
    | false => simp [hsound] at hstatus
    | true =>
        obtain rfl : printed = ((0, statusRow), "beep") := by simpa [hsound] using hstatus
        obtain ⟨hcolumn, hrow⟩ := mem_cellsOf_status.mp hcell
        have hstatusRow : statusRow = 32 := rfl
        omega

theorem size_print (canvas : Canvas) (x y : Nat) (text : String) :
    (canvas.print x y text).width = canvas.width ∧
      (canvas.print x y text).height = canvas.height :=
  canvas.size_printChars x y text.toList

/-- Spaces at some positions are seen there alone. -/
theorem cell?_foldl_space (canvas : Canvas) (positions : List Position) {u v : Nat}
    (hu : u < canvas.width) (hv : v < canvas.height) :
    let printed := positions.foldl (fun canvas position ↦
      canvas.print position.1 position.2 " ") canvas
    (u < printed.width ∧ v < printed.height) ∧
      printed.cell? u v = if (u, v) ∈ positions then some ' ' else canvas.cell? u v := by
  induction positions generalizing canvas with
  | nil => exact ⟨⟨hu, hv⟩, rfl⟩
  | cons position positions ih =>
      obtain ⟨x, y⟩ := position
      obtain ⟨hwidth, hheight⟩ := size_print canvas x y " "
      obtain ⟨hsize, hcell⟩ := ih (canvas.print x y " ") (by rwa [hwidth]) (by rwa [hheight])
      refine ⟨hsize, hcell.trans ?_⟩
      have hspace : (canvas.print x y " ").cell? u v =
          if u = x ∧ v = y then some ' ' else canvas.cell? u v :=
        canvas.cell?_printChar x y ' ' hu hv
      rw [hspace]
      by_cases hlater : (u, v) ∈ positions
      · simp [hlater]
      · simp [hlater]

/-- A canvas with a display drawn on it, cell by cell. -/
theorem cell?_draw (display : Display) (canvas : Canvas) {u v : Nat}
    (hu : u < canvas.width) (hv : v < canvas.height) :
    (display.draw canvas).cell? u v = (display.charAt? u v).or (canvas.cell? u v) := by
  rw [draw, prints, List.foldl_append, List.foldl_map]
  obtain ⟨⟨hwidth, hheight⟩, hcell⟩ := cell?_foldl_space canvas display.litPositions hu hv
  cases hsound : display.sound with
  | false =>
      rw [if_neg Bool.false_ne_true, List.foldl_nil, hcell, charAt?, hsound]
      split
      · rfl
      · rw [if_neg (fun h ↦ Bool.false_ne_true h.1), Option.none_or]
  | true =>
      rw [if_pos rfl, List.foldl_cons, List.foldl_nil]
      refine (Canvas.cell?_printChars _ 0 statusRow "beep".toList hwidth hheight).trans ?_
      rw [hcell, charAt?, hsound]
      by_cases hlit : (u, v) ∈ display.litPositions
      · rw [if_neg (fun h ↦ row_ne_statusRow hlit h.1), if_pos hlit, if_pos hlit]
        rfl
      · rw [if_neg hlit, if_neg hlit]
        by_cases hstatus : v = statusRow
        · rw [if_pos ⟨hstatus, Nat.zero_le u⟩, if_pos ⟨rfl, hstatus⟩, Nat.sub_zero]
        · rw [if_neg (fun h ↦ hstatus h.1), if_neg (fun h ↦ hstatus h.2)]

/-- A pixel that a sprite addresses is a lit position exactly if it is lit, and it is a `#` of
the text exactly then.  The lit positions are listed once each, row by row, and make up the
frame.  No printed pixel covers the status text, and everything printed fits the size that
the display asks for. -/
theorem layouts_agree (frame : Frame) (sound : Bool) :
    let display : Display := { frame, sound }
    (∀ x y,
        frame.draw x y [0x80] = (frame.toggle (Place.ofPosition x y), frame.pixel x y) ∧
          (frame.pixel x y = true ↔ (x % 64, y % 32) ∈ display.litPositions) ∧
          (frame.pixel x y = true ↔ frame.charAt? (x % 64) (y % 32) = some '#')) ∧
      (display.litPositions.Nodup ∧ display.litPositions.Pairwise RowMajor ∧
        (∀ position ∈ display.litPositions, position.1 < 64 ∧ position.2 < 32) ∧
        Frame.ofPositions display.litPositions = frame) ∧
      (∀ position ∈ display.litPositions, ∀ cell ∈ cellsOf (position, " "),
        cell ∉ cellsOf ((0, statusRow), "beep")) ∧
      (∀ printed ∈ display.prints, ∀ cell ∈ cellsOf printed, ∀ available,
        cell.1 < (requiredSize available).1 ∧ cell.2 < (requiredSize available).2) ∧
      ∀ (canvas : Canvas) (u v : Nat), u < canvas.width → v < canvas.height →
        (display.draw canvas).cell? u v = (display.charAt? u v).or (canvas.cell? u v) := by
  intro display
  refine ⟨?_, ⟨display.nodup_litPositions, display.pairwise_litPositions, ?_,
    display.ofPositions_litPositions⟩, ?_, ?_, ?_⟩
  · intro x y
    exact ⟨frame.draw_bit x y, (display.mem_litPositions_mod_iff x y).symm,
      (frame.charAt?_mod_eq_iff x y).symm⟩
  · rintro ⟨x, y⟩ hlit
    obtain ⟨hx, hy, -⟩ := mem_litPositions_iff.mp hlit
    exact ⟨hx, hy⟩
  · rintro ⟨x, y⟩ hlit cell hpixel hstatus
    obtain rfl := mem_cellsOf_space.mp hpixel
    exact row_ne_statusRow hlit (mem_cellsOf_status.mp hstatus).2
  · intro printed hprinted cell hcell available
    exact cell_lt_requiredSize hprinted hcell available
  · intro canvas u v hu hv
    exact display.cell?_draw canvas hu hv

/-- The pixel at column 3 of row 1 is found from coordinates beyond the picture, and it is
printed there next to the status text. -/
theorem layouts_agree_beyond_edges :
    let frame := Frame.ofPositions [(0, 0), (3, 1), (63, 31)]
    let display : Display := { frame, sound := true }
    let drawn := display.draw (Canvas.empty 64 33)
    (3, 1) ∈ display.litPositions ∧ (1, 3) ∉ display.litPositions ∧
      frame.charAt? 3 1 = some '#' ∧ frame.charAt? 1 3 ≠ some '#' ∧
      drawn.cell? 3 1 = some ' ' ∧ drawn.cell? 3 32 = some 'p' := by
  intro frame display drawn
  obtain ⟨hpixels, -, -, -, hdrawn⟩ := layouts_agree frame true
  have hlit : frame.pixel 67 33 = true := by decide +kernel
  have hdark : ¬frame.pixel 1 3 = true := by decide +kernel
  obtain ⟨-, hposition, hsymbol⟩ := hpixels 67 33
  obtain ⟨-, hposition', hsymbol'⟩ := hpixels 1 3
  have hmem : (3, 1) ∈ display.litPositions := hposition.mp hlit
  refine ⟨hmem, fun h ↦ hdark (hposition'.mpr h), hsymbol.mp hlit,
    fun h ↦ hdark (hsymbol'.mpr h), ?_, ?_⟩
  · rw [hdrawn _ 3 1 (by decide) (by decide), charAt?, if_pos hmem]
    rfl
  · have hstatus : (3, 32) ∉ display.litPositions := fun h ↦ row_ne_statusRow h rfl
    rw [hdrawn _ 3 32 (by decide) (by decide), charAt?, if_neg hstatus, if_pos ⟨rfl, rfl⟩]
    rfl

end Display
end Chip8
