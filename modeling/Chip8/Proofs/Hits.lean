import Chip8.Proofs.Cycles
import Chip8.Proofs.Sprites
import Mathlib.Data.Finset.Prod

/-!
# Hit pixels

Each set bit of a sprite falls on one pixel of the picture, where its column and its row wrap
around.  Counting for every pixel the bits that fall on it says all about a draw: the pixels
with an odd count change, and the draw collides at the pixels that were lit before and at those
with two bits or more.  No draw of an instruction is high enough for two bits on one pixel.
-/

namespace Chip8

theorem Place.ofPosition_eq_iff_column {x y : Nat} {p : Place} :
    Place.ofPosition x y = p ↔ x % 64 = p.column ∧ y % 32 = p.row := by
  have hp := p.isLt
  rw [Fin.ext_iff]
  simp only [ofPosition, column, row]
  omega

namespace Sprite

variable {s : Sprite} {p : Place}

/-- The set bits of a sprite that fall on a place.  Bit `i` of row `j`, counted from the left,
falls on the column `x + i` and the row `y + j`. -/
def hitBits (s : Sprite) (p : Place) : Finset (Nat × Nat) :=
  (Finset.range s.rows.length ×ˢ Finset.range 8).filter (fun bit ↦
    (s.rows.getD bit.1 0).toNat.testBit (7 - bit.2) = true ∧
      (s.x + bit.2) % 64 = p.column ∧ (s.y + bit.1) % 32 = p.row)

def hitCount (s : Sprite) (p : Place) : Nat := (s.hitBits p).card

theorem mem_hitBits {j i : Nat} : (j, i) ∈ s.hitBits p ↔ s.Hits j i p := by
  simp only [hitBits, Hits, Finset.mem_filter, Finset.mem_product, Finset.mem_range,
    Place.ofPosition_eq_iff_column]
  constructor
  · rintro ⟨⟨hj, hi⟩, hbit, hplace⟩
    refine ⟨hi, ⟨s.rows[j], List.getElem?_eq_getElem hj, ?_⟩, hplace⟩
    rwa [List.getD_eq_getElem?_getD, List.getElem?_eq_getElem hj] at hbit
  · rintro ⟨hi, ⟨row, hrow, hbit⟩, hplace⟩
    obtain ⟨hj, -⟩ := List.getElem?_eq_some_iff.mp hrow
    refine ⟨⟨hj, hi⟩, ?_, hplace⟩
    rwa [List.getD_eq_getElem?_getD, hrow]

/-- A draw toggles a place once for every set bit that falls on it. -/
theorem count_places (s : Sprite) (p : Place) : s.places.count p = s.hitCount p := by
  rw [places_eq_map, List.count_eq_countP, List.countP_map, List.countP_eq_length_filter,
    ← List.toFinset_card_of_nodup ((nodup_setBits s.rows).filter _), hitCount]
  congr 1
  ext ⟨j, i⟩
  rw [mem_hitBits, hits_iff, List.mem_toFinset, List.mem_filter, Function.comp_apply,
    beq_iff_eq]

theorem mem_places_iff_hitCount_pos : p ∈ s.places ↔ 1 ≤ s.hitCount p := by
  rw [← count_places]
  exact List.count_pos_iff.symm

theorem hitCount_le_one (h : s.rows.length ≤ 32) (p : Place) : s.hitCount p ≤ 1 := by
  rw [← count_places]
  exact List.nodup_iff_count_le_one.mp (hitsOnce_iff_nodup.mp (hitsOnce_of_length_le h)) p

end Sprite

namespace Frame

variable {frame : Frame} {s : Sprite}

theorem isLit_draw_eq (frame : Frame) (s : Sprite) (p : Place) :
    (frame.draw s.x s.y s.rows).1.isLit p =
      (frame.isLit p ^^ decide (s.hitCount p % 2 = 1)) := by
  rw [isLit_draw, Sprite.count_places, Nat.mod_two_of_bodd]
  cases (s.hitCount p).bodd <;> rfl

theorem collides_iff_hitCount :
    (frame.draw s.x s.y s.rows).2 = true ↔
      ∃ p, frame.isLit p = true ∧ 1 ≤ s.hitCount p ∨ 2 ≤ s.hitCount p := by
  rw [collides_iff]
  refine exists_congr (fun p ↦ ?_)
  rw [Sprite.mem_places_iff_hitCount_pos, Sprite.count_places]
  constructor
  · rintro ⟨hhit, hlit | htwice⟩
    · exact Or.inl ⟨hlit, hhit⟩
    · exact Or.inr htwice
  · rintro (⟨hlit, hhit⟩ | htwice)
    · exact ⟨hhit, Or.inl hlit⟩
    · exact ⟨by omega, Or.inr htwice⟩

/-- A sprite that is not higher than the picture collides with what was lit before only. -/
theorem collides_iff_of_length_le (h : s.rows.length ≤ 32) :
    (frame.draw s.x s.y s.rows).2 = true ↔
      ∃ p, frame.isLit p = true ∧ 1 ≤ s.hitCount p := by
  rw [collides_iff_hitCount]
  refine exists_congr (fun p ↦ or_iff_left ?_)
  have honce := Sprite.hitCount_le_one h p
  omega

end Frame

namespace Machine

variable {m : Machine} {w : Word}

/-- The sprite that the instruction of a word draws: the registers hold its corner, and its rows
are in memory from the index register on. -/
def spriteAt (m : Machine) (w : Word) : Sprite where
  x := (m.registers.get w.x).toNat
  y := (m.registers.get w.y).toNat
  rows := List.ofFn (fun k : Fin w.n.val ↦
    m.memory.bytes.get (m.registers.index.offset k.val))

theorem length_rows_spriteAt (m : Machine) (w : Word) :
    (m.spriteAt w).rows.length = w.n.val :=
  List.length_ofFn

/-- A draw uses the machine as it is before anything is written. -/
theorem cycle_of_draw (hw : m.Fetches w) (hop : w.op = 0xD)
    (hfits : m.registers.index.val + w.n.val ≤ 4096) :
    m.cycle.machine = (m.drawn w.x w.y (m.spriteAt w).rows).advance 2 ∧
      m.cycle.result = .ok .executed := by
  have hi : w.Encodes (.draw w.x w.y w.n) := ⟨hop, rfl, rfl, rfl⟩
  exact cycle_of_step hw hi (.draw w.x w.y w.n (slice_index_of_le hfits))

end Machine

/-- A draw toggles exactly the pixels that its set bits fall on and reports exactly the
collisions, and the instruction for it stores this report in the flag register. -/
theorem draw_toggles_hit_pixels :
    (∀ (frame : Frame) (s : Sprite),
      let drawn := frame.draw s.x s.y s.rows
      (∀ p, drawn.1.isLit p = (frame.isLit p ^^ decide (s.hitCount p % 2 = 1))) ∧
        (∀ p, s.hitCount p = 0 → drawn.1.isLit p = frame.isLit p) ∧
        (drawn.2 = true ↔
          ∃ p, frame.isLit p = true ∧ 1 ≤ s.hitCount p ∨ 2 ≤ s.hitCount p) ∧
        (s.rows.length ≤ 32 →
          (∀ p, s.hitCount p ≤ 1) ∧
            (drawn.2 = true ↔ ∃ p, frame.isLit p = true ∧ 1 ≤ s.hitCount p))) ∧
      ∀ (m : Machine) (w : Word), m.Fetches w → w.op = 0xD →
        m.registers.index.val + w.n.val ≤ 4096 →
          let s := m.spriteAt w
          let drawn := m.frame.draw s.x s.y s.rows
          m.cycle.result = .ok .executed ∧ m.cycle.machine.frame = drawn.1 ∧
            m.cycle.machine.registers.get 0xF = (if drawn.2 then 1 else 0) ∧
            (∀ x ≠ 0xF, m.cycle.machine.registers.get x = m.registers.get x) ∧
            (∀ p, s.hitCount p ≤ 1) ∧
            (drawn.2 = true ↔ ∃ p, m.frame.isLit p = true ∧ 1 ≤ s.hitCount p) := by
  constructor
  · intro frame s drawn
    refine ⟨frame.isLit_draw_eq s, ?_, Frame.collides_iff_hitCount, ?_⟩
    · intro p hnone
      rw [frame.isLit_draw_eq s p, hnone]
      exact Bool.xor_false _
    · intro hheight
      exact ⟨Sprite.hitCount_le_one hheight, Frame.collides_iff_of_length_le hheight⟩
  · intro m w hw hop hfits s drawn
    obtain ⟨hmachine, hresult⟩ := Machine.cycle_of_draw hw hop hfits
    have hheight : s.rows.length ≤ 32 := by
      have hrows := w.n.isLt
      rw [m.length_rows_spriteAt w]
      omega
    refine ⟨hresult, ?_, ?_, ?_, Sprite.hitCount_le_one hheight,
      Frame.collides_iff_of_length_le hheight⟩
    · rw [hmachine]
      rfl
    · rw [hmachine]
      exact Registers.get_set_self m.registers Register.flag _
    · intro x hx
      rw [hmachine]
      exact Registers.get_setFlag_of_ne m.registers _ hx

/-- The glyph of the digit zero across a corner, drawn twice with the flag register as its
column. -/
theorem draw_toggles_hit_pixels_corner :
    let m := ((Machine.ofSeed 0).load
      { bytes := [0x6F, 0x3E, 0x61, 0x1F, 0xA0, 0x50, 0xDF, 0x15, 0x6F, 0x3E, 0xDF, 0x15] }).run
        (List.replicate 5 .cycle)
    m.Fetches 0xDF15 ∧ m.registers.index.val + 5 ≤ 4096 ∧ (m.spriteAt 0xDF15).rows.length ≤ 32 ∧
      m.frame.isLit (Place.ofPosition 1 1) = true ∧
      (m.spriteAt 0xDF15).hitCount (Place.ofPosition 1 1) = 1 ∧
      m.cycle.machine.frame.isLit (Place.ofPosition 1 1) = false ∧
      m.cycle.machine.registers.get 0xF = 1 := by
  intro m
  have hrun : m.execution = .running ∧ m.fetch = .ok 0xDF15 ∧
      m.registers.index.val + 5 ≤ 4096 ∧ (m.spriteAt 0xDF15).rows.length ≤ 32 ∧
      m.frame.isLit (Place.ofPosition 1 1) = true ∧
      (m.spriteAt 0xDF15).hitCount (Place.ofPosition 1 1) = 1 := by
    decide +kernel
  obtain ⟨hexec, hfetch, hfits, hheight, hlit, hhit⟩ := hrun
  have hw : m.Fetches 0xDF15 := ⟨hexec, hfetch⟩
  obtain ⟨hdraws, hcycle⟩ := draw_toggles_hit_pixels
  obtain ⟨htoggles, -, -, hlow⟩ := hdraws m.frame (m.spriteAt 0xDF15)
  obtain ⟨-, hcollides⟩ := hlow hheight
  obtain ⟨-, hframe, hflag, -⟩ := hcycle m 0xDF15 hw rfl hfits
  refine ⟨hw, hfits, hheight, hlit, hhit, ?_, ?_⟩
  · rw [hframe, htoggles, hlit, hhit]
    rfl
  · rw [hflag, if_pos (hcollides.mpr ⟨_, hlit, hhit.ge⟩)]

end Chip8
