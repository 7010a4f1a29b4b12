import Chip8.Frame
import Mathlib.Data.List.Nodup
import Mathlib.Data.Nat.Bits
import Mathlib.Tactic.Common

/-!
# Drawing sprites

Drawing a sprite toggles one place after the other, so a pixel changes if it is toggled an odd
number of times, whatever the frame looks like.  Draws therefore commute, and two equal draws
cancel.  A draw reports a collision as soon as a toggle finds its pixel lit, which happens at a
place that was lit before or that is toggled a second time.
-/

namespace Chip8

theorem Place.ofPosition_eq_iff {x y u v : Nat} :
    Place.ofPosition x y = Place.ofPosition u v ↔ x % 64 = u % 64 ∧ y % 32 = v % 32 := by
  rw [Place.ofPosition, Place.ofPosition, Fin.mk.injEq]
  omega

/-- A sprite together with the position of its upper left corner. -/
structure Sprite where
  x : Nat
  y : Nat
  rows : List UInt8

/-! ## The bits of a sprite -/

namespace Sprite

/-- The columns of the set bits of a row, the most significant bit leftmost. -/
def rowBits (row : UInt8) : List Nat :=
  (List.range 8).filter (fun i ↦ row.toNat.testBit (7 - i))

/-- The set bits of a sprite, each with its row and its column. -/
def setBits : List UInt8 → List (Nat × Nat)
  | [] => []
  | row :: rest =>
      (rowBits row).map (fun i ↦ (0, i)) ++ (setBits rest).map (fun bit ↦ (bit.1 + 1, bit.2))

theorem mem_rowBits {row : UInt8} {i : Nat} :
    i ∈ rowBits row ↔ i < 8 ∧ row.toNat.testBit (7 - i) = true := by
  simp [rowBits]

theorem mem_setBits {rows : List UInt8} {j i : Nat} :
    (j, i) ∈ setBits rows ↔ ∃ row, rows[j]? = some row ∧ i ∈ rowBits row := by
  induction rows generalizing j with
  | nil => simp [setBits]
  | cons row rest ih =>
      cases j with
      | zero => simp [setBits]
      | succ j => simp [setBits, ih]

theorem nodup_setBits (rows : List UInt8) : (setBits rows).Nodup := by
  induction rows with
  | nil => exact List.nodup_nil
  | cons row rest ih =>
      rw [setBits, List.nodup_append']
      refine ⟨?_, ?_, ?_⟩
      · exact (List.nodup_range.filter _).map (fun i k h ↦ by simpa using h)
      · exact ih.map (fun a b h ↦ by simpa [Prod.ext_iff] using h)
      · intro bit hfirst hrest
        simp only [List.mem_map] at hfirst hrest
        obtain ⟨i, -, rfl⟩ := hfirst
        obtain ⟨other, -, hother⟩ := hrest
        simp at hother

theorem exists_mem_rowBits_iff {row : UInt8} : (∃ i, i ∈ rowBits row) ↔ row ≠ 0 := by
  constructor
  · rintro ⟨i, hi⟩ rfl
    simp [mem_rowBits] at hi
  · intro h
    have hne : row.toNat ≠ 0 := fun hzero ↦ h (UInt8.toNat_inj.mp hzero)
    obtain ⟨k, hk⟩ := Nat.exists_testBit_of_ne_zero hne
    have hlt : k < 8 := by
      by_contra hge
      have hbig : row.toNat < 2 ^ k :=
        Nat.lt_of_lt_of_le row.toNat_lt (Nat.pow_le_pow_right (by decide) (by omega))
      rw [Nat.testBit_lt_two_pow hbig] at hk
      cases hk
    refine ⟨7 - k, mem_rowBits.mpr ⟨by omega, ?_⟩⟩
    rwa [show 7 - (7 - k) = k by omega]

/-- The place that a bit of a sprite falls on. -/
def placeOf (s : Sprite) (bit : Nat × Nat) : Place :=
  Place.ofPosition (s.x + bit.2) (s.y + bit.1)

def places (s : Sprite) : List Place := Frame.spritePlaces s.x s.y s.rows

theorem rowPlaces_eq_map (x y : Nat) (row : UInt8) :
    Frame.rowPlaces x y row = (rowBits row).map (fun i ↦ Place.ofPosition (x + i) y) := by
  rw [Frame.rowPlaces, rowBits, ← List.filterMap_eq_map, List.filterMap_filter]
  rfl

theorem spritePlaces_eq_map (x y : Nat) (rows : List UInt8) :
    Frame.spritePlaces x y rows = (setBits rows).map (placeOf ⟨x, y, rows⟩) := by
  induction rows generalizing y with
  | nil => rfl
  | cons row rest ih =>
      rw [Frame.spritePlaces, rowPlaces_eq_map, ih, setBits, List.map_append, List.map_map,
        List.map_map]
      congr 1
      refine List.map_congr_left (fun bit _ ↦ ?_)
      simp [placeOf, Nat.add_assoc, Nat.add_comm 1]

theorem places_eq_map (s : Sprite) : s.places = (setBits s.rows).map s.placeOf :=
  spritePlaces_eq_map s.x s.y s.rows

/-- Bit `i` of row `j`, counted from the left, is set and falls on the place. -/
def Hits (s : Sprite) (j i : Nat) (p : Place) : Prop :=
  i < 8 ∧ (∃ row, s.rows[j]? = some row ∧ row.toNat.testBit (7 - i) = true) ∧
    Place.ofPosition (s.x + i) (s.y + j) = p

/-- No two bits of the sprite fall on one place. -/
def HitsOnce (s : Sprite) : Prop :=
  ∀ p j i k l, s.Hits j i p → s.Hits k l p → j = k ∧ i = l

variable {s : Sprite} {p : Place}

theorem hits_iff {j i : Nat} :
    s.Hits j i p ↔ (j, i) ∈ setBits s.rows ∧ s.placeOf (j, i) = p := by
  simp only [Hits, mem_setBits, mem_rowBits, placeOf]
  constructor
  · rintro ⟨hlt, ⟨row, hrow, hbit⟩, hplace⟩
    exact ⟨⟨row, hrow, hlt, hbit⟩, hplace⟩
  · rintro ⟨⟨row, hrow, hlt, hbit⟩, hplace⟩
    exact ⟨hlt, ⟨row, hrow, hbit⟩, hplace⟩

theorem mem_places_iff : p ∈ s.places ↔ ∃ j i, s.Hits j i p := by
  simp only [places_eq_map, List.mem_map, Prod.exists, hits_iff]

theorem hitsOnce_iff_nodup : s.HitsOnce ↔ s.places.Nodup := by
  rw [places_eq_map, List.nodup_map_iff_inj_on (nodup_setBits s.rows)]
  constructor
  · rintro h ⟨j, i⟩ hfirst ⟨k, l⟩ hsecond heq
    obtain ⟨rfl, rfl⟩ := h _ j i k l (hits_iff.mpr ⟨hfirst, heq⟩) (hits_iff.mpr ⟨hsecond, rfl⟩)
    rfl
  · intro h p j i k l hfirst hsecond
    obtain ⟨hbit, hplace⟩ := hits_iff.mp hfirst
    obtain ⟨hother, hsame⟩ := hits_iff.mp hsecond
    simpa using h _ hbit _ hother (hplace.trans hsame.symm)

/-- A sprite that is not higher than the picture does not overlap itself. -/
theorem hitsOnce_of_length_le (h : s.rows.length ≤ 32) : s.HitsOnce := by
  rintro p j i k l ⟨hi, ⟨row, hrow, -⟩, hfirst⟩ ⟨hl, ⟨other, hother, -⟩, hsecond⟩
  obtain ⟨hj, -⟩ := List.getElem?_eq_some_iff.mp hrow
  obtain ⟨hk, -⟩ := List.getElem?_eq_some_iff.mp hother
  obtain ⟨hcolumn, hline⟩ := Place.ofPosition_eq_iff.mp (hfirst.trans hsecond.symm)
  omega

theorem exists_mem_places_iff : (∃ p, p ∈ s.places) ↔ ∃ row ∈ s.rows, row ≠ 0 := by
  simp only [places_eq_map, List.mem_map, Prod.exists, mem_setBits]
  constructor
  · rintro ⟨-, j, i, ⟨row, hrow, hi⟩, -⟩
    exact ⟨row, List.mem_of_getElem? hrow, exists_mem_rowBits_iff.mp ⟨i, hi⟩⟩
  · rintro ⟨row, hmem, hne⟩
    obtain ⟨j, hrow⟩ := List.getElem?_of_mem hmem
    obtain ⟨i, hi⟩ := exists_mem_rowBits_iff.mpr hne
    exact ⟨_, j, i, ⟨row, hrow, hi⟩, rfl⟩

end Sprite

/-! ## Toggling places -/

namespace Frame

variable {frame : Frame} {places : List Place} {p : Place} {s : Sprite}

theorem bodd_count_cons (q p : Place) (places : List Place) :
    ((q :: places).count p).bodd = (decide (q = p) ^^ (places.count p).bodd) := by
  by_cases h : q = p
  · simp [h]
  · simp [h]

/-- A pixel changes if its place is toggled an odd number of times. -/
theorem isLit_foldl_strike (frame : Frame) (collision : Bool) (places : List Place)
    (p : Place) :
    (places.foldl strike (frame, collision)).1.isLit p =
      (frame.isLit p ^^ (places.count p).bodd) := by
  induction places generalizing frame collision with
  | nil => simp
  | cons q places ih =>
      rw [List.foldl_cons, strike, ih, isLit_toggle, bodd_count_cons, Bool.xor_assoc]

/-- A toggle finds its pixel lit where one was lit before, and where it is not the first. -/
theorem collision_foldl_strike (frame : Frame) (collision : Bool) (places : List Place) :
    (places.foldl strike (frame, collision)).2 = true ↔
      collision = true ∨
        ∃ p ∈ places, frame.isLit p = true ∨ 2 ≤ places.count p := by
  induction places generalizing frame collision with
  | nil => simp
  | cons q places ih =>
      rw [List.foldl_cons, strike, ih, Bool.or_eq_true, or_assoc]
      refine or_congr_right ?_
      constructor
      · rintro (hlit | ⟨p, hp, hagain⟩)
        · exact ⟨q, by simp, Or.inl hlit⟩
        · by_cases hq : q = p
          · subst hq
            have hcount := List.count_pos_iff.mpr hp
            exact ⟨q, by simp, Or.inr (by rw [List.count_cons_self]; omega)⟩
          · refine ⟨p, List.mem_cons_of_mem q hp, ?_⟩
            simpa [isLit_toggle, hq] using hagain
      · rintro ⟨p, hp, hagain⟩
        by_cases hq : q = p
        · subst hq
          by_cases hlit : frame.isLit q = true
          · exact Or.inl hlit
          · refine Or.inr ⟨q, ?_, Or.inl (by simpa [isLit_toggle] using hlit)⟩
            have hcount := hagain.resolve_left hlit
            rw [List.count_cons_self] at hcount
            exact List.count_pos_iff.mp (by omega)
        · refine Or.inr ⟨p, ?_, ?_⟩
          · exact (List.mem_cons.mp hp).resolve_left (fun h ↦ hq h.symm)
          · simpa [isLit_toggle, hq] using hagain

/-! ## Draws -/

theorem isLit_draw (frame : Frame) (s : Sprite) (p : Place) :
    (frame.draw s.x s.y s.rows).1.isLit p = (frame.isLit p ^^ (s.places.count p).bodd) :=
  isLit_foldl_strike frame false s.places p

theorem collides_iff :
    (frame.draw s.x s.y s.rows).2 = true ↔
      ∃ p ∈ s.places, frame.isLit p = true ∨ 2 ≤ s.places.count p := by
  rw [draw, collision_foldl_strike, or_iff_right Bool.false_ne_true]
  rfl

/-- A pixel that the first of two equal draws toggles once is lit for the second one if it was
not lit for the first. -/
theorem collides_again_iff :
    ((frame.draw s.x s.y s.rows).1.draw s.x s.y s.rows).2 = true ↔
      ∃ p ∈ s.places, frame.isLit p = false ∨ 2 ≤ s.places.count p := by
  rw [collides_iff]
  refine exists_congr (fun p ↦ and_congr_right (fun hp ↦ ?_))
  by_cases htwice : 2 ≤ s.places.count p
  · simp [htwice]
  · have hpos := List.count_pos_iff.mpr hp
    have honce : s.places.count p = 1 := by omega
    simp [isLit_draw, honce]

/-- The frame after a list of draws. -/
def drawAll (frame : Frame) (draws : List Sprite) : Frame :=
  draws.foldl (fun frame s ↦ (frame.draw s.x s.y s.rows).1) frame

theorem isLit_drawAll (frame : Frame) (draws : List Sprite) (p : Place) :
    (frame.drawAll draws).isLit p =
      (frame.isLit p ^^ ((draws.flatMap Sprite.places).count p).bodd) := by
  induction draws generalizing frame with
  | nil => simp [drawAll]
  | cons s draws ih =>
      have hcons : frame.drawAll (s :: draws) =
          (frame.draw s.x s.y s.rows).1.drawAll draws := rfl
      rw [hcons, ih, isLit_draw, List.flatMap_cons, List.count_append, Nat.bodd_add,
        Bool.xor_assoc]

theorem drawAll_perm {draws other : List Sprite} (h : draws.Perm other) :
    frame.drawAll draws = frame.drawAll other := by
  apply ext_isLit
  intro p
  rw [isLit_drawAll, isLit_drawAll, (h.flatMap_right Sprite.places).count_eq]

theorem drawAll_cancel (frame : Frame) (s : Sprite) (before between after : List Sprite) :
    frame.drawAll (before ++ s :: between ++ s :: after) =
      frame.drawAll (before ++ between ++ after) := by
  apply ext_isLit
  intro p
  simp only [isLit_drawAll, List.flatMap_append, List.flatMap_cons, List.count_append,
    Nat.bodd_add]
  -- The place is toggled equally often by the two draws, so these leave its pixel alone.
  cases (s.places.count p).bodd <;> simp

/-- Sprites as an action on frames: draws commute, and every draw is its own inverse. -/
theorem draws_commute_and_cancel (frame : Frame) :
    (∀ draws other : List Sprite, draws.Perm other →
      frame.drawAll draws = frame.drawAll other) ∧
      (∀ (s : Sprite) (before between after : List Sprite),
        frame.drawAll (before ++ s :: between ++ s :: after) =
          frame.drawAll (before ++ between ++ after)) ∧
      ∀ s : Sprite,
        let first := frame.draw s.x s.y s.rows
        let second := first.1.draw s.x s.y s.rows
        second.1 = frame ∧
          (first.2 = true ∨ second.2 = true ↔ ∃ row ∈ s.rows, row ≠ 0) ∧
          (second.2 = false ↔
            s.HitsOnce ∧ ∀ p j i, s.Hits j i p → frame.isLit p = true) ∧
          (s.rows.length ≤ 32 → s.HitsOnce) := by
  refine ⟨fun draws other ↦ drawAll_perm, frame.drawAll_cancel, ?_⟩
  intro s first second
  have hcollides : first.2 = true ↔ _ := collides_iff
  have hagain : second.2 = true ↔ _ := collides_again_iff
  refine ⟨frame.drawAll_cancel s [] [] [], ?_, ?_, s.hitsOnce_of_length_le⟩
  · rw [← Sprite.exists_mem_places_iff, hcollides, hagain]
    constructor
    · rintro (⟨p, hp, -⟩ | ⟨p, hp, -⟩) <;> exact ⟨p, hp⟩
    · rintro ⟨p, hp⟩
      cases hlit : frame.isLit p with
      | true => exact Or.inl ⟨p, hp, Or.inl hlit⟩
      | false => exact Or.inr ⟨p, hp, Or.inl hlit⟩
  · rw [← Bool.not_eq_true, hagain, Sprite.hitsOnce_iff_nodup, List.nodup_iff_count_le_one]
    constructor
    · intro hnone
      constructor
      · intro p
        by_contra hmany
        have htwice : 2 ≤ s.places.count p := by omega
        exact hnone ⟨p, List.count_pos_iff.mp (by omega), Or.inr htwice⟩
      · intro p j i hit
        by_contra hdark
        exact hnone ⟨p, Sprite.mem_places_iff.mpr ⟨j, i, hit⟩, Or.inl (by simpa using hdark)⟩
    · rintro ⟨honce, hlit⟩ ⟨p, hp, hagain⟩
      obtain ⟨j, i, hit⟩ := Sprite.mem_places_iff.mp hp
      rcases hagain with hdark | htwice
      · rw [hlit p j i hit] at hdark
        cases hdark
      · exact absurd (honce p) (by omega)

/-- The glyph of the digit zero across a corner, together with a bar that it hits partly. -/
theorem draws_commute_and_cancel_overlap :
    let glyph : Sprite := ⟨62, 30, [0xF0, 0x90, 0x90, 0x90, 0xF0]⟩
    let bar : Sprite := ⟨0, 31, [0xFF]⟩
    let first := (blank.drawAll [bar]).draw glyph.x glyph.y glyph.rows
    [glyph, bar].Perm [bar, glyph] ∧
      blank.drawAll [glyph, bar] = blank.drawAll [bar, glyph] ∧
      blank.drawAll [glyph, bar, glyph] = blank.drawAll [bar] ∧
      (first.2 = true ∨ (first.1.draw glyph.x glyph.y glyph.rows).2 = true) ∧
      glyph.rows.length ≤ 32 ∧ glyph.HitsOnce := by
  intro glyph bar first
  have hswap : [glyph, bar].Perm [bar, glyph] := .swap bar glyph []
  have hheight : glyph.rows.length ≤ 32 := by decide
  obtain ⟨hcommute, hcancel, -⟩ := draws_commute_and_cancel blank
  obtain ⟨-, -, htwice⟩ := draws_commute_and_cancel (blank.drawAll [bar])
  obtain ⟨-, hreports, -, honce⟩ := htwice glyph
  refine ⟨hswap, hcommute _ _ hswap, hcancel glyph [] [bar] [], ?_, hheight, honce hheight⟩
  exact hreports.mpr ⟨0xF0, by decide, by decide⟩

/-- The second of two equal draws collides although all of its places were lit before the
first one, if the sprite is so high that it meets its own first row. -/
theorem second_draw_collides_on_overlap :
    let s : Sprite := ⟨0, 0, 0x80 :: (List.replicate 31 0x00 ++ [0x80])⟩
    let frame := blank.toggle (Place.ofPosition 0 0)
    (∀ p j i, s.Hits j i p → frame.isLit p = true) ∧
      ((frame.draw s.x s.y s.rows).1.draw s.x s.y s.rows).2 = true := by
  intro s frame
  have hlit : ∀ p ∈ s.places, frame.isLit p = true := by decide +kernel
  exact ⟨fun p j i hit ↦ hlit p (Sprite.mem_places_iff.mpr ⟨j, i, hit⟩), by decide +kernel⟩

end Frame
end Chip8
