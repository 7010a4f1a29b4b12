import Chip8.Proofs.Hits
import Chip8.Proofs.Restarts
import Chip8.Proofs.StoredBytes
import Mathlib.Data.List.GetD

/-!
# Glyphs

The font lies below the start of every program, so each restart puts it in place whatever was
loaded, and it stays there unless an instruction writes over it.  The address of a glyph is a
function of the low digit of a byte and leaves room for all rows of the glyph.  A draw from this
address then shows the glyph and cannot fail.
-/

namespace Chip8

/-- The rows of a glyph follow each other in the font. -/
theorem Font.getD_bytes (digit : Nibble) (k : Fin 5) :
    bytes.getD (5 * digit.val + k.val) 0 = (glyph digit).getD k.val 0 := by
  revert digit k
  decide

/-- The font is in its place. -/
def Memory.HoldsFont (memory : Memory) : Prop :=
  ∀ address : Address, 0x50 ≤ address.val → address.val ≤ 0x9F →
    memory.bytes.get address = Font.bytes.getD (address.val - 0x50) 0

/-! ## Sprites and their corner -/

theorem Place.ofPosition_mod_add (x y i j : Nat) :
    ofPosition (x % 64 + i) (y % 32 + j) = ofPosition (x + i) (y + j) := by
  rw [ofPosition_eq_iff]
  omega

theorem Sprite.hits_mod_iff {x y j i : Nat} {rows : List UInt8} {p : Place} :
    (Sprite.mk (x % 64) (y % 32) rows).Hits j i p ↔ (Sprite.mk x y rows).Hits j i p := by
  unfold Hits
  rw [Place.ofPosition_mod_add]

/-- A draw changes the pixels that a bit of the sprite falls on and no others. -/
theorem Frame.isLit_draw_ne_iff {frame : Frame} {s : Sprite} (h : s.rows.length ≤ 32)
    {p : Place} :
    (frame.draw s.x s.y s.rows).1.isLit p ≠ frame.isLit p ↔ ∃ j i, s.Hits j i p := by
  have honce := Sprite.hitCount_le_one h p
  rw [← Sprite.mem_places_iff, Sprite.mem_places_iff_hitCount_pos, isLit_draw_eq]
  have hodd : s.hitCount p % 2 = 1 ↔ 1 ≤ s.hitCount p := by omega
  by_cases hhit : 1 ≤ s.hitCount p
  · simp [hodd, hhit]
  · simp [hodd, hhit]

namespace Machine

variable {m : Machine} {w : Word} {digit : Nibble} {history : List Operation}

/-! ## The font in memory -/

theorem holdsFont_of_restarts {start : Operation} (hstart : start.Restarts) (m : Machine) :
    (m.perform start).machine.memory.HoldsFont := by
  obtain ⟨n, hreset⟩ := exists_reset_of_restarts hstart m
  intro address hlow hhigh
  rw [hreset, n.restarted_reset.memory, Memory.startByte, if_pos (by omega)]

theorem Spares.holdsFont (h : m.Spares 0x50 0x9F history) (hm : m.memory.HoldsFont)
    (hrestart : ∀ operation ∈ history, ¬operation.Restarts) :
    (m.run history).memory.HoldsFont := by
  intro address hlow hhigh
  rw [h.get_memory_run hrestart hlow hhigh]
  exact hm address hlow hhigh

theorem val_index_of_address (hindex : m.registers.index = Font.address digit) :
    m.registers.index.val = 0x50 + 5 * digit.val := by
  rw [hindex, Font.val_address]
  rfl

theorem slice_index_of_holdsFont (h : m.memory.HoldsFont)
    (hindex : m.registers.index = Font.address digit) :
    m.memory.slice m.registers.index.val 5 = .ok (Font.glyph digit) := by
  have hdigit := digit.isLt
  have hbase := val_index_of_address hindex
  rw [slice_index_of_le (by omega)]
  congr 1
  apply List.ext_getElem
  · rw [List.length_ofFn, Font.length_glyph]
    rfl
  intro k hk hlength
  rw [List.length_ofFn] at hk
  have hplace : (m.registers.index.offset k).val = 0x50 + (5 * digit.val + k) := by
    rw [Address.val_offset_of_lt (by omega)]
    omega
  have hbyte := h (m.registers.index.offset k) (by omega) (by omega)
  rw [hplace, Nat.add_sub_cancel_left] at hbyte
  have hrow := Font.getD_bytes digit ⟨k, hk⟩
  rw [List.getD_eq_getElem _ _ hlength] at hrow
  rw [List.getElem_ofFn]
  exact hbyte.trans hrow

/-! ## Selecting and drawing a glyph -/

theorem cycle_of_selectGlyph (hw : m.Fetches w) (hop : w.op = 0xF) (hnn : w.nn = 0x29) :
    m.cycle.result = .ok .executed ∧
      m.cycle.machine.registers.index = Font.address (Nibble.ofByte (m.registers.get w.x)) := by
  have hi : w.Encodes (.selectGlyph w.x) := ⟨hop, hnn, rfl⟩
  obtain ⟨hmachine, hresult⟩ := cycle_of_step hw hi (.selectGlyph w.x)
  refine ⟨hresult, ?_⟩
  rw [hmachine]
  rfl

/-- The glyph of a digit with its upper left corner where the registers of a word say. -/
def glyphSprite (m : Machine) (w : Word) (digit : Nibble) : Sprite where
  x := (m.registers.get w.x).toNat % 64
  y := (m.registers.get w.y).toNat % 32
  rows := Font.glyph digit

theorem cycle_of_draw_glyph (h : m.memory.HoldsFont)
    (hindex : m.registers.index = Font.address digit) (hw : m.Fetches w) (hop : w.op = 0xD)
    (hn : w.n = 5) :
    m.cycle.result = .ok .executed ∧
      ∀ p, m.cycle.machine.frame.isLit p ≠ m.frame.isLit p ↔
        ∃ j i, (m.glyphSprite w digit).Hits j i p := by
  have hdigit := digit.isLt
  have hheight : w.n.val = 5 := congrArg Fin.val hn
  have hfits : m.registers.index.val + w.n.val ≤ 4096 := by
    rw [val_index_of_address hindex]
    omega
  have hrows : (m.spriteAt w).rows = Font.glyph digit := by
    have hslice := slice_index_of_holdsFont h hindex
    rw [← hheight, slice_index_of_le hfits] at hslice
    exact Except.ok.inj hslice
  have hlow : (m.spriteAt w).rows.length ≤ 32 := by
    rw [length_rows_spriteAt, hheight]
    decide
  obtain ⟨hmachine, hresult⟩ := cycle_of_draw hw hop hfits
  refine ⟨hresult, fun p ↦ ?_⟩
  rw [hmachine]
  apply (Frame.isLit_draw_ne_iff hlow).trans
  refine exists_congr (fun j ↦ exists_congr (fun i ↦ ?_))
  rw [glyphSprite, Sprite.hits_mod_iff, ← hrows]
  rfl

/-- While nothing was written over the font, a selected glyph is in memory at the index register,
and a draw of five rows from there shows it and does not fail. -/
theorem selected_glyph_is_drawn (m : Machine) {start : Operation} (hstart : start.Restarts)
    {before : List Operation} (hbefore : ∀ operation ∈ before, ¬operation.Restarts) :
    let first := (m.perform start).machine
    let n := first.run before
    n.Fetches w → w.op = 0xF → w.nn = 0x29 →
      let digit : Nibble := Fin.ofNat 16 (n.registers.get w.x).toNat
      let index := n.cycle.machine.registers.index
      n.cycle.result = .ok .executed ∧
        ∀ later : List Operation, (∀ operation ∈ later, ¬operation.Restarts) →
          first.Spares 0x50 0x9F (before ++ .cycle :: later) →
            let k := n.cycle.machine.run later
            k.registers.index = index →
              k.memory.slice index.val 5 = .ok (Font.glyph digit) ∧
                ∀ v, k.Fetches v → v.op = 0xD → v.n = 5 →
                  k.cycle.result = .ok .executed ∧
                    ∀ p, k.cycle.machine.frame.isLit p ≠ k.frame.isLit p ↔
                      ∃ j i, (k.glyphSprite v digit).Hits j i p := by
  intro first n hw hop hnn digit index
  obtain ⟨hresult, hselected⟩ := cycle_of_selectGlyph hw hop hnn
  refine ⟨hresult, ?_⟩
  intro later hlater hspares k hindex
  have hrestart : ∀ operation ∈ before ++ .cycle :: later, ¬operation.Restarts :=
    List.forall_mem_append.mpr ⟨hbefore, List.forall_mem_cons.mpr ⟨id, hlater⟩⟩
  have hrun : first.run (before ++ .cycle :: later) = k := by
    rw [run_append]
    rfl
  have hfont := hspares.holdsFont (holdsFont_of_restarts hstart m) hrestart
  rw [hrun] at hfont
  have haddress : k.registers.index = Font.address digit := hindex.trans hselected
  constructor
  · rw [← hindex]
    exact slice_index_of_holdsFont hfont haddress
  · intro v hv hvop hvn
    exact cycle_of_draw_glyph hfont haddress hv hvop hvn

/-- The glyph of B across a corner, selected by a byte with another high digit. -/
theorem selected_glyph_is_drawn_corner :
    let first := ((ofSeed 0).perform
      (.load [0x60, 0x1B, 0x61, 0x7F, 0xF0, 0x29, 0xD1, 0x15])).machine
    let n := first.run [.cycle, .cycle]
    let k := n.cycle.machine
    n.Fetches 0xF029 ∧ (n.registers.get 0).toNat = 0x1B ∧ k.Fetches 0xD115 ∧
      k.memory.slice k.registers.index.val 5 = .ok (Font.glyph 0xB) ∧
      k.cycle.result = .ok .executed ∧
      k.cycle.machine.frame.isLit (Place.ofPosition 2 0) ≠
        k.frame.isLit (Place.ofPosition 2 0) := by
  intro first n k
  obtain ⟨hfirst, hnext, hn, hk⟩ :
      (first.execution = .running ∧ first.fetch = .ok 0x601B) ∧
      ((first.run [.cycle]).execution = .running ∧ (first.run [.cycle]).fetch = .ok 0x617F) ∧
      (n.execution = .running ∧ n.fetch = .ok 0xF029 ∧ (n.registers.get 0).toNat = 0x1B) ∧
      k.execution = .running ∧ k.fetch = .ok 0xD115 ∧ (k.registers.get 1).toNat = 0x7F := by
    decide +kernel
  have hwn : n.Fetches 0xF029 := ⟨hn.1, hn.2.1⟩
  have hwk : k.Fetches 0xD115 := ⟨hk.1, hk.2.1⟩
  have hstart : (Operation.load [0x60, 0x1B, 0x61, 0x7F, 0xF0, 0x29, 0xD1, 0x15]).Restarts := by
    change 8 ≤ programCapacity
    decide
  have hcycles : ∀ operation ∈ [Operation.cycle, .cycle], ¬operation.Restarts := by
    simp [Operation.Restarts]
  have hspares : first.Spares 0x50 0x9F ((([] ++ [.cycle]) ++ [.cycle]) ++ [.cycle]) := by
    refine spares_append_singleton.mpr ⟨spares_append_singleton.mpr
      ⟨spares_append_singleton.mpr ⟨spares_nil, ?_⟩, ?_⟩, ?_⟩
    · intro _ address _ _
      exact Fetches.not_writes ⟨hfirst.1, hfirst.2⟩ (by decide) address
    · intro _ address _ _
      exact Fetches.not_writes ⟨hnext.1, hnext.2⟩ (by decide) address
    · intro _ address _ _
      exact hwn.not_writes (by decide) address
  obtain ⟨-, hlater⟩ := selected_glyph_is_drawn (ofSeed 0) hstart hcycles hwn rfl rfl
  have hdrawn := hlater [] (by simp) hspares
  rw [run_nil] at hdrawn
  obtain ⟨hslice, hdraw⟩ := hdrawn rfl
  obtain ⟨hresult, hchanges⟩ := hdraw 0xD115 hwk rfl rfl
  have hdigit : (Fin.ofNat 16 (n.registers.get (0xF029 : Word).x).toNat : Nibble) = 0xB := by
    change Fin.ofNat 16 (n.registers.get 0).toNat = 0xB
    rw [hn.2.2]
    rfl
  have hcolumn : (k.glyphSprite 0xD115 0xB).x = 63 := congrArg (· % 64) hk.2.2
  have hrow : (k.glyphSprite 0xD115 0xB).y = 31 := congrArg (· % 32) hk.2.2
  dsimp only [k, n, first] at hdigit hslice hchanges ⊢
  rw [hdigit] at hslice hchanges
  refine ⟨hwn, hn.2.2, hwk, hslice, hresult, (hchanges _).mpr ⟨1, 3, by decide, ?_, ?_⟩⟩
  · exact ⟨0x90, rfl, by decide⟩
  · rw [hcolumn, hrow]
    rfl

end Machine
end Chip8
