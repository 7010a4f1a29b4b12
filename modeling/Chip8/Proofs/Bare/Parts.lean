import Chip8.CallStack
import Chip8.Frame
import Chip8.Keypad
import Chip8.Memory
import Chip8.Registers
import Chip8.Proofs.Bare.Guarded
import Mathlib.Data.Nat.Bitwise

/-!
# Bare parts

The types of the parts of a machine bound their addresses, digits and lengths.  The bare
parts hold plain bytes and words instead, so they guard every array that they access and
every sum that they form.  Beside each operation of a bare part stands that the operation of
the part itself is what it does, so that none of its guards refuses.
-/

namespace Chip8

/-! ## Operands -/

namespace Word

def xField (w : Word) : UInt8 := ((w &&& 0x0F00) >>> 8).toUInt8

def yField (w : Word) : UInt8 := ((w &&& 0x00F0) >>> 4).toUInt8

def nField (w : Word) : UInt8 := (w &&& 0x000F).toUInt8

def nnField (w : Word) : UInt8 := (w &&& 0x00FF).toUInt8

def nnnField (w : Word) : Guarded UInt16 := Guarded.address (w &&& 0x0FFF)

theorem toNat_xField (w : Word) : w.xField.toNat = w.x.val := by
  have hmask : (w.toNat &&& 0x0F00) >>> 8 = w.toNat / 256 % 16 := by
    rw [Nat.shiftRight_and_distrib, Nat.shiftRight_eq_div_pow]
    exact Nat.and_two_pow_sub_one_eq_mod (w.toNat / 256) 4
  change (w.toNat &&& 0x0F00) >>> 8 % 256 = w.toNat / 256 % 16
  omega

theorem toNat_yField (w : Word) : w.yField.toNat = w.y.val := by
  have hmask : (w.toNat &&& 0x00F0) >>> 4 = w.toNat / 16 % 16 := by
    rw [Nat.shiftRight_and_distrib, Nat.shiftRight_eq_div_pow]
    exact Nat.and_two_pow_sub_one_eq_mod (w.toNat / 16) 4
  change (w.toNat &&& 0x00F0) >>> 4 % 256 = w.toNat / 16 % 16
  omega

theorem toNat_nField (w : Word) : w.nField.toNat = w.n.val := by
  have hmask : w.toNat &&& 0x000F = w.toNat % 16 := Nat.and_two_pow_sub_one_eq_mod w.toNat 4
  change (w.toNat &&& 0x000F) % 256 = w.toNat % 16
  omega

@[simp] theorem ofByte_xField (w : Word) : Nibble.ofByte w.xField = w.x := by
  apply Fin.ext
  rw [Nibble.val_ofByte, toNat_xField, Nat.mod_eq_of_lt w.x.isLt]

@[simp] theorem ofByte_yField (w : Word) : Nibble.ofByte w.yField = w.y := by
  apply Fin.ext
  rw [Nibble.val_ofByte, toNat_yField, Nat.mod_eq_of_lt w.y.isLt]

@[simp] theorem nnField_eq (w : Word) : w.nnField = w.nn := by
  have hmask : w.toNat &&& 0x00FF = w.toNat % 256 := Nat.and_two_pow_sub_one_eq_mod w.toNat 8
  rw [← UInt8.toNat_inj]
  change (w.toNat &&& 0x00FF) % 256 = w.toNat % 256
  omega

@[simp] theorem nnnField_eq (w : Word) : w.nnnField = .ok w.nnn.toWord := Guarded.address_and w

end Word

/-! ## Registers -/

structure BareRegisters where
  values : Vector UInt8 16
  index : UInt16
  programCounter : UInt16
deriving DecidableEq

namespace BareRegisters

def start : Guarded BareRegisters := do
  let index ← Guarded.address 0
  let programCounter ← Guarded.address 0x200
  .ok { values := Vector.replicate 16 0, index, programCounter }

/-- Only the low digit of a byte selects a register. -/
def get (regs : BareRegisters) (register : UInt8) : Guarded UInt8 :=
  Guarded.get regs.values (register &&& 0xF).toNat

def set (regs : BareRegisters) (register value : UInt8) : Guarded BareRegisters := do
  let values ← Guarded.set regs.values (register &&& 0xF).toNat value
  .ok { regs with values }

def setFlag (regs : BareRegisters) (flag : Bool) : Guarded BareRegisters := do
  let values ← Guarded.set regs.values 0xF (if flag then 1 else 0)
  .ok { regs with values }

def upTo (regs : BareRegisters) (last : UInt8) : Guarded (List UInt8) := do
  let stop ← Guarded.addSize (last &&& 0xF).toNat 1
  Guarded.slice regs.values 0 stop

def fill (regs : BareRegisters) (last : UInt8) (source : List UInt8) :
    Guarded BareRegisters := do
  let stop ← Guarded.addSize (last &&& 0xF).toNat 1
  let values ← Guarded.copy regs.values 0 stop source
  .ok { regs with values }

/-- The address some way further on, where the sum of the words wraps around. -/
def wrappingOffset (base distance : UInt16) : Guarded UInt16 :=
  Guarded.address ((base + distance) &&& 0x0FFF)

def advance (regs : BareRegisters) (distance : UInt16) : Guarded BareRegisters := do
  let programCounter ← wrappingOffset regs.programCounter distance
  .ok { regs with programCounter }

def of (regs : Registers) : BareRegisters :=
  { values := regs.values
    index := regs.index.toWord
    programCounter := regs.programCounter.toWord }

variable (regs : Registers)

theorem start_eq : start = .ok (of {}) := rfl

@[simp] theorem get_of (register : UInt8) :
    (of regs).get register = .ok (regs.get (Nibble.ofByte register)) := by
  rw [get, Guarded.toNat_and_digit, Guarded.get_of_lt _ (Nibble.ofByte register).isLt]
  rfl

@[simp] theorem set_of (register value : UInt8) :
    (of regs).set register value = .ok (of (regs.set (Nibble.ofByte register) value)) := by
  rw [set, Guarded.toNat_and_digit, Guarded.set_of_lt _ _ (Nibble.ofByte register).isLt]
  rfl

@[simp] theorem setFlag_of (flag : Bool) : (of regs).setFlag flag = .ok (of (regs.setFlag flag)) :=
  rfl

@[simp] theorem upTo_of (last : UInt8) :
    (of regs).upTo last = .ok (regs.upTo (Nibble.ofByte last)) := by
  have hlast := (Nibble.ofByte last).isLt
  have hfits : 0 + ((Nibble.ofByte last).val + 1) ≤ 16 := by omega
  have hslice := Guarded.slice_of_le regs.values 0 _ hfits
  rw [Nat.zero_add] at hslice
  rw [upTo, Guarded.toNat_and_digit, Guarded.addSize_of_lt (by omega)]
  exact hslice

theorem fill_of {last : UInt8} {source : List UInt8}
    (h : source.length = (Nibble.ofByte last).val + 1) :
    (of regs).fill last source = .ok (of (regs.fill source)) := by
  have hlast := (Nibble.ofByte last).isLt
  have hcopy := Guarded.copy_of_le regs.values 0 source (by omega)
  rw [Nat.zero_add, h] at hcopy
  rw [fill, Guarded.toNat_and_digit, Guarded.addSize_of_lt (by omega), Guarded.ok_bind]
  change Guarded.copy regs.values 0 _ source >>= _ = _
  rw [hcopy]
  rfl

@[simp] theorem wrappingOffset_toWord (a : Address) (distance : UInt16) :
    wrappingOffset a.toWord distance = .ok (a.offset distance.toNat).toWord := by
  rw [wrappingOffset]
  apply Guarded.address_eq_toWord
  rw [Guarded.toNat_and_address, UInt16.toNat_add, Address.toNat_toWord, Address.val_offset]
  omega

@[simp] theorem advance_of (distance : UInt16) :
    (of regs).advance distance = .ok (of (regs.advance distance.toNat)) := by
  have hoffset := wrappingOffset_toWord regs.programCounter distance
  rw [advance]
  change wrappingOffset regs.programCounter.toWord distance >>= _ = _
  rw [hoffset]
  rfl

end BareRegisters

/-! ## Memory -/

namespace BareMemory

def start : Guarded Memory := do
  let stop ← Guarded.addSize Font.base Font.bytes.length
  let bytes ← Guarded.copy (Vector.replicate 4096 0) Font.base stop Font.bytes
  .ok ⟨bytes⟩

def load (m : Memory) (program : List UInt8) : Guarded (Except Fault Memory) :=
  if programCapacity < program.length then
    .ok (.error (.programTooLarge program.length programCapacity))
  else do
    let stop ← Guarded.addSize programStart program.length
    let bytes ← Guarded.copy m.bytes programStart stop program
    .ok (.ok ⟨bytes⟩)

def word (m : Memory) (address : UInt16) : Guarded (Except Fault Word) := do
  let next ← Guarded.addSize address.toNat 1
  if 4096 ≤ next then .ok (.error (.fetchBounds address.toNat))
  else
    let high ← Guarded.get m.bytes address.toNat
    let low ← Guarded.get m.bytes next
    .ok (.ok (Word.ofBytes high low))

def checkRange (address count : Nat) : Guarded (Except Fault Unit) := do
  let stop ← Guarded.addSize address count
  if 4096 < stop then .ok (.error (Memory.boundsFault address)) else .ok (.ok ())

def slice (m : Memory) (address count : Nat) : Guarded (Except Fault (List UInt8)) := do
  match ← checkRange address count with
  | .error fault => .ok (.error fault)
  | .ok _ =>
      let stop ← Guarded.addSize address count
      let data ← Guarded.slice m.bytes address stop
      .ok (.ok data)

/-- Copies data into a range of memory, which is checked and cut out before. -/
def store (m : Memory) (address count : Nat) (data : List UInt8) :
    Guarded (Except Fault Memory) := do
  match ← checkRange address count with
  | .error fault => .ok (.error fault)
  | .ok _ =>
      let stop ← Guarded.addSize address count
      let bytes ← Guarded.copy m.bytes address stop data
      .ok (.ok ⟨bytes⟩)

variable (m : Memory)

theorem start_eq : start = .ok Memory.powerOn := by
  have hbase : Font.base = 0x50 := rfl
  have hlen := Font.length_bytes
  rw [start, Guarded.addSize_of_lt (by omega), Guarded.ok_bind,
    Guarded.copy_of_le _ _ _ (by omega)]
  rfl

theorem load_eq (program : Program) : load m program.bytes = .ok (.ok (m.load program)) := by
  have hstart : programStart = 0x200 := rfl
  have hcapacity : programCapacity = 3584 := rfl
  have hfits := program.length_le
  rw [load, if_neg (by omega), Guarded.addSize_of_lt (by omega), Guarded.ok_bind,
    Guarded.copy_of_le _ _ _ (by omega)]
  rfl

@[simp] theorem word_eq (a : Address) : word m a.toWord = .ok (m.word a.val) := by
  have ha := a.isLt
  rw [word, Address.toNat_toWord, Guarded.addSize_of_lt (by omega), Guarded.ok_bind, Memory.word]
  by_cases h : a.val + 1 < 4096
  · rw [if_neg (by omega), dif_pos h, Guarded.get_of_lt _ ha, Guarded.get_of_lt _ h]
    rfl
  · rw [if_pos (by omega), dif_neg h]

variable {address count : Nat}

theorem checkRange_eq (h : address < 4096) (hcount : count < 4096) :
    checkRange address count =
      .ok (if 4096 < address + count then .error (Memory.boundsFault address) else .ok ()) := by
  rw [checkRange, Guarded.addSize_of_lt (by omega), Guarded.ok_bind]
  split
  · rfl
  · rfl

theorem slice_eq (h : address < 4096) (hcount : count < 4096) :
    slice m address count = .ok (m.slice address count) := by
  rw [slice, checkRange_eq h hcount, Guarded.ok_bind, Memory.slice]
  by_cases hfits : address + count ≤ 4096
  · rw [if_neg (by omega), dif_pos hfits]
    simp only [Guarded.addSize_of_lt (show address + count < 65536 by omega), Guarded.ok_bind,
      Guarded.slice_of_le m.bytes address count hfits]
  · rw [if_pos (by omega), dif_neg hfits]

theorem store_eq {data : List UInt8} (h : address < 4096) (hcount : data.length < 4096) :
    store m address data.length data = .ok (m.store address data) := by
  rw [store, checkRange_eq h hcount, Guarded.ok_bind, Memory.store]
  by_cases hfits : address + data.length ≤ 4096
  · rw [if_neg (by omega), if_pos hfits]
    simp only [Guarded.addSize_of_lt (show address + data.length < 65536 by omega),
      Guarded.ok_bind, Guarded.copy_of_le m.bytes address data hfits]
  · rw [if_pos (by omega), if_neg hfits]

end BareMemory

/-! ## The call stack -/

/-- The pointer is any number here. -/
structure BareStack where
  slots : Vector UInt16 callDepth
  pointer : Nat
deriving DecidableEq

namespace BareStack

def start : Guarded BareStack := do
  let zero ← Guarded.address 0
  .ok { slots := Vector.replicate callDepth zero, pointer := 0 }

def push (stack : BareStack) (target caller : UInt16) : Guarded (Except Fault BareStack) :=
  if stack.pointer = callDepth then .ok (.error (.stackOverflow caller.toNat callDepth))
  else do
    let slots ← Guarded.set stack.slots stack.pointer target
    let pointer ← Guarded.addSize stack.pointer 1
    .ok (.ok { slots, pointer })

def pop (stack : BareStack) (caller : UInt16) : Guarded (Except Fault (UInt16 × BareStack)) :=
  if stack.pointer = 0 then .ok (.error (.stackUnderflow caller.toNat))
  else do
    let pointer ← Guarded.subSize stack.pointer 1
    let target ← Guarded.get stack.slots pointer
    .ok (.ok (target, { stack with pointer }))

def of (stack : CallStack) : BareStack :=
  { slots := stack.slots.map Address.toWord, pointer := stack.pointer }

@[simp] theorem slots_of (stack : CallStack) :
    (of stack).slots = stack.slots.map Address.toWord := rfl

@[simp] theorem pointer_of (stack : CallStack) : (of stack).pointer = stack.pointer := rfl

theorem start_eq : start = .ok (of CallStack.empty) := by
  have hslots : (Vector.replicate callDepth (0 : Address)).map Address.toWord =
      Vector.replicate callDepth (Address.toWord 0) := Vector.map_replicate
  rw [of, CallStack.empty, hslots]
  rfl

theorem push_of (stack : CallStack) (target caller : Address) :
    (of stack).push target.toWord caller.toWord = .ok ((stack.push target caller).map of) := by
  have hle := stack.pointer_le
  have hdepth : callDepth = 16 := rfl
  rw [push, CallStack.push, slots_of, pointer_of, Address.toNat_toWord]
  by_cases h : stack.pointer < callDepth
  · rw [if_neg (Nat.ne_of_lt h), dif_pos h, Guarded.set_of_lt _ _ h, Guarded.ok_bind,
      Guarded.addSize_of_lt (by omega), Guarded.ok_bind, ← Vector.map_set]
    rfl
  · rw [if_pos (by omega), dif_neg h]
    rfl

theorem pop_of (stack : CallStack) (caller : Address) :
    (of stack).pop caller.toWord =
      .ok ((stack.pop caller).map (fun popped ↦ (popped.1.toWord, of popped.2))) := by
  rw [pop, slots_of, pointer_of, Address.toNat_toWord]
  obtain ⟨slots, _ | free, hle⟩ := stack
  · rfl
  · have hlt : free < callDepth := hle
    have hlower : Guarded.subSize (free + 1) 1 = .ok free := Guarded.subSize_of_le (by omega)
    rw [if_neg (Nat.succ_ne_zero free), hlower, Guarded.ok_bind, Guarded.get_of_lt _ hlt,
      Guarded.ok_bind]
    simp [of, CallStack.pop, Except.map, Vector.get]

end BareStack

/-! ## The keypad -/

namespace BareKeypad

def isDown (keypad : Keypad) (key : UInt8) : Guarded Bool :=
  Guarded.get keypad.down (key &&& 0xF).toNat

def set (keypad : Keypad) (key : UInt8) (isDown : Bool) : Guarded Keypad := do
  let down ← Guarded.set keypad.down (key &&& 0xF).toNat isDown
  if isDown then
    let pressed ← Guarded.set keypad.pressed (key &&& 0xF).toNat true
    .ok { down, pressed }
  else .ok { keypad with down }

variable (keypad : Keypad) (key : UInt8)

@[simp] theorem isDown_eq : isDown keypad key = .ok (keypad.isDown (Nibble.ofByte key)) := by
  rw [isDown, Guarded.toNat_and_digit, Guarded.get_of_lt _ (Nibble.ofByte key).isLt]
  rfl

@[simp] theorem set_eq (down : Bool) :
    set keypad key down = .ok (keypad.set (Nibble.ofByte key) down) := by
  rw [set, Guarded.toNat_and_digit, Guarded.set_of_lt _ _ (Nibble.ofByte key).isLt,
    Guarded.set_of_lt _ _ (Nibble.ofByte key).isLt]
  cases down with
  | false => rfl
  | true => rfl

end BareKeypad

/-! ## Frames -/

namespace BareFrame

def translate (x y : Nat) : Guarded Nat := do
  let start ← Guarded.mulSize (y % 32) 64
  Guarded.addSize (x % 64) start

def strike (state : Frame × Bool) (place : Nat) : Guarded (Frame × Bool) := do
  let lit ← Guarded.get state.1.pixels place
  let pixels ← Guarded.set state.1.pixels place (!lit)
  .ok (⟨pixels⟩, state.2 || lit)

/-- Draws the pixel in column `i` of the line `line` of a sprite at (`x`, `y`). -/
def drawPixel (x y line : Nat) (row : UInt8) (state : Frame × Bool) (i : Nat) :
    Guarded (Frame × Bool) := do
  let bit ← Guarded.shiftByte 0x80 i
  if row &&& bit = 0 then .ok state
  else
    let column ← Guarded.addSize x i
    let height ← Guarded.addSize y line
    let place ← translate column height
    strike state place

def drawRow (x y line : Nat) (row : UInt8) (state : Frame × Bool) : Guarded (Frame × Bool) :=
  (List.range 8).foldlM (drawPixel x y line row) state

def drawRows (x y line : Nat) : List UInt8 → Frame × Bool → Guarded (Frame × Bool)
  | [], state => .ok state
  | row :: rest, state => do
      let state ← drawRow x y line row state
      let next ← Guarded.addSize line 1
      drawRows x y next rest state

def draw (frame : Frame) (x y : UInt8) (rows : List UInt8) : Guarded (Frame × Bool) :=
  drawRows x.toNat y.toNat 0 rows (frame, false)

theorem translate_eq (x y : Nat) : translate x y = .ok (Place.ofPosition x y).val := by
  rw [translate, Guarded.mulSize_of_lt (by omega), Guarded.ok_bind,
    Guarded.addSize_of_lt (by omega), Nat.add_comm]
  rfl

theorem strike_eq (state : Frame × Bool) (p : Place) :
    strike state p.val = .ok (Frame.strike state p) := by
  rw [strike, Guarded.get_of_lt _ p.isLt, Guarded.ok_bind, Guarded.set_of_lt _ _ p.isLt]
  rfl

/-- The mask for a column of a row reads one bit of it. -/
theorem and_shift_eq_zero_iff (row : UInt8) {i : Nat} (h : i < 8) :
    row &&& 0x80 >>> UInt8.ofNat i = 0 ↔ row.toNat.testBit (7 - i) = false := by
  have hbit : (0x80 >>> UInt8.ofNat i : UInt8).toNat = 2 ^ (7 - i) := by
    revert i
    decide
  rw [← UInt8.toNat_inj, UInt8.toNat_and, hbit, Nat.and_two_pow]
  cases row.toNat.testBit (7 - i) with
  | false => simp
  | true => simp

theorem drawPixel_eq {x y line : Nat} (hx : x < 256) (hy : y < 256) (hline : line < 16)
    (row : UInt8) (state : Frame × Bool) {i : Nat} (hi : i < 8) :
    drawPixel x y line row state i =
      .ok (if row.toNat.testBit (7 - i) then
        Frame.strike state (Place.ofPosition (x + i) (y + line)) else state) := by
  rw [drawPixel, Guarded.shiftByte, if_pos hi, Guarded.ok_bind]
  cases hbit : row.toNat.testBit (7 - i) with
  | false => rw [if_pos ((and_shift_eq_zero_iff row hi).mpr hbit), if_neg Bool.false_ne_true]
  | true =>
      have hne : ¬row &&& 0x80 >>> UInt8.ofNat i = 0 := by
        rw [and_shift_eq_zero_iff row hi, hbit]
        decide
      rw [if_neg hne, if_pos rfl, Guarded.addSize_of_lt (by omega), Guarded.ok_bind,
        Guarded.addSize_of_lt (by omega), Guarded.ok_bind, translate_eq, Guarded.ok_bind,
        strike_eq]

theorem drawRow_eq {x y line : Nat} (hx : x < 256) (hy : y < 256) (hline : line < 16)
    (row : UInt8) (state : Frame × Bool) :
    drawRow x y line row state =
      .ok ((Frame.rowPlaces x (y + line) row).foldl Frame.strike state) := by
  have hcolumns := Guarded.foldlM_eq id (List.range 8)
    (fun s i hi ↦ drawPixel_eq hx hy hline row s (List.mem_range.mp hi)) state
  rw [drawRow, Frame.rowPlaces, List.foldl_filterMap]
  simp only [id_eq] at hcolumns
  rw [hcolumns]
  congr 2
  funext s i
  cases row.toNat.testBit (7 - i) with
  | false => rfl
  | true => rfl

theorem drawRows_eq {x y : Nat} (hx : x < 256) (hy : y < 256) (rows : List UInt8) (line : Nat)
    (hrows : line + rows.length < 17) (state : Frame × Bool) :
    drawRows x y line rows state =
      .ok ((Frame.spritePlaces x (y + line) rows).foldl Frame.strike state) := by
  induction rows generalizing line state with
  | nil => rfl
  | cons row rest ih =>
      rw [List.length_cons] at hrows
      rw [drawRows, drawRow_eq hx hy (by omega), Guarded.ok_bind,
        Guarded.addSize_of_lt (by omega), Guarded.ok_bind, ih (line + 1) (by omega),
        Frame.spritePlaces, List.foldl_append, Nat.add_assoc]

/-- A sprite has fifteen rows at most. -/
theorem draw_eq (frame : Frame) (x y : UInt8) {rows : List UInt8} (h : rows.length < 16) :
    draw frame x y rows = .ok (frame.draw x.toNat y.toNat rows) :=
  drawRows_eq x.toNat_lt y.toNat_lt rows 0 (by omega) (frame, false)

end BareFrame
end Chip8
