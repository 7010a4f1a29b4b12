import Chip8.Address
import Chip8.Block

/-!
# Guarded operations

Reading an entry of an array, copying a block and adding words of a fixed width are defined
for some arguments only.  A guarded operation refuses all others, so a computation that is
made of guarded operations and has a result stayed inside their domains.
-/

namespace Chip8

/-- What lay outside of the domain of an operation. -/
inductive Violation where
  /-- A number that takes more than twelve bits was used as an address. -/
  | wideAddress (value : Nat)
  | outside (place size : Nat)
  /-- A copy from a block of one length into a block of another. -/
  | unequalLengths (source target : Nat)
  | overflow
  /-- A display was made of a picture with a wrong number of pixels. -/
  | wrongPixelCount (count : Nat)
deriving DecidableEq

abbrev Guarded := Except Violation

namespace Guarded

variable {α β : Type} {n : Nat}

@[simp] theorem ok_bind (a : α) (next : α → Guarded β) :
    ((Except.ok a : Guarded α) >>= next) = next a := rfl

/-- A fold whose steps have results folds the results. -/
theorem foldlM_eq {State Plain : Type} (plain : State → Plain) {step : Plain → α → Guarded Plain}
    {next : State → α → State} (entries : List α)
    (h : ∀ s, ∀ a ∈ entries, step (plain s) a = .ok (plain (next s a))) (s : State) :
    entries.foldlM step (plain s) = .ok (plain (entries.foldl next s)) := by
  induction entries generalizing s with
  | nil => rfl
  | cons a rest ih =>
      have hrest : ∀ s, ∀ b ∈ rest, step (plain s) b = .ok (plain (next s b)) :=
        fun s b hb ↦ h s b (List.mem_cons_of_mem a hb)
      rw [List.foldlM_cons, h s a List.mem_cons_self, ok_bind, ih hrest, List.foldl_cons]

/-! ## Arrays -/

def get (v : Vector α n) (i : Nat) : Guarded α :=
  if h : i < n then .ok (v.get ⟨i, h⟩) else .error (.outside i n)

def set (v : Vector α n) (i : Nat) (a : α) : Guarded (Vector α n) :=
  if h : i < n then .ok (v.set i a h) else .error (.outside i n)

/-- The entries from `start` up to but not including `stop`. -/
def slice (v : Vector α n) (start stop : Nat) : Guarded (List α) :=
  if h : start ≤ stop ∧ stop ≤ n then
    .ok (Block.read v start (stop - start) (by omega))
  else .error (.outside stop n)

/-- Replaces the entries from `start` up to but not including `stop` by as many others. -/
def copy (v : Vector α n) (start stop : Nat) (source : List α) : Guarded (Vector α n) :=
  if start ≤ stop ∧ stop ≤ n then
    if source.length = stop - start then .ok (Block.write v start source)
    else .error (.unequalLengths source.length (stop - start))
  else .error (.outside stop n)

theorem get_of_lt (v : Vector α n) {i : Nat} (h : i < n) : get v i = .ok (v.get ⟨i, h⟩) :=
  dif_pos h

theorem set_of_lt (v : Vector α n) {i : Nat} (a : α) (h : i < n) :
    set v i a = .ok (v.set i a h) :=
  dif_pos h

theorem slice_of_le (v : Vector α n) (start count : Nat) (h : start + count ≤ n) :
    slice v start (start + count) = .ok (Block.read v start count h) := by
  rw [slice, dif_pos ⟨by omega, h⟩]
  congr 2
  omega

theorem copy_of_le (v : Vector α n) (start : Nat) (source : List α)
    (h : start + source.length ≤ n) :
    copy v start (start + source.length) source = .ok (Block.write v start source) := by
  rw [copy, if_pos ⟨by omega, h⟩, if_pos (by omega)]

/-! ## Sums, products and shifts -/

/-- A bound on sizes that holds however wide the sizes of a host are. -/
def sizeLimit : Nat := 65536

def addSize (a b : Nat) : Guarded Nat :=
  if a + b < sizeLimit then .ok (a + b) else .error .overflow

def subSize (a b : Nat) : Guarded Nat := if b ≤ a then .ok (a - b) else .error .overflow

def mulSize (a b : Nat) : Guarded Nat :=
  if a * b < sizeLimit then .ok (a * b) else .error .overflow

def addWord (a b : UInt16) : Guarded UInt16 :=
  if a.toNat + b.toNat < 65536 then .ok (a + b) else .error .overflow

def mulWord (a b : UInt16) : Guarded UInt16 :=
  if a.toNat * b.toNat < 65536 then .ok (a * b) else .error .overflow

/-- A byte has eight bits to be shifted by. -/
def shiftByte (byte : UInt8) (count : Nat) : Guarded UInt8 :=
  if count < 8 then .ok (byte >>> UInt8.ofNat count) else .error .overflow

theorem addSize_of_lt {a b : Nat} (h : a + b < 65536) : addSize a b = .ok (a + b) := if_pos h

theorem subSize_of_le {a b : Nat} (h : b ≤ a) : subSize a b = .ok (a - b) := if_pos h

theorem mulSize_of_lt {a b : Nat} (h : a * b < 65536) : mulSize a b = .ok (a * b) := if_pos h

theorem addWord_of_lt {a b : UInt16} (h : a.toNat + b.toNat < 65536) :
    addWord a b = .ok (a + b) := if_pos h

theorem mulWord_of_lt {a b : UInt16} (h : a.toNat * b.toNat < 65536) :
    mulWord a b = .ok (a * b) := if_pos h

/-! ## Addresses -/

/-- Takes a word for an address, which has twelve bits. -/
def address (value : UInt16) : Guarded UInt16 :=
  if value ≤ 0x0FFF then .ok value else .error (.wideAddress value.toNat)

end Guarded

namespace Address

def toWord (a : Address) : UInt16 := UInt16.ofNat a.val

@[simp] theorem toNat_toWord (a : Address) : a.toWord.toNat = a.val := by
  have h := a.isLt
  simp only [toWord, UInt16.toNat_ofNat']
  omega

theorem toWord_le (a : Address) : a.toWord ≤ 0x0FFF := by
  have h := a.isLt
  rw [UInt16.le_iff_toNat_le, toNat_toWord]
  change a.val ≤ 4095
  omega

def ofWord (value : UInt16) : Address := Fin.ofNat 4096 value.toNat

theorem toWord_ofWord {value : UInt16} (h : value ≤ 0x0FFF) : (ofWord value).toWord = value := by
  have hlt : value.toNat < 4096 := Nat.lt_succ_of_le (UInt16.le_iff_toNat_le.mp h)
  rw [← UInt16.toNat_inj, toNat_toWord]
  exact Nat.mod_eq_of_lt hlt

end Address

namespace Guarded

theorem address_eq_toWord {value : UInt16} {a : Address} (h : value.toNat = a.val) :
    address value = .ok a.toWord := by
  have hvalue : value = a.toWord := by
    rw [← UInt16.toNat_inj, Address.toNat_toWord, h]
  rw [hvalue, address, if_pos a.toWord_le]

theorem toNat_and_address (value : UInt16) : (value &&& 0x0FFF).toNat = value.toNat % 4096 := by
  rw [UInt16.toNat_and]
  exact Nat.and_two_pow_sub_one_eq_mod value.toNat 12

theorem toNat_and_digit (byte : UInt8) : (byte &&& 0xF).toNat = (Nibble.ofByte byte).val := by
  rw [UInt8.toNat_and, Nibble.val_ofByte]
  exact Nat.and_two_pow_sub_one_eq_mod byte.toNat 4

theorem address_and (value : UInt16) :
    address (value &&& 0x0FFF) = .ok (Address.ofWord value).toWord :=
  address_eq_toWord (toNat_and_address value)

end Guarded
end Chip8
