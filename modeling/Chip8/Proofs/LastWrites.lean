import Chip8.Proofs.Restarts

/-!
# Last writes to memory

Every way into memory checks its range, and all of them agree where memory ends.  An access that
is refused writes nothing.  So each byte has the value of the last access that succeeded and
covers it, however the accesses overlap, and the value that it began with if there is none.
-/

namespace Chip8
namespace Memory

/-! ## Ranges -/

/-- The first byte of a range that lies outside of memory. -/
structure FirstOutside (start count outside : Nat) : Prop where
  start_le : start ≤ outside
  lt_stop : outside < start + count
  not_lt : 4096 ≤ outside
  before : ∀ address, start ≤ address → address < outside → address < 4096

/-- The access to a range succeeds if the whole range lies in memory.  Otherwise its fault names
the first byte outside, if the range has any bytes. -/
structure ChecksRange {α : Type} (result : Except Fault α) (start count : Nat) : Prop where
  ok_iff : (∃ value, result = .ok value) ↔ start + count ≤ 4096
  outside : ∀ fault, result = .error fault → 0 < count →
    ∃ outside, fault = .memoryBounds outside ∧ FirstOutside start count outside

theorem firstOutside_max {start count : Nat} (hcount : 0 < count) (h : 4096 < start + count) :
    FirstOutside start count (max start 4096) where
  start_le := Nat.le_max_left start 4096
  lt_stop := by omega
  not_lt := Nat.le_max_right start 4096
  before := by
    intro address hstart hlt
    omega

theorem checksRange_of_error_iff {α : Type} {result : Except Fault α} {start count : Nat}
    (h : ∀ fault, result = .error fault ↔ 4096 < start + count ∧ fault = boundsFault start) :
    ChecksRange result start count where
  ok_iff := by
    cases result with
    | ok value =>
        have hfits : ¬4096 < start + count := by
          intro hlt
          have herror := (h (boundsFault start)).mpr ⟨hlt, rfl⟩
          cases herror
        exact iff_of_true ⟨value, rfl⟩ (Nat.le_of_not_lt hfits)
    | error fault =>
        have hlt := ((h fault).mp rfl).1
        refine iff_of_false ?_ (Nat.not_le_of_lt hlt)
        rintro ⟨value, hvalue⟩
        cases hvalue
  outside := by
    intro fault hresult hcount
    obtain ⟨hlt, hfault⟩ := (h fault).mp hresult
    exact ⟨max start 4096, hfault, firstOutside_max hcount hlt⟩

variable (m : Memory)

theorem checksRange_slice (start count : Nat) : ChecksRange (m.slice start count) start count :=
  checksRange_of_error_iff (m.slice_eq_error_iff start count)

theorem checksRange_store (start : Nat) (data : List UInt8) :
    ChecksRange (m.store start data) start data.length :=
  checksRange_of_error_iff (m.store_eq_error_iff start data)

theorem getElem?_of_slice {m : Memory} {start count i : Nat} {data : List UInt8}
    (h : m.slice start count = .ok data) (hi : i < count) : data[i]? = m.bytes[start + i]? := by
  unfold slice at h
  split at h
  · cases h
    exact Block.getElem?_read m.bytes start count _ i hi
  · cases h

/-- A word is read where two bytes can be cut out, and it is made of them. -/
theorem word_eq_ok_iff (address : Nat) (w : Word) :
    m.word address = .ok w ↔
      ∃ high low, m.slice address 2 = .ok [high, low] ∧ w = Word.ofBytes high low := by
  by_cases hfits : address + 2 ≤ 4096
  · have hword : m.word address = .ok (Word.ofBytes m.bytes[address] m.bytes[address + 1]) :=
      dif_pos (by omega)
    have hslice : m.slice address 2 = .ok [m.bytes[address], m.bytes[address + 1]] :=
      dif_pos hfits
    rw [hword, hslice]
    constructor
    · intro h
      cases h
      exact ⟨_, _, rfl, rfl⟩
    · rintro ⟨high, low, hbytes, rfl⟩
      cases hbytes
      rfl
  · have hword : m.word address = .error (.fetchBounds address) := dif_neg (by omega)
    have hslice : m.slice address 2 = .error (boundsFault address) := dif_neg hfits
    rw [hword, hslice]
    constructor
    · intro h
      cases h
    · rintro ⟨high, low, hbytes, -⟩
      cases hbytes

theorem exists_word_iff (address : Nat) :
    (∃ w, m.word address = .ok w) ↔ ∃ data, m.slice address 2 = .ok data := by
  constructor
  · rintro ⟨w, hw⟩
    obtain ⟨high, low, hslice, -⟩ := (m.word_eq_ok_iff address w).mp hw
    exact ⟨[high, low], hslice⟩
  · rintro ⟨data, hdata⟩
    obtain ⟨high, low, rfl⟩ := List.length_eq_two.mp (length_of_slice hdata)
    exact ⟨_, (m.word_eq_ok_iff address _).mpr ⟨high, low, hdata, rfl⟩⟩

/-! ## Accesses that write -/

inductive Access where
  | store (start : Nat) (data : List UInt8)
  | load (program : List UInt8)
deriving DecidableEq

namespace Access

def start : Access → Nat
  | .store start _ => start
  | .load _ => programStart

def data : Access → List UInt8
  | .store _ data => data
  | .load program => program

/-- The range that the access writes lies in memory. -/
def Fits (access : Access) : Prop := access.start + access.data.length ≤ 4096

instance (access : Access) : Decidable access.Fits := Nat.decLe _ _

def fault : Access → Fault
  | .store start _ => boundsFault start
  | .load program => .programTooLarge program.length programCapacity

/-- The byte that an access puts at an address, if it succeeds and covers the address. -/
def byte? (access : Access) (address : Nat) : Option UInt8 :=
  if access.Fits ∧ access.start ≤ address then access.data[address - access.start]? else none

/-- An access works on memory in place.  A fault ends it and keeps the memory as it is then. -/
def perform : Access → EStateM Fault Memory Unit
  | .store start data => do
      let m ← get
      set (← ofExcept (m.store start data))
  | .load program => do
      let program ← ofExcept (Program.ofBytes program)
      modify (fun m ↦ m.load program)

theorem fits_load_iff (program : List UInt8) : (load program).Fits ↔ program.length ≤ 3584 := by
  have hstart : programStart = 0x200 := rfl
  simp only [Fits, start, data]
  omega

theorem run_perform_store (m : Memory) (start : Nat) (data : List UInt8) :
    EStateM.run (store start data).perform m =
      match m.store start data with
      | .ok n => .ok () n
      | .error fault => .error fault m := by
  change EStateM.run (do set (← ofExcept (m.store start data)) : EStateM _ _ _) m = _
  cases m.store start data <;> rfl

theorem run_perform_of_fits {access : Access} (h : access.Fits) (m : Memory) :
    EStateM.run access.perform m = .ok () ⟨Block.write m.bytes access.start access.data⟩ := by
  cases access with
  | store start data =>
      have hstore : m.store start data = .ok ⟨Block.write m.bytes start data⟩ := store_of_le h
      rw [run_perform_store, hstore]
      rfl
  | load program =>
      have hprogram : Program.ofBytes program = .ok ⟨program, _⟩ :=
        dif_pos ((fits_load_iff program).mp h)
      rw [perform, hprogram]
      rfl

theorem run_perform_of_not_fits {access : Access} (h : ¬access.Fits) (m : Memory) :
    EStateM.run access.perform m = .error access.fault m := by
  cases access with
  | store start data =>
      have hstore : m.store start data = .error (boundsFault start) := if_neg h
      rw [run_perform_store, hstore]
      rfl
  | load program =>
      have hprogram : Program.ofBytes program =
          .error (.programTooLarge program.length programCapacity) :=
        dif_neg (fun hle ↦ h ((fits_load_iff program).mpr hle))
      rw [perform, hprogram]
      rfl

end Access

/-- The memory after an access, whether it succeeded or not. -/
def after (m : Memory) (access : Access) : Memory :=
  match EStateM.run access.perform m with
  | .ok _ n => n
  | .error _ n => n

theorem after_of_not_fits {access : Access} (h : ¬access.Fits) : m.after access = m := by
  rw [after, Access.run_perform_of_not_fits h]

theorem get_after (access : Access) (address : Address) :
    (m.after access).bytes.get address =
      (access.byte? address.val).getD (m.bytes.get address) := by
  by_cases hfits : access.Fits
  · rw [after, Access.run_perform_of_fits hfits, Access.byte?]
    change (Block.write m.bytes access.start access.data)[address.val] = _
    rw [Block.getElem_write]
    by_cases hstart : access.start ≤ address.val
    · rw [if_pos hstart, if_pos ⟨hfits, hstart⟩]
      rfl
    · rw [if_neg hstart, if_neg (fun h ↦ hstart h.2)]
      rfl
  · rw [m.after_of_not_fits hfits, Access.byte?, if_neg (fun h ↦ hfits h.1)]
    rfl

/-! ## Sequences of accesses -/

def run (m : Memory) (accesses : List Access) : Memory := accesses.foldl after m

/-- The byte of the last access that succeeds and covers an address. -/
def lastByte? (accesses : List Access) (address : Nat) : Option UInt8 :=
  (accesses.filterMap (fun access ↦ access.byte? address)).getLast?

theorem lastByte?_append_singleton (accesses : List Access) (access : Access) (address : Nat) :
    lastByte? (accesses ++ [access]) address =
      (access.byte? address).or (lastByte? accesses address) := by
  rw [lastByte?, List.filterMap_append]
  cases h : access.byte? address with
  | none => simp [h, lastByte?]
  | some value => simp [h]

theorem get_run (accesses : List Access) (address : Address) :
    (m.run accesses).bytes.get address =
      (lastByte? accesses address.val).getD (m.bytes.get address) := by
  induction accesses using List.reverseRecOn with
  | nil => rfl
  | append_singleton accesses access ih =>
      have hrun : m.run (accesses ++ [access]) = (m.run accesses).after access :=
        List.foldl_append
      rw [hrun, get_after, ih, lastByte?_append_singleton]
      cases access.byte? address.val <;> rfl

/-- Memory is a store of bytes with exact bounds.  A word can be read where two bytes can be cut
out.  After any accesses a byte has the value that the last one to succeed put there, and at
first memory holds the font and zeros. -/
theorem memory_is_byte_store (m : Memory) :
    (∀ start count, ChecksRange (m.slice start count) start count ∧
      ∀ data, m.slice start count = .ok data →
        data.length = count ∧ ∀ i < count, data[i]? = m.bytes[start + i]?) ∧
      (∀ start data, ChecksRange (m.store start data) start data.length) ∧
      (∀ address, ((∃ w, m.word address = .ok w) ↔ ∃ data, m.slice address 2 = .ok data) ∧
        ∀ w, m.word address = .ok w → ∃ high low, m.slice address 2 = .ok [high, low] ∧
          w.toNat = 256 * high.toNat + low.toNat) ∧
      (∀ access : Access,
        (access.Fits → ∃ n, EStateM.run access.perform m = .ok () n) ∧
          (¬access.Fits → EStateM.run access.perform m = .error access.fault m)) ∧
      (∀ program, (Access.load program).Fits ↔ program.length ≤ 3584) ∧
      (∀ (accesses : List Access) (address : Address), (m.run accesses).bytes.get address =
        (lastByte? accesses address.val).getD (m.bytes.get address)) ∧
      ∀ address : Address, powerOn.bytes.get address =
        if 0x50 ≤ address.val ∧ address.val < 0xA0 then Font.bytes.getD (address.val - 0x50) 0
        else 0 := by
  refine ⟨?_, m.checksRange_store, ?_, ?_, Access.fits_load_iff, m.get_run, ?_⟩
  · intro start count
    exact ⟨m.checksRange_slice start count,
      fun data hdata ↦ ⟨length_of_slice hdata, fun i hi ↦ getElem?_of_slice hdata hi⟩⟩
  · intro address
    refine ⟨m.exists_word_iff address, fun w hw ↦ ?_⟩
    obtain ⟨high, low, hslice, rfl⟩ := (m.word_eq_ok_iff address w).mp hw
    refine ⟨high, low, hslice, ?_⟩
    rw [Word.toNat_ofBytes, Nat.mul_comm]
  · intro access
    exact ⟨fun h ↦ ⟨_, Access.run_perform_of_fits h m⟩, fun h ↦ Access.run_perform_of_not_fits h m⟩
  · intro address
    exact getElem_powerOn address.val address.isLt

/-- A store that ends with memory stays when the next one runs past the end, and so does the first
byte of a short program when a store after it is refused with a program that is too large. -/
theorem memory_is_byte_store_overlaps :
    let accesses : List Access :=
      [.store 0xFFE [1, 2], .store 0xFFF [3, 4], .load [5, 6], .store 0x1FF [7, 8],
        .load (List.replicate 3585 9)]
    let m := powerOn.run accesses
    m.bytes.get 0xFFF = 2 ∧ m.bytes.get 0x200 = 8 ∧ m.bytes.get 0x201 = 6 ∧
      m.bytes.get 0x50 = 0xF0 ∧ (∃ w, m.word 0xFFE = .ok w) ∧ ¬(∃ w, m.word 0xFFF = .ok w) ∧
      m.slice 0xFFE 3 = .error (.memoryBounds 0x1000) ∧ FirstOutside 0xFFE 3 0x1000 ∧
      EStateM.run (Access.store 0xFFF [3, 4]).perform m = .error (.memoryBounds 0x1000) m := by
  intro accesses m
  obtain ⟨-, -, -, -, -, hlast, hfirst⟩ := memory_is_byte_store powerOn
  obtain ⟨hslice, -, hword, haccess, -⟩ := memory_is_byte_store m
  have hbyte {address : Address} {value : UInt8} (h : lastByte? accesses address.val = some value) :
      m.bytes.get address = value := by
    refine (hlast accesses address).trans ?_
    rw [h, Option.getD_some]
  have hglyph : lastByte? accesses (0x50 : Address).val = none := by decide +kernel
  have hfault : m.slice 0xFFE 3 = .error (.memoryBounds 0x1000) := dif_neg (by decide)
  obtain ⟨outside, heq, houtside⟩ := (hslice 0xFFE 3).1.outside _ hfault (by decide)
  cases heq
  refine ⟨?_, ?_, ?_, ?_, ?_, ?_, hfault, houtside, ?_⟩
  · exact hbyte (by decide +kernel)
  · exact hbyte (by decide +kernel)
  · exact hbyte (by decide +kernel)
  · refine (hlast accesses 0x50).trans ?_
    rw [hglyph, Option.getD_none, hfirst 0x50]
    rfl
  · exact (hword 0xFFE).1.mpr ((hslice 0xFFE 2).1.ok_iff.mpr (by decide))
  · rw [(hword 0xFFF).1, (hslice 0xFFF 2).1.ok_iff]
    decide
  · exact (haccess (.store 0xFFF [3, 4])).2 (by decide)

end Memory
end Chip8
