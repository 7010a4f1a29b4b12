import Chip8.Proofs.Footprints
import Chip8.Proofs.Histories

/-!
# Stored bytes

A byte of memory keeps its value until an instruction writes it, and only the two instructions
that store from the index register on do so.  Hence a range that nothing wrote since a store
still holds what was stored there, and loading it brings the old values back, whatever ran in
between.
-/

namespace Chip8
namespace Machine

variable {m n : Machine} {w : Word} {address : Address} {first last : Nat}
  {history : List Operation} {operation : Operation}

/-! ## Bytes that no instruction writes -/

/-- The next cycle of the machine writes the byte at an address. -/
def Writes (m : Machine) (address : Address) : Prop :=
  ∃ w status, m.Fetches w ∧ m.cycle.result = .ok status ∧ w.Stores m.registers.index address

theorem Fetches.not_writes (hw : m.Fetches w)
    (h : w.op = 0xF → w.nn ≠ 0x33 ∧ w.nn ≠ 0x55) (address : Address) : ¬m.Writes address := by
  rintro ⟨v, status, hv, -, hop, hstores⟩
  rw [← hw.unique hv] at hop hstores
  obtain ⟨hdecimal, hregisters⟩ := h hop
  rcases hstores with ⟨hnn, -⟩ | ⟨hnn, -⟩
  · exact hdecimal hnn
  · exact hregisters hnn

theorem memory_cycle_of_error {fault : Fault} (h : m.cycle.result = .error fault) :
    m.cycle.machine.memory = m.memory := by
  rw [machine_cycle_of_error h]
  split <;> rfl

theorem get_memory_cycle (h : ¬m.Writes address) :
    m.cycle.machine.memory.bytes.get address = m.memory.bytes.get address := by
  rcases m.confined_or_exists_eq with ⟨w, hw, hconfined⟩ | ⟨keypad, registers, execution, heq⟩
  · by_contra hne
    have hstores := hconfined.memory address hne
    cases hresult : m.cycle.result with
    | error fault => exact hne (by rw [memory_cycle_of_error hresult])
    | ok status => exact h ⟨w, status, hw, hresult, hstores⟩
  · rw [heq]

/-- No cycle of the history writes a byte from address `first` to address `last`. -/
def Spares (m : Machine) (first last : Nat) (history : List Operation) : Prop :=
  ∀ before after, history = before ++ .cycle :: after →
    ∀ address : Address, first ≤ address.val → address.val ≤ last →
      ¬(m.run before).Writes address

theorem spares_nil : m.Spares first last [] := by
  intro before after h
  simp at h

theorem spares_append_singleton :
    m.Spares first last (history ++ [operation]) ↔
      m.Spares first last history ∧
        (operation = .cycle → ∀ address : Address, first ≤ address.val → address.val ≤ last →
          ¬(m.run history).Writes address) :=
  Operation.forall_cycle_append_singleton

/-- A byte that a history spares keeps its value. -/
theorem Spares.get_memory_run (h : m.Spares first last history)
    (hrestart : ∀ operation ∈ history, ¬operation.Restarts)
    (hfirst : first ≤ address.val) (hlast : address.val ≤ last) :
    (m.run history).memory.bytes.get address = m.memory.bytes.get address := by
  refine run_induction (P := fun history n ↦ m.Spares first last history →
    n.memory.bytes.get address = m.memory.bytes.get address) ?_ ?_ history hrestart h
  · intro _
    rfl
  · intro history operation hop ih hspares
    obtain ⟨hhistory, hcycle⟩ := spares_append_singleton.mp hspares
    rw [← ih hhistory]
    by_cases hne : operation = .cycle
    · subst hne
      exact get_memory_cycle (hcycle rfl address hfirst hlast)
    · obtain ⟨_, _, _, _, heq⟩ := (m.run history).hostVariant_perform hop hne
      rw [heq]

/-! ## Storing and loading at the index register -/

/-- An instruction that stores data puts one byte after the other from the index register on. -/
theorem getElem?_cycle_of_store {i : Instruction} {data : List UInt8} (hw : m.Fetches w)
    (hi : w.Encodes i)
    (hstep : ∀ memory, m.memory.store m.registers.index.val data = .ok memory →
      i.Step m .next { m with memory })
    (hfits : m.registers.index.val + data.length ≤ 4096) :
    m.cycle.result = .ok .executed ∧
      ∀ k < data.length,
        data[k]? = some (m.cycle.machine.memory.bytes.get (m.registers.index.offset k)) := by
  have hstore := Memory.store_of_le (m := m.memory) hfits
  obtain ⟨hmachine, hresult⟩ := cycle_of_step hw hi (hstep _ hstore)
  refine ⟨hresult, fun k hk ↦ ?_⟩
  have hplace : (m.registers.index.offset k).val = m.registers.index.val + k :=
    Address.val_offset_of_lt (by omega)
  have hget : data[(m.registers.index.offset k).val - m.registers.index.val]? = some _ :=
    Memory.getElem?_of_store hstore (by omega) (by omega)
  rw [hplace, Nat.add_sub_cancel_left] at hget
  rw [hget, hmachine]
  rfl

/-- The cycle of the machine brings back one value for each register up to `last` and leaves
the other registers, the memory and the index register alone. -/
structure Recalls (m : Machine) (last : Register) (value : Register → UInt8) : Prop where
  executed : m.cycle.result = .ok .executed
  values : ∀ x ≤ last, m.cycle.machine.registers.get x = value x
  others : ∀ x, last < x → m.cycle.machine.registers.get x = m.registers.get x
  memory_eq : m.cycle.machine.memory = m.memory
  index_eq : m.cycle.machine.registers.index = m.registers.index

theorem Recalls.congr {last : Register} {value other : Register → UInt8}
    (h : m.Recalls last value) (heq : ∀ x ≤ last, value x = other x) : m.Recalls last other :=
  { h with values := fun x hx ↦ (h.values x hx).trans (heq x hx) }

/-- Loading registers reads one byte for each from the index register on. -/
theorem recalls_memory (hw : m.Fetches w) (hop : w.op = 0xF) (hnn : w.nn = 0x65)
    (hfits : m.registers.index.val + w.x.val ≤ 0xFFF) :
    m.Recalls w.x (fun x ↦ m.memory.bytes.get (m.registers.index.offset x.val)) := by
  have hi : w.Encodes (.loadRegisters w.x) := ⟨hop, hnn, rfl⟩
  have hslice : m.memory.slice m.registers.index.val (w.x.val + 1) = .ok _ :=
    slice_index_of_le (by omega)
  obtain ⟨hmachine, hresult⟩ := cycle_of_step hw hi (.loadRegisters w.x hslice)
  refine ⟨hresult, ?_, ?_, ?_, ?_⟩
  · intro x hx
    have hlt : x.val < w.x.val + 1 := Nat.lt_succ_of_le hx
    rw [hmachine]
    apply Option.some.inj
    refine (m.registers.getElem?_eq_get_fill (by rwa [List.length_ofFn])).symm.trans ?_
    rw [List.getElem?_ofFn, dif_pos hlt]
  · intro x hx
    by_contra hne
    rw [hmachine] at hne
    have hlt := Registers.lt_of_get_fill_ne hne
    rw [List.length_ofFn] at hlt
    exact absurd (Nat.le_of_lt_succ hlt) (Nat.not_le_of_lt hx)
  · rw [hmachine]
    rfl
  · rw [hmachine]
    rfl

/-- Loading a range that no cycle wrote gives the bytes that it had before the history. -/
theorem Spares.recalls {index : Address} {last : Nat}
    (h : m.Spares index.val (index.val + last) history)
    (hrestart : ∀ operation ∈ history, ¬operation.Restarts) (hfits : index.val + last ≤ 0xFFF)
    (hindex : (m.run history).registers.index = index) (hw : (m.run history).Fetches w)
    (hop : w.op = 0xF) (hnn : w.nn = 0x65) (hlast : w.x.val ≤ last) :
    (m.run history).Recalls w.x (fun x ↦ m.memory.bytes.get (index.offset x.val)) := by
  have hrecalls := recalls_memory hw hop hnn (by rw [hindex]; omega)
  rw [hindex] at hrecalls
  apply hrecalls.congr
  intro x hx
  have hle : x.val ≤ last := Nat.le_trans hx hlast
  have hplace : (index.offset x.val).val = index.val + x.val :=
    Address.val_offset_of_lt (by omega)
  exact h.get_memory_run hrestart (by omega) (by omega)

/-- The decimal digits of a byte, the hundreds first. -/
theorem exists_decimalDigits (value : UInt8) :
    ∃ h t o, decimalDigits value = [h, t, o] ∧ h ≤ 9 ∧ t ≤ 9 ∧ o ≤ 9 ∧
      100 * h.toNat + 10 * t.toNat + o.toNat = value.toNat := by
  have hvalue := value.toNat_lt
  refine ⟨_, _, _, rfl, ?_, ?_, ?_, ?_⟩
  · rw [UInt8.le_iff_toNat_le, UInt8.toNat_div]
    change value.toNat / 100 ≤ 9
    omega
  · rw [UInt8.le_iff_toNat_le, UInt8.toNat_mod, UInt8.toNat_div]
    change value.toNat / 10 % 10 ≤ 9
    omega
  · rw [UInt8.le_iff_toNat_le, UInt8.toNat_mod]
    change value.toNat % 10 ≤ 9
    omega
  · rw [UInt8.toNat_mod, UInt8.toNat_mod, UInt8.toNat_div, UInt8.toNat_div]
    change 100 * (value.toNat / 100) + 10 * (value.toNat / 10 % 10) + value.toNat % 10 = _
    omega

theorem get_cycle_of_storeRegisters (hw : m.Fetches w) (hop : w.op = 0xF) (hnn : w.nn = 0x55)
    (hfits : m.registers.index.val + w.x.val ≤ 0xFFF) :
    m.cycle.result = .ok .executed ∧
      ∀ x ≤ w.x, m.cycle.machine.memory.bytes.get (m.registers.index.offset x.val) =
        m.registers.get x := by
  have hi : w.Encodes (.storeRegisters w.x) := ⟨hop, hnn, rfl⟩
  have hlength := m.registers.length_upTo w.x
  obtain ⟨hresult, hget⟩ :=
    getElem?_cycle_of_store hw hi (fun _ ↦ .storeRegisters w.x) (by omega)
  refine ⟨hresult, ?_⟩
  intro x hx
  have hlt : x.val < w.x.val + 1 := Nat.lt_succ_of_le hx
  apply Option.some.inj
  rw [← m.registers.getElem?_upTo hx, ← hget x.val (by omega)]

theorem get_cycle_of_storeDecimal (hw : m.Fetches w) (hop : w.op = 0xF) (hnn : w.nn = 0x33)
    (hfits : m.registers.index.val ≤ 0xFFD) :
    m.cycle.result = .ok .executed ∧
      ∃ h t o, h ≤ 9 ∧ t ≤ 9 ∧ o ≤ 9 ∧
        100 * h.toNat + 10 * t.toNat + o.toNat = (m.registers.get w.x).toNat ∧
        m.cycle.machine.memory.bytes.get m.registers.index = h ∧
        m.cycle.machine.memory.bytes.get (m.registers.index.offset 1) = t ∧
        m.cycle.machine.memory.bytes.get (m.registers.index.offset 2) = o := by
  have hi : w.Encodes (.storeDecimal w.x) := ⟨hop, hnn, rfl⟩
  have hlength := length_decimalDigits (m.registers.get w.x)
  obtain ⟨hresult, hget⟩ :=
    getElem?_cycle_of_store hw hi (fun _ ↦ .storeDecimal w.x) (by omega)
  obtain ⟨h, t, o, hdigits, hh, ht, ho, hsum⟩ := exists_decimalDigits (m.registers.get w.x)
  rw [hdigits] at hget
  refine ⟨hresult, h, t, o, hh, ht, ho, hsum, ?_, ?_, ?_⟩
  · rw [← m.registers.index.offset_zero]
    exact (Option.some.inj (hget 0 (by simp))).symm
  · exact (Option.some.inj (hget 1 (by simp))).symm
  · exact (Option.some.inj (hget 2 (by simp))).symm

/-- No instruction that stores or loads at the index register moves it. -/
theorem index_cycle_of_mem (hw : m.Fetches w) (hop : w.op = 0xF)
    (hnn : w.nn ∈ [0x33, 0x55, 0x65]) : m.cycle.machine.registers.index = m.registers.index := by
  by_contra hne
  rcases hw.confined.index hne with hother | ⟨-, hbyte⟩
  · rw [hop] at hother
    cases hother
  · simp only [List.mem_cons, List.not_mem_nil, or_false] at hnn
    rcases hbyte with hbyte | hbyte <;> rw [hbyte] at hnn <;> revert hnn <;> decide

/-- Registers that were stored come back, and so do the decimal digits of a register, if nothing
was written over them. -/
theorem stored_bytes_come_back (hw : m.Fetches w) (hop : w.op = 0xF) :
    let index := m.registers.index
    let stored := m.cycle.machine
    (w.nn = 0x55 → index.val + w.x.val ≤ 0xFFF →
      m.cycle.result = .ok .executed ∧
        ∀ history : List Operation, (∀ operation ∈ history, ¬operation.Restarts) →
          stored.Spares index.val (index.val + w.x.val) history →
            let n := stored.run history
            ∀ v, n.Fetches v → v.op = 0xF → v.nn = 0x65 → v.x ≤ w.x →
              n.registers.index = index → n.Recalls v.x m.registers.get) ∧
      (w.nn = 0x33 → index.val ≤ 0xFFD →
        m.cycle.result = .ok .executed ∧
          ∃ h t o, h ≤ 9 ∧ t ≤ 9 ∧ o ≤ 9 ∧
            100 * h.toNat + 10 * t.toNat + o.toNat = (m.registers.get w.x).toNat ∧
            stored.memory.bytes.get index = h ∧
            stored.memory.bytes.get (index.offset 1) = t ∧
            stored.memory.bytes.get (index.offset 2) = o ∧
            ∀ history : List Operation, (∀ operation ∈ history, ¬operation.Restarts) →
              stored.Spares index.val (index.val + 2) history →
                let n := stored.run history
                n.Fetches 0xF265 → n.registers.index = index →
                  n.cycle.result = .ok .executed ∧ n.cycle.machine.registers.get 0 = h ∧
                    n.cycle.machine.registers.get 1 = t ∧
                    n.cycle.machine.registers.get 2 = o) ∧
      (w.nn ∈ [0x33, 0x55, 0x65] → stored.registers.index = index) := by
  intro index stored
  refine ⟨?_, ?_, index_cycle_of_mem hw hop⟩
  · intro hnn hfits
    obtain ⟨hresult, hget⟩ := get_cycle_of_storeRegisters hw hop hnn hfits
    refine ⟨hresult, ?_⟩
    intro history hrestart hspares n v hv hvop hvnn hle hindex
    have hrecalls := hspares.recalls hrestart hfits hindex hv hvop hvnn hle
    exact hrecalls.congr (fun x hx ↦ hget x (hx.trans hle))
  · intro hnn hfits
    obtain ⟨hresult, h, t, o, hh, ht, ho, hsum, hfirst, hsecond, hthird⟩ :=
      get_cycle_of_storeDecimal hw hop hnn hfits
    refine ⟨hresult, h, t, o, hh, ht, ho, hsum, hfirst, hsecond, hthird, ?_⟩
    intro history hrestart hspares n hn hindex
    have hrecalls := hspares.recalls hrestart (by omega) hindex hn rfl rfl (le_refl 2)
    refine ⟨hrecalls.executed, ?_, ?_, ?_⟩
    · have hzero := hrecalls.values 0 (by decide)
      rw [hzero, ← hfirst]
      exact congrArg stored.memory.bytes.get index.offset_zero
    · exact (hrecalls.values 1 (by decide)).trans hsecond
    · exact (hrecalls.values 2 (by decide)).trans hthird

/-- Two registers in the last two bytes of memory, one of them changed in between, and the digits
of 254. -/
theorem stored_bytes_come_back_last_bytes :
    let m := ((ofSeed 0).load
      { bytes := [0x60, 0x12, 0x61, 0x34, 0xAF, 0xFE, 0xF1, 0x55, 0x61, 0x00, 0xF1, 0x65] }).run
        [.cycle, .cycle, .cycle]
    let o := ((ofSeed 0).load
      { bytes := [0x6F, 0xFE, 0xA3, 0x00, 0xFF, 0x33, 0xF2, 0x65] }).run [.cycle, .cycle]
    (m.Fetches 0xF155 ∧ (m.cycle.machine.run [.cycle, .tickTimers]).registers.get 1 = 0 ∧
        (m.cycle.machine.run [.cycle, .tickTimers]).cycle.machine.registers.get 1 = 0x34) ∧
      o.Fetches 0xFF33 ∧
        ∃ h t o', 100 * h.toNat + 10 * t.toNat + o'.toNat = 254 ∧
          o.cycle.machine.cycle.machine.registers.get 0 = h ∧
          o.cycle.machine.cycle.machine.registers.get 1 = t ∧
          o.cycle.machine.cycle.machine.registers.get 2 = o' := by
  intro m o
  obtain ⟨hm, hstored, hn⟩ :
      (m.execution = .running ∧ m.fetch = .ok 0xF155 ∧ m.registers.index.val = 0xFFE ∧
        m.registers.get 1 = 0x34) ∧
      (m.cycle.machine.execution = .running ∧ m.cycle.machine.fetch = .ok 0x6100) ∧
      (m.cycle.machine.run [.cycle, .tickTimers]).execution = .running ∧
      (m.cycle.machine.run [.cycle, .tickTimers]).fetch = .ok 0xF165 ∧
      (m.cycle.machine.run [.cycle, .tickTimers]).registers.index = m.registers.index ∧
      (m.cycle.machine.run [.cycle, .tickTimers]).registers.get 1 = 0 := by
    decide +kernel
  obtain ⟨ho, hload⟩ :
      (o.execution = .running ∧ o.fetch = .ok 0xFF33 ∧ o.registers.index.val = 0x300 ∧
        o.registers.get 0xF = 254) ∧
      o.cycle.machine.execution = .running ∧ o.cycle.machine.fetch = .ok 0xF265 ∧
      o.cycle.machine.registers.index = o.registers.index := by
    decide +kernel
  have hwm : m.Fetches 0xF155 := ⟨hm.1, hm.2.1⟩
  have hwo : o.Fetches 0xFF33 := ⟨ho.1, ho.2.1⟩
  have hwstored : m.cycle.machine.Fetches 0x6100 := ⟨hstored.1, hstored.2⟩
  have hcycle : m.cycle.machine.Spares m.registers.index.val
      (m.registers.index.val + (0xF155 : Word).x.val) ([] ++ [.cycle]) :=
    spares_append_singleton.mpr
      ⟨spares_nil, fun _ address _ _ ↦ hwstored.not_writes (by decide) address⟩
  have hspares := spares_append_singleton.mpr
    ⟨hcycle, fun h : Operation.tickTimers = .cycle ↦ Operation.noConfusion h⟩
  obtain ⟨-, hregisters⟩ := (stored_bytes_come_back hwm rfl).1 rfl (by rw [hm.2.2.1]; decide)
  obtain ⟨-, h, t, o', -, -, -, hsum, -, -, -, hdigits⟩ :=
    (stored_bytes_come_back hwo rfl).2.1 rfl (by rw [ho.2.2.1]; decide)
  have hwload : o.cycle.machine.Fetches 0xF265 := ⟨hload.1, hload.2.1⟩
  have hback := hdigits [] (by simp) spares_nil
  rw [run_nil] at hback
  obtain ⟨-, hh, ht, ho'⟩ := hback hwload hload.2.2
  refine ⟨⟨hwm, hn.2.2.2, ?_⟩, hwo, h, t, o', ?_, hh, ht, ho'⟩
  · have hback := hregisters [.cycle, .tickTimers] (by simp [Operation.Restarts]) hspares
    have hrecalls := hback 0xF165 ⟨hn.1, hn.2.1⟩ rfl rfl (le_refl 1) hn.2.2.1
    rw [← hm.2.2.2]
    exact hrecalls.values 1 (le_refl 1)
  · rw [hsum]
    exact congrArg UInt8.toNat ho.2.2.2

end Machine
end Chip8
