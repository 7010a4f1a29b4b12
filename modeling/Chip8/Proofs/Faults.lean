import Chip8.Proofs.Cycles

/-!
# Faults of cycles

A cycle that ends with a fault leaves no trace of the instruction that caused it.  Which
fault that is follows from the word at the program counter, the call stack and the index
register alone.
-/

namespace Chip8

/-- How many bytes from the index register on the instruction of a word reads or writes. -/
inductive Word.Accesses (w : Word) : Nat → Prop
  | sprite : w.op = 0xD → Accesses w w.n.val
  | decimal : w.op = 0xF → w.nn = 0x33 → Accesses w 3
  | registers : w.op = 0xF → w.nn = 0x55 ∨ w.nn = 0x65 → Accesses w (w.x.val + 1)

namespace Machine

variable {m : Machine} {w : Word} {fault : Fault}

/-- The faults that the cycle of a running machine ends with if `w` is the word at its
program counter. -/
inductive Faults (m : Machine) (w : Word) : Fault → Prop
  | illegal : w.Reserved → Faults m w (.illegalInstruction w m.programCounter)
  | machineCode : w < 0x1000 → w ≠ 0x00E0 → w ≠ 0x00EE →
      Faults m w (.machineCodeCall w m.programCounter)
  | overflow : w.op = 0x2 → m.stack.toList.length = 16 →
      Faults m w (.stackOverflow m.programCounter 16)
  | underflow : w = 0x00EE → m.stack.toList = [] →
      Faults m w (.stackUnderflow m.programCounter)
  | bounds {count : Nat} : w.Accesses count → 4096 < m.registers.index.val + count →
      Faults m w (.memoryBounds 0x1000)

theorem toList_stack_eq_nil_iff : m.stack.toList = [] ↔ m.stack.pointer = 0 := by
  rw [← List.length_eq_zero_iff, CallStack.length_toList]

theorem faults_of_encodes {i : Instruction} (h : w.Encodes i) (hfault : i.fault? m = some fault) :
    m.Faults w fault := by
  cases i with
  | ret =>
      simp only [Instruction.fault?, Option.ite_none_right_eq_some, Option.some.injEq] at hfault
      obtain ⟨hzero, rfl⟩ := hfault
      exact .underflow h (toList_stack_eq_nil_iff.mpr hzero)
  | call target =>
      simp only [Instruction.fault?, Option.ite_none_right_eq_some, Option.some.injEq] at hfault
      obtain ⟨hfull, rfl⟩ := hfault
      exact .overflow h.1 (by rw [CallStack.length_toList, hfull]; rfl)
  | machineCode word =>
      obtain ⟨⟨hop, hcls, hret⟩, rfl⟩ := h
      cases hfault
      exact .machineCode (Word.lt_iff_op_eq_zero.mpr hop) hcls hret
  | storeDecimal x =>
      obtain ⟨hlt, rfl⟩ := boundsFault?_eq_some_iff.mp hfault
      exact .bounds (.decimal h.1 h.2.1) hlt
  | storeRegisters x =>
      obtain ⟨hop, hnn, rfl⟩ := h
      obtain ⟨hlt, rfl⟩ := boundsFault?_eq_some_iff.mp hfault
      exact .bounds (.registers hop (Or.inl hnn)) hlt
  | loadRegisters x =>
      obtain ⟨hop, hnn, rfl⟩ := h
      obtain ⟨hlt, rfl⟩ := boundsFault?_eq_some_iff.mp hfault
      exact .bounds (.registers hop (Or.inr hnn)) hlt
  | draw x y rows =>
      obtain ⟨hop, rfl, rfl, rfl⟩ := h
      obtain ⟨hlt, rfl⟩ := boundsFault?_eq_some_iff.mp hfault
      exact .bounds (.sprite hop) hlt
  | _ => cases hfault

theorem exists_fault_of_faults (h : m.Faults w fault) :
    (w.Reserved ∧ fault = .illegalInstruction w m.programCounter) ∨
      ∃ i, w.Encodes i ∧ i.fault? m = some fault := by
  cases h with
  | illegal hres => exact Or.inl ⟨hres, rfl⟩
  | machineCode hlt hcls hret =>
      exact Or.inr ⟨.machineCode w, ⟨⟨Word.lt_iff_op_eq_zero.mp hlt, hcls, hret⟩, rfl⟩, rfl⟩
  | overflow hop hfull =>
      rw [CallStack.length_toList] at hfull
      exact Or.inr ⟨.call w.nnn, ⟨hop, rfl⟩, if_pos hfull⟩
  | underflow hw hempty =>
      exact Or.inr ⟨.ret, hw, if_pos (toList_stack_eq_nil_iff.mp hempty)⟩
  | bounds hcount hlt =>
      have hbounds := boundsFault?_eq_some_iff.mpr ⟨hlt, rfl⟩
      cases hcount with
      | sprite hop => exact Or.inr ⟨.draw w.x w.y w.n, ⟨hop, rfl, rfl, rfl⟩, hbounds⟩
      | decimal hop hnn => exact Or.inr ⟨.storeDecimal w.x, ⟨hop, hnn, rfl⟩, hbounds⟩
      | registers hop hnn =>
          rcases hnn with hnn | hnn
          · exact Or.inr ⟨.storeRegisters w.x, ⟨hop, hnn, rfl⟩, hbounds⟩
          · exact Or.inr ⟨.loadRegisters w.x, ⟨hop, hnn, rfl⟩, hbounds⟩

theorem Fetches.unique {u v : Word} (hu : m.Fetches u) (hv : m.Fetches v) : u = v := by
  have h := hu.fetch_eq.symm.trans hv.fetch_eq
  cases h
  rfl

theorem programCounter_ne_of_fetches (hw : m.Fetches w) : m.programCounter ≠ 0xFFF := by
  intro hlast
  have herror := fetch_eq_error_iff.mpr ⟨hlast, rfl⟩
  rw [hw.fetch_eq] at herror
  cases herror

/-- A fault comes from the end of memory or from the word at the program counter. -/
theorem faults_of_error (h : m.cycle.result = .error fault) :
    (m.programCounter = 0xFFF ∧ fault = .fetchBounds 0xFFF) ∨
      ∃ w, m.Fetches w ∧ m.Faults w fault := by
  cases m.turn with
  | poll awaiting eq =>
      obtain ⟨status, hstatus⟩ := m.exists_result_poll _
      rw [eq, hstatus] at h
      cases h
  | unfetched running unfetched eq =>
      rw [eq] at h
      cases h
      exact Or.inl (fetch_eq_error_iff.mp unfetched)
  | reserved fetches reserved eq =>
      rw [eq] at h
      cases h
      exact Or.inr ⟨_, fetches, .illegal reserved⟩
  | fault fetches encodes fails machine_eq result_eq =>
      rw [result_eq] at h
      cases h
      exact Or.inr ⟨_, fetches, faults_of_encodes encodes fails⟩
  | step fetches encodes step machine_eq result_eq =>
      rw [result_eq] at h
      cases h

theorem result_cycle_eq_error_iff (hw : m.Fetches w) :
    m.cycle.result = .error fault ↔ m.Faults w fault := by
  constructor
  · intro h
    rcases faults_of_error h with ⟨hlast, -⟩ | ⟨v, hv, hfaults⟩
    · exact absurd hlast (programCounter_ne_of_fetches hw)
    · rw [hw.unique hv]
      exact hfaults
  · intro h
    rcases exists_fault_of_faults h with ⟨hres, rfl⟩ | ⟨i, hi, hfault⟩
    · rw [cycle_of_reserved hw hres]
    · exact (cycle_of_fault hw hi hfault).2

theorem fetches_of_toNat_eq (hrun : m.execution = .running)
    (hne : m.programCounter ≠ 0xFFF)
    (hw : w.toNat = 256 * (m.memory.bytes.get m.programCounter).toNat +
      (m.memory.bytes.get (m.programCounter.offset 1)).toNat) : m.Fetches w := by
  refine ⟨hrun, ?_⟩
  rw [fetch_of_ne hne]
  congr 1
  rw [← UInt16.toNat_inj, Word.toNat_ofBytes, hw, Nat.mul_comm]

theorem toNat_of_fetches (hw : m.Fetches w) :
    w.toNat = 256 * (m.memory.bytes.get m.programCounter).toNat +
      (m.memory.bytes.get (m.programCounter.offset 1)).toNat := by
  have h := (fetch_of_ne (programCounter_ne_of_fetches hw)).symm.trans hw.fetch_eq
  cases h
  rw [Word.toNat_ofBytes, Nat.mul_comm]

theorem machine_cycle_of_error (h : m.cycle.result = .error fault) :
    m.cycle.machine = if fault.isFatal then m else m.advance 2 := by
  cases m.turn with
  | poll awaiting eq =>
      obtain ⟨status, hstatus⟩ := m.exists_result_poll _
      rw [eq, hstatus] at h
      cases h
  | unfetched running unfetched eq =>
      rw [eq] at h ⊢
      cases h
      obtain ⟨-, rfl⟩ := fetch_eq_error_iff.mp unfetched
      rfl
  | reserved fetches reserved eq =>
      rw [eq] at h ⊢
      cases h
      rfl
  | fault fetches encodes fails machine_eq result_eq =>
      rw [result_eq] at h
      cases h
      exact machine_eq
  | step fetches encodes step machine_eq result_eq =>
      rw [result_eq] at h
      cases h

/-- A fault leaves the machine as it was, except that a call of machine code is stepped
over. -/
theorem machine_cycle_of_fault (h : m.cycle.result = .error fault) :
    ((∀ word address, fault ≠ .machineCodeCall word address) → m.cycle.machine = m) ∧
      ∀ word address, fault = .machineCodeCall word address →
        m.cycle.machine =
          { m with
            registers :=
              { m.registers with
                programCounter := Fin.ofNat 4096 (m.programCounter.val + 2) } } := by
  have hmachine := machine_cycle_of_error h
  constructor
  · intro hne
    have hfatal : fault.isFatal = true := by
      cases fault with
      | machineCodeCall word address => exact absurd rfl (hne word address)
      | _ => rfl
    rw [hmachine, if_pos hfatal]
  · rintro word address rfl
    exact hmachine

/-- Where the first of three registers still fits into memory, where the first rows of a sprite
do and where the call stack is full, nothing is stored, no pixel and no flag changes and no
address is pushed.  Only the call of machine code moves the program counter. -/
theorem machine_cycle_of_fault_last_bytes :
    let used := ((ofSeed 0).load
      { bytes := [0x60, 0x12, 0x61, 0x34, 0xAF, 0xFE, 0xF1, 0x55, 0x60, 0x99, 0x6F, 0x07,
          0xF2, 0x55, 0xD0, 0x13, 0x22, 0x00, 0x01, 0x23] }).run (List.replicate 6 .cycle)
    let m := { used with stack := { pointer := 16 } }
    (m.memory.bytes.get 0xFFE = 0x12 ∧ m.registers.get 0 = 0x99 ∧ m.registers.get 0xF = 0x07) ∧
      (m.fetch = .ok 0xF255 ∧ m.cycle.result = .error (.memoryBounds 0x1000) ∧
        m.cycle.machine = m) ∧
      ((m.jump 0x20E).fetch = .ok 0xD013 ∧
        (m.jump 0x20E).cycle.result = .error (.memoryBounds 0x1000) ∧
        (m.jump 0x20E).cycle.machine = m.jump 0x20E) ∧
      ((m.jump 0x210).cycle.result = .error (.stackOverflow 0x210 16) ∧
        (m.jump 0x210).cycle.machine = m.jump 0x210) ∧
      (m.jump 0x212).cycle.result = .error (.machineCodeCall 0x0123 0x212) ∧
        (m.jump 0x212).cycle.machine = m.jump 0x214 := by
  intro used m
  obtain ⟨hparts, ⟨hstore, hunstored⟩, ⟨hdraw, hundrawn⟩, hcall, hcode⟩ :
      (m.memory.bytes.get 0xFFE = 0x12 ∧ m.registers.get 0 = 0x99 ∧
        m.registers.get 0xF = 0x07) ∧
      (m.fetch = .ok 0xF255 ∧ m.cycle.result = .error (.memoryBounds 0x1000)) ∧
      ((m.jump 0x20E).fetch = .ok 0xD013 ∧
        (m.jump 0x20E).cycle.result = .error (.memoryBounds 0x1000)) ∧
      (m.jump 0x210).cycle.result = .error (.stackOverflow 0x210 16) ∧
      (m.jump 0x212).cycle.result = .error (.machineCodeCall 0x0123 0x212) := by
    decide +kernel
  clear_value m
  refine ⟨hparts, ⟨hstore, hunstored, ?_⟩, ⟨hdraw, hundrawn, ?_⟩, ⟨hcall, ?_⟩, hcode, ?_⟩
  · exact (machine_cycle_of_fault hunstored).1 nofun
  · exact (machine_cycle_of_fault hundrawn).1 nofun
  · exact (machine_cycle_of_fault hcall).1 nofun
  · exact (machine_cycle_of_fault hcode).2 0x0123 0x212 rfl

/-- A machine that waits for a key never fails, and a running machine fails exactly when
its program counter leaves no room for a word or the word there is at fault. -/
theorem cycle_fails_iff (m : Machine) :
    (∀ x, m.execution = .awaitingKey x → ∃ status, m.cycle.result = .ok status) ∧
      (m.execution = .running → m.programCounter = 0xFFF →
        m.cycle.result = .error (.fetchBounds 0xFFF)) ∧
      (m.execution = .running → m.programCounter ≠ 0xFFF → ∀ w : Word,
        w.toNat = 256 * (m.memory.bytes.get m.programCounter).toNat +
            (m.memory.bytes.get (m.programCounter.offset 1)).toNat →
          (∀ fault, m.cycle.result = .error fault ↔ m.Faults w fault) ∧
            ((∃ status, m.cycle.result = .ok status) ↔ ∀ fault, ¬m.Faults w fault)) ∧
      ∀ size capacity, m.cycle.result ≠ .error (.programTooLarge size capacity) := by
  refine ⟨?_, ?_, ?_, ?_⟩
  · intro x hwait
    rw [cycle_of_awaiting hwait]
    exact m.exists_result_poll x
  · intro hrun hlast
    rw [cycle_of_fetch_error hrun (fetch_eq_error_iff.mpr ⟨hlast, rfl⟩)]
  · intro hrun hne w hw
    have hfaults (fault : Fault) : m.cycle.result = .error fault ↔ m.Faults w fault :=
      result_cycle_eq_error_iff (fetches_of_toNat_eq hrun hne hw)
    refine ⟨hfaults, ?_⟩
    simp only [← hfaults]
    cases m.cycle.result <;> simp
  · intro size capacity h
    rcases faults_of_error h with ⟨-, hfault⟩ | ⟨w, -, hfaults⟩
    · cases hfault
    · cases hfaults

/-- Two registers fill the last two bytes of memory and a third one is too many, and so is a call
after sixteen others. -/
theorem cycle_fails_iff_limits :
    let m : Machine :=
      { (ofSeed 0).load { bytes := [0xF1, 0x55, 0xF2, 0x55, 0x22, 0x00] } with
        registers := { index := 0xFFE }
        stack := { pointer := 15 } }
    let full : Machine := { m with stack := { pointer := 16 } }
    (m.Fetches 0xF155 ∧ ∃ status, m.cycle.result = .ok status) ∧
      ((m.jump 0x202).Fetches 0xF255 ∧
        (m.jump 0x202).cycle.result = .error (.memoryBounds 0x1000)) ∧
      ((m.jump 0x204).Fetches 0x2200 ∧ ∃ status, (m.jump 0x204).cycle.result = .ok status) ∧
      ((full.jump 0x204).Fetches 0x2200 ∧
        (full.jump 0x204).cycle.result = .error (.stackOverflow 0x204 16)) ∧
      (m.jump 0x206).cycle.result = .error (.machineCodeCall 0x0000 0x206) ∧
      (m.jump 0xFFF).cycle.result = .error (.fetchBounds 0xFFF) ∧
      ∃ status, (m.awaitKey 0).cycle.result = .ok status := by
  intro m full
  obtain ⟨htwo, hthree, hcall, hcode⟩ :
      m.fetch = .ok 0xF155 ∧ (m.jump 0x202).fetch = .ok 0xF255 ∧
        (m.jump 0x204).fetch = .ok 0x2200 ∧ (m.jump 0x206).fetch = .ok 0x0000 := by
    decide +kernel
  have hfits : m.Fetches 0xF155 := ⟨rfl, htwo⟩
  have hexceeds : (m.jump 0x202).Fetches 0xF255 := ⟨rfl, hthree⟩
  have hlast : (m.jump 0x204).Fetches 0x2200 := ⟨rfl, hcall⟩
  have hfull : (full.jump 0x204).Fetches 0x2200 := ⟨rfl, hcall⟩
  have hunknown : (m.jump 0x206).Fetches 0x0000 := ⟨rfl, hcode⟩
  have hword {n : Machine} {w : Word} (hw : n.Fetches w) :=
    (cycle_fails_iff n).2.2.1 hw.running (programCounter_ne_of_fetches hw) w
      (toNat_of_fetches hw)
  refine ⟨⟨hfits, ?_⟩, ⟨hexceeds, ?_⟩, ⟨hlast, ?_⟩, ⟨hfull, ?_⟩, ?_, ?_, ?_⟩
  · refine (hword hfits).2.mpr ?_
    rintro fault (hreserved | hlt | hop | hret | ⟨haccesses, hlt⟩)
    · exact absurd hreserved (by decide)
    · exact absurd hlt (by decide)
    · exact absurd hop (by decide)
    · exact absurd hret (by decide)
    · rcases haccesses with hop | ⟨-, hnn⟩ | -
      · exact absurd hop (by decide)
      · exact absurd hnn (by decide)
      · exact absurd hlt (by decide)
  · have haccesses : (0xF255 : Word).Accesses 3 := .registers rfl (Or.inl rfl)
    exact ((hword hexceeds).1 _).mpr (.bounds haccesses (by decide))
  · refine (hword hlast).2.mpr ?_
    rintro fault (hreserved | hlt | ⟨-, hdepth⟩ | hret | ⟨hop | hop | hop, -⟩)
    · exact absurd hreserved (by decide)
    · exact absurd hlt (by decide)
    · rw [CallStack.length_toList] at hdepth
      exact absurd hdepth (by decide)
    · exact absurd hret (by decide)
    · exact absurd hop (by decide)
    · exact absurd hop (by decide)
    · exact absurd hop (by decide)
  · exact ((hword hfull).1 _).mpr (.overflow rfl (CallStack.length_toList _))
  · exact ((hword hunknown).1 _).mpr (.machineCode (by decide) (by decide) (by decide))
  · exact (cycle_fails_iff (m.jump 0xFFF)).2.1 rfl rfl
  · exact (cycle_fails_iff (m.awaitKey 0)).1 0 rfl

end Machine
end Chip8
