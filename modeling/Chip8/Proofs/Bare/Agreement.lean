import Chip8.Proofs.Bare.Machine
import Chip8.Proofs.Cycles

/-!
# The bare machine does what the machine does

A machine gives a bare machine when its bounds are forgotten.  Operation by operation, the
bare machine of a machine does what the machine does, and no guard refuses.
-/

namespace Chip8

def BareExecution.of : Execution → BareExecution
  | .running => .running
  | .awaitingKey x => .awaitingKey (UInt8.ofNat x.val)

def BareFlow.of : Flow → BareFlow
  | .next => .next
  | .skip => .skip
  | .jump target => .jump target.toWord
  | .wait => .wait

@[simp] theorem BareFlow.skipIf_eq (condition : Bool) :
    BareFlow.skipIf condition = .of (.skipIf condition) := by
  cases condition <;> rfl

theorem Word.xField_eq (w : Word) : w.xField = UInt8.ofNat w.x.val := by
  rw [← Word.toNat_xField, UInt8.ofNat_toNat]

theorem Nibble.ofByte_ofNat (x : Nibble) : Nibble.ofByte (UInt8.ofNat x.val) = x := by
  revert x
  decide

namespace BareMachine

def of (m : Machine) : BareMachine :=
  { memory := m.memory
    registers := .of m.registers
    stack := .of m.stack
    timers := m.timers
    frame := m.frame
    keypad := m.keypad
    compatibility := m.compatibility
    random := m.random
    execution := .of m.execution
    program := m.program.bytes
    redraw := m.redraw }

variable (m : Machine) (w : Word)

@[simp] theorem memory_of : (of m).memory = m.memory := rfl

@[simp] theorem registers_of : (of m).registers = .of m.registers := rfl

@[simp] theorem keypad_of : (of m).keypad = m.keypad := rfl

@[simp] theorem stack_of : (of m).stack = .of m.stack := rfl

@[simp] theorem index_of : (BareRegisters.of m.registers).index = m.registers.index.toWord := rfl

@[simp] theorem programCounter_of :
    (BareRegisters.of m.registers).programCounter = m.programCounter.toWord := rfl

/-! ## Handlers -/

theorem get_xField : (of m).registers.get w.xField = .ok (m.registers.get w.x) := by
  rw [registers_of, BareRegisters.get_of, Word.ofByte_xField]

theorem get_yField : (of m).registers.get w.yField = .ok (m.registers.get w.y) := by
  rw [registers_of, BareRegisters.get_of, Word.ofByte_yField]

theorem skipIf_of (condition : Bool) :
    (of m).skipIf condition = .ok (of m, .ok (.of (.skipIf condition))) := by
  rw [skipIf, BareFlow.skipIf_eq]

theorem setRegister_of (value : UInt8) :
    (of m).setRegister w value =
      .ok (of { m with registers := m.registers.set w.x value }, .ok .next) := by
  rw [setRegister, registers_of, BareRegisters.set_of, Word.ofByte_xField]
  rfl

theorem calculate_of (operation : Arithmetic) :
    (of m).calculate operation w = .ok (of (m.calculate operation w.x w.y), .ok .next) := by
  rw [calculate, get_xField, Guarded.ok_bind, get_yField, Guarded.ok_bind, Machine.calculate]
  simp only [registers_of, BareRegisters.set_of, Word.ofByte_xField, Guarded.ok_bind]
  generalize operation.apply (m.registers.get w.x) (m.registers.get w.y) = result
  obtain ⟨value, _ | flag⟩ := result
  · rfl
  · rfl

theorem addIndex_of : (of m).addIndex w = .ok (of (m.addIndex w.x), .ok .next) := by
  have hcompatibility : (of m).compatibility = m.compatibility := rfl
  have hindex := m.registers.index.isLt
  have hvalue := (m.registers.get w.x).toNat_lt
  -- Twelve bits and eight bits add up to less than sixteen.
  have hbound : m.registers.index.toWord.toNat + (m.registers.get w.x).toUInt16.toNat < 65536 := by
    rw [Address.toNat_toWord, UInt8.toNat_toUInt16]
    omega
  have hsum : (m.registers.index.toWord + (m.registers.get w.x).toUInt16).toNat =
      m.registers.index.val + (m.registers.get w.x).toNat := by
    rw [UInt16.toNat_add, Nat.mod_eq_of_lt hbound, Address.toNat_toWord, UInt8.toNat_toUInt16]
  have hpast : decide (0x0FFF < m.registers.index.toWord + (m.registers.get w.x).toUInt16) =
      decide (4096 ≤ m.registers.index.val + (m.registers.get w.x).toNat) := by
    apply decide_eq_decide.mpr
    rw [UInt16.lt_iff_toNat_lt, hsum]
    rfl
  rw [addIndex, get_xField, Guarded.ok_bind, registers_of, index_of,
    Guarded.addWord_of_lt hbound, Guarded.ok_bind, Guarded.address_and, Guarded.ok_bind,
    Address.ofWord, hsum, hpast, hcompatibility, Machine.addIndex]
  cases m.compatibility.indexOverflowSetsFlag with
  | false => rfl
  | true => rfl

theorem selectGlyph_of : (of m).selectGlyph w = .ok (of (m.selectGlyph w.x), .ok .next) := by
  rw [selectGlyph, get_xField, Guarded.ok_bind, Machine.selectGlyph]
  generalize m.registers.get w.x = value
  have hdigit := (Nibble.ofByte value).isLt
  have hproduct : (value &&& 0xF).toUInt16.toNat * (5 : UInt16).toNat =
      5 * (Nibble.ofByte value).val := by
    rw [UInt8.toNat_toUInt16, Guarded.toNat_and_digit, Nat.mul_comm]
    rfl
  have hdistance : ((value &&& 0xF).toUInt16 * 5).toNat = 5 * (Nibble.ofByte value).val := by
    rw [UInt16.toNat_mul, hproduct, Nat.mod_eq_of_lt (by omega)]
  have hsum : (0x50 : UInt16).toNat + ((value &&& 0xF).toUInt16 * 5).toNat =
      (Font.address (Nibble.ofByte value)).val := by
    rw [hdistance, Font.val_address]
    rfl
  have hbound := (Font.address (Nibble.ofByte value)).isLt
  have hplace : (0x50 + (value &&& 0xF).toUInt16 * 5).toNat =
      (Font.address (Nibble.ofByte value)).val := by
    rw [UInt16.toNat_add, hsum, Nat.mod_eq_of_lt (by omega)]
  rw [Guarded.mulWord_of_lt (by omega), Guarded.ok_bind, Guarded.addWord_of_lt (by omega),
    Guarded.ok_bind, Guarded.address_eq_toWord hplace]
  rfl

/-- What is left of the outcome of an instruction when bounds are forgotten. -/
def ofOutcome : EStateM.Result Fault Machine Flow → Result BareFlow
  | .ok flow after => (of after, .ok (.of flow))
  | .error fault after => (of after, .error fault)

theorem slice_index {count : Nat} (h : count < 4096) :
    BareMemory.slice (of m).memory (of m).registers.index.toNat count =
      .ok (m.memory.slice m.registers.index.val count) := by
  rw [memory_of, registers_of, index_of, Address.toNat_toWord,
    BareMemory.slice_eq _ m.registers.index.isLt h]

theorem storeAtIndex_of (data : List UInt8) (h : data.length < 4096) :
    (of m).storeAtIndex data.length data =
      .ok (ofOutcome (EStateM.run (do Machine.storeAtIndex data; return Flow.next) m)) := by
  rw [storeAtIndex, memory_of, registers_of, index_of, Address.toNat_toWord,
    BareMemory.store_eq _ m.registers.index.isLt h, Guarded.ok_bind, EStateM.run_bind,
    Machine.run_storeAtIndex]
  cases m.memory.store m.registers.index.val data with
  | error fault => rfl
  | ok memory => rfl

theorem loadRegisters_of :
    (of m).loadRegisters w =
      .ok (ofOutcome ((Instruction.loadRegisters w.x).execute.run m)) := by
  have hx := w.x.isLt
  rw [loadRegisters, Word.toNat_xField, Guarded.addSize_of_lt (by omega), Guarded.ok_bind,
    slice_index m (by omega), Guarded.ok_bind, Instruction.execute, EStateM.run_bind,
    Machine.run_loadRegisters]
  cases hslice : m.memory.slice m.registers.index.val (w.x.val + 1) with
  | error fault => rfl
  | ok data =>
      have hlength := Memory.length_of_slice hslice
      rw [← Word.ofByte_xField] at hlength
      simp only [registers_of, BareRegisters.fill_of _ hlength, Guarded.ok_bind]
      rfl

theorem drawSprite_of :
    (of m).drawSprite w = .ok (ofOutcome ((Instruction.draw w.x w.y w.n).execute.run m)) := by
  have hn := w.n.isLt
  have hframe : (of m).frame = m.frame := rfl
  rw [drawSprite, get_xField, Guarded.ok_bind, get_yField, Guarded.ok_bind, Word.toNat_nField,
    slice_index m (by omega), Guarded.ok_bind, Instruction.execute, EStateM.run_bind,
    Machine.run_drawSprite]
  cases hslice : m.memory.slice m.registers.index.val w.n.val with
  | error fault => rfl
  | ok data =>
      have hlength := Memory.length_of_slice hslice
      have hrows : data.length < 16 := by omega
      simp only [hframe, registers_of, BareFrame.draw_eq _ _ _ hrows, BareRegisters.setFlag_of,
        Guarded.ok_bind]
      rfl

theorem call_of :
    (of m).call w = .ok (ofOutcome ((Instruction.call w.nnn).execute.run m)) := by
  rw [call, registers_of, stack_of, programCounter_of, BareRegisters.wrappingOffset_toWord,
    Guarded.ok_bind, BareStack.push_of, Guarded.ok_bind, Instruction.execute,
    EStateM.run_bind, Machine.run_call]
  have htwo : (2 : UInt16).toNat = 2 := rfl
  rw [htwo]
  cases m.stack.push (m.programCounter.offset 2) m.programCounter with
  | error fault => rfl
  | ok stack =>
      simp only [Except.map, Word.nnnField_eq, Guarded.ok_bind]
      rfl

theorem ret_of :
    (of m).ret = .ok (ofOutcome (Instruction.ret.execute.run m)) := by
  rw [ret, registers_of, stack_of, programCounter_of, BareStack.pop_of, Guarded.ok_bind,
    Instruction.execute, EStateM.run_bind, Machine.run_ret]
  cases m.stack.pop m.programCounter with
  | error fault => rfl
  | ok popped => rfl

/-- An instruction of the table does with the operands of its word what the instruction of
the word does. -/
theorem execute_of {i : Instruction} (h : w.Encodes i) :
    (of m).execute w i = .ok (ofOutcome (i.execute.run m)) := by
  cases i with
  | clearScreen => rfl
  | ret => exact ret_of m
  | skipIfKey x =>
      obtain ⟨-, -, rfl⟩ := h
      rw [execute, get_xField, Guarded.ok_bind, keypad_of, BareKeypad.isDown_eq, Guarded.ok_bind,
        skipIf_of]
      rfl
  | skipUnlessKey x =>
      obtain ⟨-, -, rfl⟩ := h
      rw [execute, get_xField, Guarded.ok_bind, keypad_of, BareKeypad.isDown_eq, Guarded.ok_bind,
        skipIf_of]
      rfl
  | readDelay x =>
      obtain ⟨-, -, rfl⟩ := h
      exact setRegister_of m w m.timers.delay
  | awaitKey x =>
      obtain ⟨-, -, rfl⟩ := h
      rw [execute, Word.xField_eq]
      rfl
  | setDelay x =>
      obtain ⟨-, -, rfl⟩ := h
      rw [execute, get_xField]
      rfl
  | setSound x =>
      obtain ⟨-, -, rfl⟩ := h
      rw [execute, get_xField]
      rfl
  | addIndex x =>
      obtain ⟨-, -, rfl⟩ := h
      exact addIndex_of m w
  | selectGlyph x =>
      obtain ⟨-, -, rfl⟩ := h
      exact selectGlyph_of m w
  | storeDecimal x =>
      obtain ⟨-, -, rfl⟩ := h
      rw [execute, get_xField, Guarded.ok_bind, Instruction.execute, Computation.run_get_bind]
      exact storeAtIndex_of m (Machine.decimalDigits (m.registers.get w.x)) (by simp)
  | storeRegisters x =>
      obtain ⟨-, -, rfl⟩ := h
      have hx := w.x.isLt
      rw [execute, registers_of, BareRegisters.upTo_of, Guarded.ok_bind, Word.ofByte_xField,
        Instruction.execute, Computation.run_get_bind]
      exact storeAtIndex_of m (m.registers.upTo w.x) (by rw [Registers.length_upTo]; omega)
  | loadRegisters x =>
      obtain ⟨-, -, rfl⟩ := h
      exact loadRegisters_of m w
  | skipIfEqual x y =>
      obtain ⟨-, -, rfl, rfl⟩ := h
      rw [execute, get_xField, Guarded.ok_bind, get_yField, Guarded.ok_bind, skipIf_of]
      rfl
  | arithmetic operation x y =>
      obtain ⟨-, -, rfl, rfl⟩ := h
      exact calculate_of m w operation
  | skipUnlessEqual x y =>
      obtain ⟨-, -, rfl, rfl⟩ := h
      rw [execute, get_xField, Guarded.ok_bind, get_yField, Guarded.ok_bind, skipIf_of]
      rfl
  | machineCode word =>
      obtain ⟨-, rfl⟩ := h
      rw [execute, registers_of, programCounter_of, Address.toNat_toWord]
      rfl
  | jump target =>
      obtain ⟨-, rfl⟩ := h
      rw [execute, Word.nnnField_eq]
      rfl
  | call target =>
      obtain ⟨-, rfl⟩ := h
      exact call_of m w
  | skipIfByte x value =>
      obtain ⟨-, rfl, rfl⟩ := h
      rw [execute, get_xField, Guarded.ok_bind, skipIf_of, Word.nnField_eq]
      rfl
  | skipUnlessByte x value =>
      obtain ⟨-, rfl, rfl⟩ := h
      rw [execute, get_xField, Guarded.ok_bind, skipIf_of, Word.nnField_eq]
      rfl
  | loadByte x value =>
      obtain ⟨-, rfl, rfl⟩ := h
      rw [execute, setRegister_of, Word.nnField_eq]
      rfl
  | addByte x value =>
      obtain ⟨-, rfl, rfl⟩ := h
      rw [execute, get_xField, Guarded.ok_bind, setRegister_of, Word.nnField_eq]
      rfl
  | setIndex target =>
      obtain ⟨-, rfl⟩ := h
      rw [execute, Word.nnnField_eq]
      rfl
  | jumpOffset base =>
      obtain ⟨-, rfl⟩ := h
      rw [execute, registers_of, BareRegisters.get_of, Guarded.ok_bind, Word.nnnField_eq,
        Guarded.ok_bind, BareRegisters.wrappingOffset_toWord, UInt8.toNat_toUInt16]
      rfl
  | random x bits =>
      obtain ⟨-, rfl, rfl⟩ := h
      have hset := setRegister_of { m with random := m.random.advance } w (m.random.peek &&& w.nn)
      rw [execute, Word.nnField_eq]
      exact hset
  | draw x y rows =>
      obtain ⟨-, rfl, rfl, rfl⟩ := h
      exact drawSprite_of m w

/-! ## Cycles -/

theorem advance_of (distance : UInt16) :
    (of m).advance distance = .ok (of (m.advance distance.toNat)) := by
  rw [advance, registers_of, BareRegisters.advance_of]
  rfl

theorem poll_of (register : UInt8) :
    (of m).poll register =
      .ok (of (m.poll (Nibble.ofByte register)).machine,
        (m.poll (Nibble.ofByte register)).result) := by
  rw [poll, keypad_of, registers_of, Machine.poll, Keypad.takePress]
  cases m.keypad.press? with
  | none => rfl
  | some key =>
      simp only [BareRegisters.set_of, Guarded.ok_bind, BareRegisters.advance_of]
      rfl

theorem proceed_of (flow : Flow) (site : Address) :
    (of m).proceed (.ok (.of flow)) =
      .ok (of (m.proceed site flow).machine, (m.proceed site flow).result) := by
  cases flow with
  | next =>
      rw [BareFlow.of, proceed, advance_of]
      rfl
  | skip =>
      rw [BareFlow.of, proceed, advance_of]
      rfl
  | jump target => rfl
  | wait => rfl

theorem proceed_of_error (fault : Fault) :
    (of m).proceed (.error fault) = .ok (of (m.fail fault).machine, (m.fail fault).result) := by
  rw [proceed, Machine.fail, advance_of]
  cases fault.isFatal with
  | true => rfl
  | false => rfl

theorem dispatch_of :
    (of m).dispatch w = .ok (of (m.dispatch w).machine, (m.dispatch w).result) := by
  rw [dispatch, Machine.dispatch]
  cases hlookup : Instruction.lookup w with
  | none =>
      simp only [registers_of, programCounter_of, Address.toNat_toWord]
  | some pattern =>
      have hencodes := Instruction.encodes_of_lookup hlookup
      simp only [registers_of, BareRegisters.upTo_of, Guarded.ok_bind, execute_of m w hencodes,
        Machine.executeInstruction]
      cases (pattern.instruction w).execute.run m with
      | ok flow after => exact proceed_of after flow m.programCounter
      | error fault after => exact proceed_of_error after fault

theorem cycle_of : (of m).cycle = .ok (of m.cycle.machine, m.cycle.result) := by
  have hexecution : (of m).execution = .of m.execution := rfl
  rw [cycle, Machine.cycle, hexecution]
  cases m.execution with
  | awaitingKey x =>
      have hpoll := poll_of m (UInt8.ofNat x.val)
      rw [Nibble.ofByte_ofNat] at hpoll
      exact hpoll
  | running =>
      simp only [BareExecution.of, memory_of, registers_of, programCounter_of,
        BareMemory.word_eq, Guarded.ok_bind, Machine.fetch]
      cases m.memory.word m.programCounter.val with
      | error fault => rfl
      | ok w => exact dispatch_of m w

/-! ## Operations of the host -/

theorem start_of (random : RandomSource) : start random = .ok (of { random }) := by
  rw [start, BareMemory.start_eq, Guarded.ok_bind, BareRegisters.start_eq, Guarded.ok_bind,
    BareStack.start_eq]
  rfl

theorem reset_of : (of m).reset = .ok (of m.reset) := by
  have hprogram : (of m).program = m.program.bytes := rfl
  rw [reset, BareMemory.start_eq, Guarded.ok_bind, hprogram, BareMemory.load_eq, Guarded.ok_bind,
    BareRegisters.start_eq, Guarded.ok_bind, BareStack.start_eq]
  rfl

theorem load_of (bytes : List UInt8) :
    ∃ result, (m.loadBytes bytes).reply = .loaded result ∧
      (of m).load bytes = .ok (of (m.loadBytes bytes).machine, result) := by
  rw [load, Machine.loadBytes, Program.ofBytes]
  by_cases h : bytes.length ≤ programCapacity
  · have hreset := reset_of { m with program := ⟨bytes, h⟩ }
    rw [dif_pos h, if_neg (Nat.not_lt_of_le h)]
    refine ⟨.ok bytes.length, rfl, ?_⟩
    change (of { m with program := ⟨bytes, h⟩ }).reset >>= _ = _
    rw [hreset]
    rfl
  · rw [dif_neg h, if_pos (Nat.lt_of_not_le h)]
    exact ⟨_, rfl, rfl⟩

/-- Every operation of the host is done without a violation, with the same result. -/
theorem perform_of (operation : Operation) :
    (of m).perform operation =
      .ok (of (m.perform operation).machine, (m.perform operation).reply) := by
  cases operation with
  | cycle =>
      rw [perform, cycle_of]
      rfl
  | setKey pin isDown =>
      rw [perform, setKey, keypad_of, BareKeypad.set_eq]
      rfl
  | reset =>
      rw [perform, reset_of]
      rfl
  | load bytes =>
      obtain ⟨result, hreply, hload⟩ := load_of m bytes
      rw [perform, hload, Machine.perform, hreply]
      rfl
  | _ => rfl

theorem run_of (history : List Operation) : (of m).run history = .ok (of (m.run history)) := by
  apply Guarded.foldlM_eq of history
  intro m operation _
  rw [perform_of]
  rfl

end BareMachine
end Chip8
