import Chip8.Machine.Execute

/-!
# Execution step by step

Execution works on the machine in place, and a fault may end it half way.  Here the
outcome of every instruction is written down at once: the faults that it can end with,
and the step that it takes otherwise.  A fault always finds the machine untouched.
-/

namespace Chip8
namespace Computation

@[simp] theorem run_throw {α : Type} (fault : Fault) (m : Machine) :
    EStateM.run (throw fault : Computation α) m = .error fault m := rfl

theorem run_get_bind {α : Type} (next : Machine → Computation α) (m : Machine) :
    EStateM.run (get >>= next) m = EStateM.run (next m) m := by
  rw [EStateM.run_bind, EStateM.run_get]

theorem run_ofExcept_bind {α β : Type} (result : Except Fault α)
    (next : α → Computation β) (m : Machine) :
    EStateM.run (ofExcept result >>= next) m =
      match result with
      | .ok value => EStateM.run (next value) m
      | .error fault => .error fault m := by
  rw [EStateM.run_bind, run_ofExcept]
  cases result <;> rfl

theorem run_map {α β : Type} (f : α → β) (c : Computation α) (m : Machine) :
    EStateM.run (f <$> c) m =
      match EStateM.run c m with
      | .ok value after => .ok (f value) after
      | .error fault after => .error fault after := by
  change EStateM.map f c m = _
  simp only [EStateM.map, EStateM.run]
  cases c m <;> rfl

variable {α β : Type} {f : α → β} {c : Computation α} {m after : Machine}

@[simp] theorem run_map_eq_error_iff {fault : Fault} :
    EStateM.run (f <$> c) m = .error fault after ↔
      EStateM.run c m = .error fault after := by
  rw [run_map]
  cases EStateM.run c m <;> simp

@[simp] theorem run_map_eq_ok_iff {result : β} :
    EStateM.run (f <$> c) m = .ok result after ↔
      ∃ value, EStateM.run c m = .ok value after ∧ f value = result := by
  rw [run_map]
  cases EStateM.run c m with
  | ok value after =>
      simp only [EStateM.Result.ok.injEq]
      constructor
      · rintro ⟨hresult, rfl⟩
        exact ⟨value, ⟨rfl, rfl⟩, hresult⟩
      · rintro ⟨_, ⟨rfl, rfl⟩, hresult⟩
        exact ⟨hresult, rfl⟩
  | error fault after => simp

end Computation

namespace Machine

variable {m after : Machine} {fault : Fault}

/-! ## Handlers -/

theorem run_storeAtIndex (data : List UInt8) :
    (storeAtIndex data).run m =
      match m.memory.store m.registers.index.val data with
      | .ok memory => .ok () { m with memory }
      | .error fault => .error fault m := by
  cases h : m.memory.store m.registers.index.val data <;> simp [storeAtIndex, h]

theorem run_loadRegisters (x : Register) :
    (loadRegisters x).run m =
      match m.memory.slice m.registers.index.val (x.val + 1) with
      | .ok data => .ok () { m with registers := m.registers.fill data }
      | .error fault => .error fault m := by
  cases h : m.memory.slice m.registers.index.val (x.val + 1) <;> simp [loadRegisters, h]

def drawn (m : Machine) (x y : Register) (data : List UInt8) : Machine :=
  let result := m.frame.draw (m.registers.get x).toNat (m.registers.get y).toNat data
  { m with
    frame := result.1
    registers := m.registers.setFlag result.2
    redraw := true }

theorem run_drawSprite (x y : Register) (rows : Nibble) :
    (drawSprite x y rows).run m =
      match m.memory.slice m.registers.index.val rows.val with
      | .ok data => .ok () (m.drawn x y data)
      | .error fault => .error fault m := by
  simp only [drawSprite, drawn, Computation.run_get_bind, Computation.run_ofExcept_bind]
  cases m.memory.slice m.registers.index.val rows.val with
  | ok data =>
      dsimp only
      generalize m.frame.draw _ _ data = result
      rfl
  | error fault => rfl

theorem run_call :
    call.run m =
      match m.stack.push (m.programCounter.offset 2) m.programCounter with
      | .ok stack => .ok () { m with stack }
      | .error fault => .error fault m := by
  cases h : m.stack.push (m.programCounter.offset 2) m.programCounter <;> simp [call, h]

theorem run_ret :
    ret.run m =
      match m.stack.pop m.programCounter with
      | .ok (target, stack) => .ok target { m with stack }
      | .error fault => .error fault m := by
  cases h : m.stack.pop m.programCounter <;> simp [ret, h]

@[simp] theorem run_storeAtIndex_eq_ok_iff {data : List UInt8} {u : Unit} :
    (storeAtIndex data).run m = .ok u after ↔
      ∃ memory, m.memory.store m.registers.index.val data = .ok memory ∧
        after = { m with memory } := by
  rw [run_storeAtIndex]
  cases m.memory.store m.registers.index.val data <;> simp [eq_comm]

@[simp] theorem run_loadRegisters_eq_ok_iff {x : Register} {u : Unit} :
    (loadRegisters x).run m = .ok u after ↔
      ∃ data, m.memory.slice m.registers.index.val (x.val + 1) = .ok data ∧
        after = { m with registers := m.registers.fill data } := by
  rw [run_loadRegisters]
  cases m.memory.slice m.registers.index.val (x.val + 1) <;> simp [eq_comm]

@[simp] theorem run_drawSprite_eq_ok_iff {x y : Register} {rows : Nibble} {u : Unit} :
    (drawSprite x y rows).run m = .ok u after ↔
      ∃ data, m.memory.slice m.registers.index.val rows.val = .ok data ∧
        after = m.drawn x y data := by
  rw [run_drawSprite]
  cases m.memory.slice m.registers.index.val rows.val <;> simp [eq_comm]

@[simp] theorem run_call_eq_ok_iff {u : Unit} :
    call.run m = .ok u after ↔
      ∃ stack, m.stack.push (m.programCounter.offset 2) m.programCounter = .ok stack ∧
        after = { m with stack } := by
  rw [run_call]
  cases m.stack.push (m.programCounter.offset 2) m.programCounter <;> simp [eq_comm]

@[simp] theorem run_ret_eq_ok_iff {target : Address} :
    ret.run m = .ok target after ↔
      ∃ stack, m.stack.pop m.programCounter = .ok (target, stack) ∧
        after = { m with stack } := by
  rw [run_ret]
  cases m.stack.pop m.programCounter with
  | ok result =>
      obtain ⟨top, stack⟩ := result
      simp [eq_comm, and_assoc]
  | error fault => simp

theorem exists_calculate (m : Machine) (operation : Arithmetic) (x y : Register) :
    ∃ values, m.calculate operation x y =
      { m with registers := { m.registers with values } } := by
  unfold calculate
  generalize operation.apply (m.registers.get x) (m.registers.get y) = result
  obtain ⟨value, _ | flag⟩ := result
  · exact ⟨_, rfl⟩
  · exact ⟨_, rfl⟩

theorem exists_addIndex (m : Machine) (x : Register) :
    ∃ values index, m.addIndex x =
      { m with registers := { m.registers with values, index } } := by
  unfold addIndex
  split <;> exact ⟨_, _, rfl⟩

/-! ## Faults of handlers -/

/-- The fault of an access to `count` bytes at the place that the index register gives. -/
def boundsFault? (m : Machine) (count : Nat) : Option Fault :=
  if 4096 < m.registers.index.val + count then some (.memoryBounds 4096) else none

theorem boundsFault?_eq_some_iff {count : Nat} :
    m.boundsFault? count = some fault ↔
      4096 < m.registers.index.val + count ∧ fault = .memoryBounds 4096 := by
  simp [boundsFault?, eq_comm]

theorem boundsFault_index :
    Memory.boundsFault m.registers.index.val = .memoryBounds 4096 := by
  have h := m.registers.index.isLt
  rw [Memory.boundsFault, Nat.max_eq_right (Nat.le_of_lt h)]

theorem slice_index_eq_error_iff {count : Nat} :
    m.memory.slice m.registers.index.val count = .error fault ↔
      m.boundsFault? count = some fault := by
  rw [Memory.slice_eq_error_iff, boundsFault_index, boundsFault?_eq_some_iff]

/-- A range at the index register that ends in memory gives its bytes. -/
theorem slice_index_of_le {count : Nat} (h : m.registers.index.val + count ≤ 4096) :
    m.memory.slice m.registers.index.val count =
      .ok (List.ofFn (fun k : Fin count ↦
        m.memory.bytes.get (m.registers.index.offset k.val))) := by
  rw [Memory.slice, dif_pos h, Block.read]
  congr 3
  funext k
  congr 1
  apply Fin.ext
  exact (Address.val_offset_of_lt (by omega)).symm

theorem store_index_eq_error_iff {data : List UInt8} :
    m.memory.store m.registers.index.val data = .error fault ↔
      m.boundsFault? data.length = some fault := by
  rw [Memory.store_eq_error_iff, boundsFault_index, boundsFault?_eq_some_iff]

@[simp] theorem run_storeAtIndex_eq_error_iff {data : List UInt8} :
    (storeAtIndex data).run m = .error fault after ↔
      m.boundsFault? data.length = some fault ∧ after = m := by
  rw [run_storeAtIndex, ← store_index_eq_error_iff]
  cases m.memory.store m.registers.index.val data <;> simp [eq_comm]

@[simp] theorem run_loadRegisters_eq_error_iff {x : Register} :
    (loadRegisters x).run m = .error fault after ↔
      m.boundsFault? (x.val + 1) = some fault ∧ after = m := by
  rw [run_loadRegisters, ← slice_index_eq_error_iff]
  cases m.memory.slice m.registers.index.val (x.val + 1) <;> simp [eq_comm]

@[simp] theorem run_drawSprite_eq_error_iff {x y : Register} {rows : Nibble} :
    (drawSprite x y rows).run m = .error fault after ↔
      m.boundsFault? rows.val = some fault ∧ after = m := by
  rw [run_drawSprite, ← slice_index_eq_error_iff]
  cases m.memory.slice m.registers.index.val rows.val <;> simp [eq_comm]

@[simp] theorem run_call_eq_error_iff :
    call.run m = .error fault after ↔
      (m.stack.pointer = callDepth ∧
        fault = .stackOverflow m.programCounter callDepth) ∧ after = m := by
  rw [run_call, ← @CallStack.push_eq_error_iff m.stack (m.programCounter.offset 2)]
  cases m.stack.push (m.programCounter.offset 2) m.programCounter <;> simp [eq_comm]

@[simp] theorem run_ret_eq_error_iff :
    ret.run m = .error fault after ↔
      (m.stack.pointer = 0 ∧ fault = .stackUnderflow m.programCounter) ∧ after = m := by
  rw [run_ret, ← CallStack.pop_eq_error_iff]
  cases m.stack.pop m.programCounter <;> simp [eq_comm]

end Machine

namespace Instruction

variable {m after : Machine} {i : Instruction} {fault : Fault} {flow : Flow}

/-! ## Faults of instructions -/

/-- The fault that an instruction ends with on a machine. -/
def fault? (m : Machine) : Instruction → Option Fault
  | .ret =>
      if m.stack.pointer = 0 then some (.stackUnderflow m.programCounter) else none
  | .call _ =>
      if m.stack.pointer = callDepth then
        some (.stackOverflow m.programCounter callDepth)
      else none
  | .machineCode word => some (.machineCodeCall word m.programCounter)
  | .storeDecimal _ => m.boundsFault? 3
  | .storeRegisters x => m.boundsFault? (x.val + 1)
  | .loadRegisters x => m.boundsFault? (x.val + 1)
  | .draw _ _ rows => m.boundsFault? rows.val
  | _ => none

/-- A fault ends an instruction before it changed anything. -/
theorem run_execute_eq_error_iff :
    i.execute.run m = .error fault after ↔ i.fault? m = some fault ∧ after = m := by
  cases i with
  | ret => simp [execute, fault?, eq_comm (a := fault)]
  | call target => simp [execute, fault?, eq_comm (a := fault)]
  | machineCode word => simp [execute, fault?, eq_comm (a := after)]
  | storeDecimal x =>
      -- Only these lemmas, since the kernel would start to divide the open byte.
      simp only [execute, fault?, bind_pure_comp, Computation.run_get_bind,
        Computation.run_map_eq_error_iff, Machine.run_storeAtIndex_eq_error_iff,
        Machine.length_decimalDigits]
  | _ => simp [execute, fault?]

/-! ## Steps -/

/-- The step of an instruction that does not fail: where execution goes on, and the
machine that the instruction leaves. -/
inductive Step (m : Machine) : Instruction → Flow → Machine → Prop
  | clearScreen : Step m .clearScreen .next { m with frame := Frame.blank, redraw := true }
  | ret {target : Address} {stack : CallStack} :
      m.stack.pop m.programCounter = .ok (target, stack) →
        Step m .ret (.jump target) { m with stack }
  | skipIfKey (x : Register) :
      Step m (.skipIfKey x)
        (.skipIf (m.keypad.isDown (Nibble.ofByte (m.registers.get x)))) m
  | skipUnlessKey (x : Register) :
      Step m (.skipUnlessKey x)
        (.skipIf (!m.keypad.isDown (Nibble.ofByte (m.registers.get x)))) m
  | readDelay (x : Register) :
      Step m (.readDelay x) .next
        { m with registers := m.registers.set x m.timers.delay }
  | awaitKey (x : Register) : Step m (.awaitKey x) .wait (m.awaitKey x)
  | setDelay (x : Register) :
      Step m (.setDelay x) .next
        { m with timers := { m.timers with delay := m.registers.get x } }
  | setSound (x : Register) :
      Step m (.setSound x) .next
        { m with timers := { m.timers with sound := m.registers.get x } }
  | addIndex (x : Register) : Step m (.addIndex x) .next (m.addIndex x)
  | selectGlyph (x : Register) : Step m (.selectGlyph x) .next (m.selectGlyph x)
  | storeDecimal (x : Register) {memory : Memory} :
      m.memory.store m.registers.index.val (Machine.decimalDigits (m.registers.get x)) =
          .ok memory →
        Step m (.storeDecimal x) .next { m with memory }
  | storeRegisters (x : Register) {memory : Memory} :
      m.memory.store m.registers.index.val (m.registers.upTo x) = .ok memory →
        Step m (.storeRegisters x) .next { m with memory }
  | loadRegisters (x : Register) {data : List UInt8} :
      m.memory.slice m.registers.index.val (x.val + 1) = .ok data →
        Step m (.loadRegisters x) .next { m with registers := m.registers.fill data }
  | skipIfEqual (x y : Register) :
      Step m (.skipIfEqual x y)
        (.skipIf (m.registers.get x == m.registers.get y)) m
  | arithmetic (operation : Arithmetic) (x y : Register) :
      Step m (.arithmetic operation x y) .next (m.calculate operation x y)
  | skipUnlessEqual (x y : Register) :
      Step m (.skipUnlessEqual x y)
        (.skipIf (m.registers.get x != m.registers.get y)) m
  | jump (target : Address) : Step m (.jump target) (.jump target) m
  | call (target : Address) {stack : CallStack} :
      m.stack.push (m.programCounter.offset 2) m.programCounter = .ok stack →
        Step m (.call target) (.jump target) { m with stack }
  | skipIfByte (x : Register) (value : UInt8) :
      Step m (.skipIfByte x value) (.skipIf (m.registers.get x == value)) m
  | skipUnlessByte (x : Register) (value : UInt8) :
      Step m (.skipUnlessByte x value) (.skipIf (m.registers.get x != value)) m
  | loadByte (x : Register) (value : UInt8) :
      Step m (.loadByte x value) .next { m with registers := m.registers.set x value }
  | addByte (x : Register) (value : UInt8) :
      Step m (.addByte x value) .next
        { m with registers := m.registers.set x (m.registers.get x + value) }
  | setIndex (target : Address) :
      Step m (.setIndex target) .next
        { m with registers := { m.registers with index := target } }
  | jumpOffset (base : Address) :
      Step m (.jumpOffset base) (.jump (base.offset (m.registers.get 0).toNat)) m
  | random (x : Register) (bits : UInt8) :
      Step m (.random x bits) .next (m.loadRandom x bits)
  | draw (x y : Register) (rows : Nibble) {data : List UInt8} :
      m.memory.slice m.registers.index.val rows.val = .ok data →
        Step m (.draw x y rows) .next (m.drawn x y data)

theorem run_execute_eq_ok_iff :
    i.execute.run m = .ok flow after ↔ Step m i flow after := by
  constructor
  · intro h
    cases i with
    | ret =>
        simp only [execute, bind_pure_comp, Computation.run_map_eq_ok_iff,
          Machine.run_ret_eq_ok_iff] at h
        obtain ⟨target, ⟨stack, hpop, rfl⟩, rfl⟩ := h
        exact .ret hpop
    | call target =>
        simp only [execute, bind_pure_comp, Computation.run_map_eq_ok_iff,
          Machine.run_call_eq_ok_iff] at h
        obtain ⟨_, ⟨stack, hpush, rfl⟩, rfl⟩ := h
        exact .call target hpush
    | machineCode word => simp [execute] at h
    | storeDecimal x =>
        simp only [execute, bind_pure_comp, Computation.run_get_bind,
          Computation.run_map_eq_ok_iff, Machine.run_storeAtIndex_eq_ok_iff] at h
        obtain ⟨_, ⟨memory, hstore, rfl⟩, rfl⟩ := h
        exact .storeDecimal x hstore
    | storeRegisters x =>
        simp only [execute, bind_pure_comp, Computation.run_get_bind,
          Computation.run_map_eq_ok_iff, Machine.run_storeAtIndex_eq_ok_iff] at h
        obtain ⟨_, ⟨memory, hstore, rfl⟩, rfl⟩ := h
        exact .storeRegisters x hstore
    | loadRegisters x =>
        simp only [execute, bind_pure_comp, Computation.run_map_eq_ok_iff,
          Machine.run_loadRegisters_eq_ok_iff] at h
        obtain ⟨_, ⟨data, hslice, rfl⟩, rfl⟩ := h
        exact .loadRegisters x hslice
    | draw x y rows =>
        simp only [execute, bind_pure_comp, Computation.run_map_eq_ok_iff,
          Machine.run_drawSprite_eq_ok_iff] at h
        obtain ⟨_, ⟨data, hslice, rfl⟩, rfl⟩ := h
        exact .draw x y rows hslice
    | _ =>
        -- The others never fail, and their run computes to the step.
        simp only [execute, bind_pure_comp, Computation.run_map,
          EStateM.run_bind, EStateM.run_modify, EStateM.run_pure,
          EStateM.Result.ok.injEq] at h
        obtain ⟨rfl, rfl⟩ := h
        constructor
  · intro h
    cases h with
    | storeDecimal x hstore =>
        simp only [execute, bind_pure_comp, Computation.run_get_bind,
          Computation.run_map_eq_ok_iff, Machine.run_storeAtIndex_eq_ok_iff]
        exact ⟨(), ⟨_, hstore, rfl⟩, trivial⟩
    | _ =>
        simp [execute, Machine.run_ret, Machine.run_call, Machine.run_storeAtIndex,
          Machine.run_loadRegisters, Machine.run_drawSprite, *]

/-- What no step changes. -/
theorem Step.kept (h : Step m i flow after) :
    after.programCounter = m.programCounter ∧ after.keypad.down = m.keypad.down ∧
      after.compatibility = m.compatibility ∧ after.program = m.program := by
  cases h with
  | addIndex x =>
      obtain ⟨values, index, heq⟩ := m.exists_addIndex x
      rw [heq]
      exact ⟨rfl, rfl, rfl, rfl⟩
  | arithmetic operation x y =>
      obtain ⟨values, heq⟩ := m.exists_calculate operation x y
      rw [heq]
      exact ⟨rfl, rfl, rfl, rfl⟩
  | _ => exact ⟨rfl, rfl, rfl, rfl⟩

end Instruction
end Chip8
