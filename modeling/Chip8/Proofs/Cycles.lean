import Chip8.Machine.Operation
import Chip8.Proofs.Decoding
import Chip8.Proofs.Execution

/-!
# Cycles step by step

A cycle polls for a key, stops at a fault, or takes one step of an instruction.  The
rules below say which, from what the machine has at its program counter.
-/

namespace Chip8
namespace Machine

variable {m after : Machine} {w : Word} {x : Register} {i : Instruction} {fault : Fault}
  {flow : Flow}

/-- A running machine has the word `w` at its program counter. -/
structure Fetches (m : Machine) (w : Word) : Prop where
  running : m.execution = .running
  fetch_eq : m.fetch = .ok w

theorem fetch_eq_error_iff :
    m.fetch = .error fault ↔ m.programCounter = 0xFFF ∧ fault = .fetchBounds 0xFFF := by
  have hpc := m.programCounter.isLt
  unfold fetch Memory.word
  split
  · rename_i hlt
    have hne : m.programCounter ≠ 0xFFF := by
      intro h
      simp [h] at hlt
    simp [hne]
  · rename_i hlast
    have hval : m.programCounter.val = 0xFFF := by omega
    have heq : m.programCounter = 0xFFF := Fin.ext hval
    simp [heq, eq_comm]

theorem fetch_of_ne (h : m.programCounter ≠ 0xFFF) :
    m.fetch = .ok (Word.ofBytes (m.memory.bytes.get m.programCounter)
      (m.memory.bytes.get (m.programCounter.offset 1))) := by
  have hpc := m.programCounter.isLt
  have hne : m.programCounter.val ≠ 0xFFF := fun hval ↦ h (Fin.ext hval)
  have hlt : m.programCounter.val + 1 < 4096 := by omega
  have hnext := Address.val_offset_of_lt hlt
  have hget : m.memory.bytes.get (m.programCounter.offset 1) =
      m.memory.bytes[m.programCounter.val + 1] := by
    change m.memory.bytes[(m.programCounter.offset 1).val] = _
    simp only [hnext]
  rw [fetch, Memory.word, dif_pos hlt, hget]
  rfl

/-- Moves the program counter to where a step at this machine goes on. -/
def follow (m : Machine) (flow : Flow) : Machine :=
  match flow with
  | .next => m.advance 2
  | .skip => m.advance 4
  | .jump target => m.jump target
  | .wait => m

theorem exists_follow (m : Machine) (flow : Flow) :
    ∃ registers, m.follow flow = { m with registers } := by
  cases flow <;> exact ⟨_, rfl⟩

@[simp] theorem stack_follow (m : Machine) (flow : Flow) :
    (m.follow flow).stack = m.stack := by
  cases flow <;> rfl

theorem poll_of_press_eq_none (h : m.keypad.press? = none) :
    m.poll x =
      { machine := { m with keypad := m.keypad.discardPresses }
        result := .ok .awaitingKey } := by
  simp [poll, Keypad.takePress, h]

theorem poll_of_press_eq_some {key : Key} (h : m.keypad.press? = some key) :
    m.poll x =
      { machine :=
          { m with
            keypad := m.keypad.discardPresses
            registers := (m.registers.set x (UInt8.ofNat key.val)).advance 2
            execution := .running }
        result := .ok .executed
        log := [.resuming key] } := by
  simp [poll, Keypad.takePress, h]

/-- A poll works on the keypad, the registers and the state of execution alone. -/
theorem exists_poll (m : Machine) (x : Register) :
    ∃ keypad registers execution,
      (m.poll x).machine = { m with keypad, registers, execution } := by
  cases h : m.keypad.press? with
  | none => exact ⟨_, _, _, by rw [poll_of_press_eq_none h]⟩
  | some key => exact ⟨_, _, _, by rw [poll_of_press_eq_some h]⟩

theorem exists_result_poll (m : Machine) (x : Register) :
    ∃ status, (m.poll x).result = .ok status := by
  cases h : m.keypad.press? with
  | none => exact ⟨.awaitingKey, by rw [poll_of_press_eq_none h]⟩
  | some key => exact ⟨.executed, by rw [poll_of_press_eq_some h]⟩

/-! ## The kinds of cycles -/

theorem cycle_of_awaiting (h : m.execution = .awaitingKey x) : m.cycle = m.poll x := by
  simp [cycle, h]

theorem cycle_of_fetch_error (hrun : m.execution = .running) (h : m.fetch = .error fault) :
    m.cycle = { machine := m, result := .error fault } := by
  simp [cycle, hrun, h]

theorem cycle_of_reserved (hw : m.Fetches w) (h : w.Reserved) :
    m.cycle =
      { machine := m, result := .error (.illegalInstruction w m.programCounter) } := by
  have hlookup := Instruction.lookup_eq_none_iff_reserved.mpr h
  simp [cycle, hw.running, hw.fetch_eq, dispatch, hlookup]

/-- The line of the log for the word at the program counter, if there is an instruction for it. -/
def traced (m : Machine) (w : Word) : List LogEntry :=
  (Instruction.lookup w).toList.map (fun pattern ↦ m.traceEntry w pattern.mnemonic)

/-- A cycle executes the instruction that the word at the program counter stands for. -/
theorem cycle_of_encodes (hw : m.Fetches w) (h : w.Encodes i) :
    m.cycle =
      { m.executeInstruction i with log := m.traced w ++ (m.executeInstruction i).log } := by
  obtain ⟨pattern, hlookup, rfl⟩ :=
    Option.map_eq_some_iff.mp (Instruction.ofWord?_eq_some_iff.mpr h)
  simp [cycle, hw.running, hw.fetch_eq, dispatch, traced, hlookup]

theorem cycle_eq_of_fault (hw : m.Fetches w) (h : w.Encodes i)
    (hfault : i.fault? m = some fault) :
    m.cycle =
      { machine := if fault.isFatal then m else m.advance 2
        result := .error fault
        log := m.traced w ++ if fault.isFatal then [] else [.skipping fault] } := by
  have hrun : i.execute.run m = .error fault m :=
    Instruction.run_execute_eq_error_iff.mpr ⟨hfault, rfl⟩
  rw [cycle_of_encodes hw h]
  simp only [executeInstruction, hrun, fail]
  split
  · rfl
  · rfl

theorem cycle_eq_of_step (hw : m.Fetches w) (h : w.Encodes i) (hstep : i.Step m flow after) :
    m.cycle =
      { machine := after.follow flow
        result := .ok (if flow = .wait then .awaitingKey else .executed)
        log := m.traced w ++ if flow = .wait then [.suspended m.programCounter] else [] } := by
  have hrun := Instruction.run_execute_eq_ok_iff.mpr hstep
  rw [cycle_of_encodes hw h]
  simp only [executeInstruction, hrun]
  cases flow <;> rfl

theorem cycle_of_fault (hw : m.Fetches w) (h : w.Encodes i) (hfault : i.fault? m = some fault) :
    m.cycle.machine = (if fault.isFatal then m else m.advance 2) ∧
      m.cycle.result = .error fault := by
  rw [cycle_eq_of_fault hw h hfault]
  exact ⟨rfl, rfl⟩

theorem cycle_of_step (hw : m.Fetches w) (h : w.Encodes i) (hstep : i.Step m flow after) :
    m.cycle.machine = after.follow flow ∧
      m.cycle.result = .ok (if flow = .wait then .awaitingKey else .executed) := by
  rw [cycle_eq_of_step hw h hstep]
  exact ⟨rfl, rfl⟩

/-- A cycle that succeeds takes a step of the instruction at the program counter. -/
theorem exists_step_of_ok {status : Status} (hw : m.Fetches w)
    (h : m.cycle.result = .ok status) :
    ∃ i flow after, w.Encodes i ∧ Instruction.Step m i flow after ∧
      m.cycle.machine = after.follow flow := by
  rcases Instruction.reserved_or_encodes w with hres | ⟨i, hi⟩
  · rw [cycle_of_reserved hw hres] at h
    cases h
  · cases hrun : i.execute.run m with
    | error fault after =>
        obtain ⟨hfault, -⟩ := Instruction.run_execute_eq_error_iff.mp hrun
        rw [(cycle_of_fault hw hi hfault).2] at h
        cases h
    | ok flow after =>
        have hstep := Instruction.run_execute_eq_ok_iff.mp hrun
        exact ⟨i, flow, after, hi, hstep, (cycle_of_step hw hi hstep).1⟩

/-- What a cycle can do to a machine. -/
inductive Turn (m : Machine) : Prop
  | poll {x : Register} (awaiting : m.execution = .awaitingKey x)
      (eq : m.cycle = m.poll x)
  | unfetched {fault : Fault} (running : m.execution = .running)
      (unfetched : m.fetch = .error fault)
      (eq : m.cycle = { machine := m, result := .error fault })
  | reserved {w : Word} (fetches : m.Fetches w) (reserved : w.Reserved)
      (eq : m.cycle =
        { machine := m, result := .error (.illegalInstruction w m.programCounter) })
  | fault {w : Word} {i : Instruction} {fault : Fault} (fetches : m.Fetches w)
      (encodes : w.Encodes i) (fails : i.fault? m = some fault)
      (machine_eq : m.cycle.machine = if fault.isFatal then m else m.advance 2)
      (result_eq : m.cycle.result = .error fault)
  | step {w : Word} {i : Instruction} {flow : Flow} {after : Machine}
      (fetches : m.Fetches w) (encodes : w.Encodes i) (step : i.Step m flow after)
      (machine_eq : m.cycle.machine = after.follow flow)
      (result_eq : m.cycle.result =
        .ok (if flow = .wait then .awaitingKey else .executed))

theorem turn (m : Machine) : Turn m := by
  cases hexec : m.execution with
  | awaitingKey x => exact .poll hexec (cycle_of_awaiting hexec)
  | running =>
      cases hfetch : m.fetch with
      | error fault => exact .unfetched hexec hfetch (cycle_of_fetch_error hexec hfetch)
      | ok w =>
          have hw : m.Fetches w := ⟨hexec, hfetch⟩
          rcases Instruction.reserved_or_encodes w with hres | ⟨i, hi⟩
          · exact .reserved hw hres (cycle_of_reserved hw hres)
          · cases hrun : i.execute.run m with
            | error fault after =>
                obtain ⟨hfault, -⟩ := Instruction.run_execute_eq_error_iff.mp hrun
                obtain ⟨hmachine, hresult⟩ := cycle_of_fault hw hi hfault
                exact .fault hw hi hfault hmachine hresult
            | ok flow after =>
                have hstep := Instruction.run_execute_eq_ok_iff.mp hrun
                obtain ⟨hmachine, hresult⟩ := cycle_of_step hw hi hstep
                exact .step hw hi hstep hmachine hresult

/-- What no cycle changes, whatever its outcome. -/
theorem kept_cycle (m : Machine) :
    m.cycle.machine.keypad.down = m.keypad.down ∧
      m.cycle.machine.compatibility = m.compatibility ∧
      m.cycle.machine.program = m.program := by
  cases m.turn with
  | @poll x awaiting eq =>
      rw [eq]
      cases h : m.keypad.press? with
      | none =>
          rw [poll_of_press_eq_none h]
          exact ⟨rfl, rfl, rfl⟩
      | some key =>
          rw [poll_of_press_eq_some h]
          exact ⟨rfl, rfl, rfl⟩
  | unfetched running unfetched eq =>
      rw [eq]
      exact ⟨rfl, rfl, rfl⟩
  | reserved fetches reserved eq =>
      rw [eq]
      exact ⟨rfl, rfl, rfl⟩
  | fault fetches encodes fails machine_eq result_eq =>
      rw [machine_eq]
      split
      · exact ⟨rfl, rfl, rfl⟩
      · exact ⟨rfl, rfl, rfl⟩
  | @step w i flow after fetches encodes step machine_eq result_eq =>
      obtain ⟨registers, hfollow⟩ := after.exists_follow flow
      rw [machine_eq, hfollow]
      exact step.kept.2

end Machine
end Chip8
