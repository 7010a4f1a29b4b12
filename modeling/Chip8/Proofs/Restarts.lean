import Chip8.Machine.Loading
import Chip8.Proofs.Cycles
import Chip8.Proofs.Histories

/-!
# Restarts

A reset keeps three things of the past: the program that was loaded last, the compatibility
settings and the source of random bytes.  All else is as at power on, whatever the history
before it.  A program that does not fit is refused and leaves no trace.
-/

namespace Chip8

/-! ## The kept program -/

namespace Operation

/-- The bytes that an operation loads, if they fit. -/
def accepted? : Operation → Option (List UInt8)
  | .load bytes => if bytes.length ≤ programCapacity then some bytes else none
  | _ => none

/-- The bytes of the last load of a history that fit, or none at all. -/
def lastAccepted (history : List Operation) : List UInt8 :=
  (history.filterMap accepted?).getLastD []

theorem lastAccepted_append_singleton (history : List Operation) (operation : Operation) :
    lastAccepted (history ++ [operation]) = operation.accepted?.getD (lastAccepted history) := by
  rw [lastAccepted, List.filterMap_append]
  cases h : operation.accepted? with
  | none => simp [h, lastAccepted]
  | some bytes => simp [h]

end Operation

/-- The byte at a place of memory when a machine starts with a program. -/
def Memory.startByte (program : List UInt8) (i : Nat) : UInt8 :=
  if 0x50 ≤ i ∧ i < 0xA0 then Font.bytes.getD (i - 0x50) 0
  else if 0x200 ≤ i then program.getD (i - 0x200) 0
  else 0

theorem Memory.getElem_powerOn (i : Nat) (hi : i < 4096) :
    powerOn.bytes[i] = if 0x50 ≤ i ∧ i < 0xA0 then Font.bytes.getD (i - 0x50) 0 else 0 := by
  have hbase : Font.base = 0x50 := rfl
  have hlen := Font.length_bytes
  have hwrite := Block.getElem_write (Vector.replicate 4096 0) Font.base Font.bytes i hi
  rw [Vector.getElem_replicate] at hwrite
  rw [powerOn, hwrite, List.getD_eq_getElem?_getD]
  by_cases hlow : Font.base ≤ i
  · by_cases hhigh : i < 0xA0
    · rw [if_pos hlow, if_pos (by omega)]
      rfl
    · rw [if_pos hlow, if_neg (by omega), List.getElem?_eq_none (by omega)]
      rfl
  · rw [if_neg hlow, if_neg (by omega)]

theorem Memory.getElem_load_powerOn (program : Program) (i : Nat) (hi : i < 4096) :
    (powerOn.load program).bytes[i] = startByte program.bytes i := by
  have hplace : programStart = 0x200 := rfl
  rw [load, Block.getElem_write, getElem_powerOn i hi, startByte, List.getD_eq_getElem?_getD]
  by_cases hstart : programStart ≤ i
  · rw [if_pos hstart, if_neg (by omega), if_neg (by omega), if_pos (by omega)]
    rfl
  · rw [if_neg hstart, if_neg (by omega : ¬0x200 ≤ i)]

namespace Machine

variable {m : Machine}

theorem loadBytes_of_le {bytes : List UInt8} (h : bytes.length ≤ programCapacity) :
    m.loadBytes bytes =
      { machine := m.load ⟨bytes, h⟩
        reply := .loaded (.ok bytes.length)
        log := loadLog ⟨bytes, h⟩ } := by
  simp only [loadBytes, Program.ofBytes, dif_pos h]
  rfl

theorem loadBytes_of_lt {bytes : List UInt8} (h : programCapacity < bytes.length) :
    m.loadBytes bytes =
      { machine := m
        reply := .loaded (.error (.programTooLarge bytes.length programCapacity)) } := by
  simp only [loadBytes, Program.ofBytes, dif_neg (Nat.not_le_of_lt h)]

theorem program_perform (m : Machine) (operation : Operation) :
    (m.perform operation).machine.program.bytes =
      operation.accepted?.getD m.program.bytes := by
  cases operation with
  | cycle => exact congrArg Program.bytes m.kept_cycle.2.2
  | load bytes =>
      by_cases h : bytes.length ≤ programCapacity
      · rw [perform, loadBytes_of_le h, Operation.accepted?, if_pos h]
        rfl
      · rw [perform, loadBytes_of_lt (by omega), Operation.accepted?, if_neg h]
        rfl
  | _ => rfl

theorem program_run (random : RandomSource) (history : List Operation) :
    (({ random } : Machine).run history).program.bytes = Operation.lastAccepted history := by
  induction history using List.reverseRecOn with
  | nil => rfl
  | append_singleton history operation ih =>
      rw [run_append_singleton, program_perform, ih, Operation.lastAccepted_append_singleton]

/-! ## The state after a restart -/

/-- The machine is as at power on, with a program loaded and its picture not yet taken. -/
structure Restarted (m : Machine) (program : List UInt8) : Prop where
  memory : ∀ address : Address,
    m.memory.bytes.get address = Memory.startByte program address.val
  registers : ∀ x, m.registers.get x = 0
  index : m.registers.index = 0
  programCounter : m.programCounter = 0x200
  stack : m.stack.toList = []
  timers : m.timers.delay = 0 ∧ m.timers.sound = 0
  frame : ∀ p, m.frame.isLit p = false
  keys : ∀ key, m.keypad.isDown key = false ∧ m.keypad.isPressed key = false
  execution : m.execution = .running
  redraw : m.redraw = true

theorem restarted_reset (m : Machine) : m.reset.Restarted m.program.bytes where
  memory address := Memory.getElem_load_powerOn m.program address.val address.isLt
  registers x := by simp [reset, Registers.get]
  index := rfl
  programCounter := rfl
  stack := rfl
  timers := ⟨rfl, rfl⟩
  frame p := by simp [reset, Frame.blank, Frame.isLit]
  keys key := by simp [reset, Keypad.isDown, Keypad.isPressed]
  execution := rfl
  redraw := rfl

theorem machine_loadStored (m : Machine) (path : String) (bytes : List UInt8) :
    (m.loadStored path (.ok bytes)).machine = (m.perform (.load bytes)).machine := by
  simp only [loadStored, perform, loadBytes]
  cases Program.ofBytes bytes with
  | ok program => rfl
  | error fault => rfl

theorem load_eq_load_configure (m : Machine) (program : Program) :
    m.load program =
      (({ random := m.random } : Machine).configure m.compatibility).load program := by
  simp only [load, configure, reset]

/-- A restart after any history of a new machine. -/
theorem reset_forgets_history (random : RandomSource) (history : List Operation) :
    let m := ({ random } : Machine).run history
    let program := Operation.lastAccepted history
    -- The bytes that a reset loads again are those of the last load, and they still fit.
    (m.program.bytes = program ∧ program.length ≤ 3584 ∧
        Program.ofBytes program = .ok m.program) ∧
      (m.perform .reset).machine =
        ({ random := m.random } : Machine).run [.configure m.compatibility, .load program] ∧
      m.reset.Restarted program ∧
      m.reset.reset = m.reset ∧
      (∀ bytes : List UInt8, bytes.length ≤ 3584 →
        (m.perform (.load bytes)).machine =
            ({ random := m.random } : Machine).run [.configure m.compatibility, .load bytes] ∧
          (m.perform (.load bytes)).reply = .loaded (.ok bytes.length)) ∧
      (∀ bytes : List UInt8, 3584 < bytes.length →
        (m.perform (.load bytes)).machine = m ∧
          (m.perform (.load bytes)).reply =
            .loaded (.error (.programTooLarge bytes.length 3584))) ∧
      ∀ path bytes cause,
        (m.loadStored path (.ok bytes)).machine = (m.perform (.load bytes)).machine ∧
          (m.loadStored path (.error cause)).machine = m := by
  intro m program
  have hkept : m.program.bytes = program := program_run random history
  have hfits : program.length ≤ programCapacity := hkept ▸ m.program.length_le
  refine ⟨⟨hkept, hfits, ?_⟩, ?_, ?_, rfl, ?_, ?_, ?_⟩
  · exact Program.ofBytes_eq_ok_iff.mpr hkept
  · have hprogram : m.program = ⟨program, hfits⟩ := Program.ext hkept
    simp only [run_cons, run_nil, perform, loadBytes_of_le hfits, ← hprogram]
    exact m.load_eq_load_configure m.program
  · exact hkept ▸ m.restarted_reset
  · intro bytes hbytes
    have hload : bytes.length ≤ programCapacity := hbytes
    simp only [run_cons, run_nil, perform, loadBytes_of_le hload]
    exact ⟨m.load_eq_load_configure _, trivial⟩
  · intro bytes hbytes
    rw [perform, loadBytes_of_lt hbytes]
    exact ⟨rfl, rfl⟩
  · intro path bytes cause
    exact ⟨m.machine_loadStored path bytes, rfl⟩

/-- A program that overwrote a glyph, and one that is a byte too long. -/
theorem reset_forgets_history_overwrite :
    let m := ({ random := { seed := 0 } } : Machine).run
      [.load [0xA0, 0x50, 0xF0, 0x55], .cycle, .cycle]
    m.memory.bytes.get 0x50 = 0x00 ∧ m.reset.memory.bytes.get 0x50 = 0xF0 ∧
      (m.perform (.load [0x00])).reply = .loaded (.ok 1) ∧
      (m.perform (.load (List.replicate 3585 0xFF))).machine = m := by
  intro m
  obtain ⟨-, -, hreset, -, hloaded, hrefused, -⟩ := reset_forgets_history { seed := 0 }
    [.load [0xA0, 0x50, 0xF0, 0x55], .cycle, .cycle]
  have hlong : 3584 < (List.replicate 3585 (0xFF : UInt8)).length := by
    rw [List.length_replicate]
    decide
  refine ⟨by decide +kernel, ?_, (hloaded [0x00] (by decide)).2, (hrefused _ hlong).1⟩
  rw [hreset.memory]
  decide

end Machine
end Chip8
