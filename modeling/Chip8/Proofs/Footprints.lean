import Chip8.Proofs.Redraw

/-!
# Footprints

The word at the program counter decides which parts of the machine a cycle may change.  A
step of an instruction stays inside the footprint of its word, and going on to the next
instruction moves the program counter alone.  No cycle ever reaches the keys that are held,
the compatibility settings or the program that a reset brings back.
-/

namespace Chip8
namespace Word

/-- The instruction of the word writes the byte at an address, from the index register on. -/
def Stores (w : Word) (index address : Address) : Prop :=
  w.op = 0xF ∧
    (w.nn = 0x33 ∧ index.val ≤ address.val ∧ address.val < index.val + 3 ∨
      w.nn = 0x55 ∧ index.val ≤ address.val ∧ address.val ≤ index.val + w.x.val)

/-- The instruction of the word writes a register. -/
inductive Sets (w : Word) (settings : Compatibility) : Register → Prop
  | byte : w.op = 0x6 ∨ w.op = 0x7 ∨ w.op = 0xC → Sets w settings w.x
  | delay : w.op = 0xF → w.nn = 0x07 → Sets w settings w.x
  | value : w.op = 0x8 → w.n ∈ [0x0, 0x1, 0x2, 0x3] → Sets w settings w.x
  | result : w.op = 0x8 → w.n ∈ [0x4, 0x5, 0x6, 0x7, 0xE] → Sets w settings w.x
  | flag : w.op = 0x8 → w.n ∈ [0x4, 0x5, 0x6, 0x7, 0xE] → Sets w settings 0xF
  | collision : w.op = 0xD → Sets w settings 0xF
  | overflow : w.op = 0xF → w.nn = 0x1E → settings.indexOverflowSetsFlag = true →
      Sets w settings 0xF
  | block {x : Register} : w.op = 0xF → w.nn = 0x65 → x ≤ w.x → Sets w settings x

/-- The machines `m` and `n` differ at most in what the instruction of the word is meant to
change, the program counter apart. -/
structure Confined (w : Word) (m n : Machine) : Prop where
  memory : ∀ address, n.memory.bytes.get address ≠ m.memory.bytes.get address →
    w.Stores m.registers.index address
  values : ∀ x, n.registers.get x ≠ m.registers.get x → w.Sets m.compatibility x
  index : n.registers.index ≠ m.registers.index →
    w.op = 0xA ∨ w.op = 0xF ∧ (w.nn = 0x1E ∨ w.nn = 0x29)
  stack : n.stack ≠ m.stack → w.op = 0x2 ∨ w = 0x00EE
  delay : n.timers.delay ≠ m.timers.delay → w.op = 0xF ∧ w.nn = 0x15
  sound : n.timers.sound ≠ m.timers.sound → w.op = 0xF ∧ w.nn = 0x18
  frame : n.frame ≠ m.frame → w = 0x00E0 ∨ w.op = 0xD
  redraw : n.redraw ≠ m.redraw → w = 0x00E0 ∨ w.op = 0xD
  random : n.random ≠ m.random → w.op = 0xC ∧ n.random = m.random.advance
  execution : n.execution ≠ m.execution → w.op = 0xF ∧ w.nn = 0x0A
  pressed : n.keypad.pressed ≠ m.keypad.pressed → w.op = 0xF ∧ w.nn = 0x0A

instance (w : Word) (index address : Address) : Decidable (w.Stores index address) := by
  unfold Stores
  infer_instance

variable {w : Word} {m after : Machine}

theorem Confined.refl (w : Word) (m : Machine) : w.Confined m m where
  memory _ h := absurd rfl h
  values _ h := absurd rfl h
  index h := absurd rfl h
  stack h := absurd rfl h
  delay h := absurd rfl h
  sound h := absurd rfl h
  frame h := absurd rfl h
  redraw h := absurd rfl h
  random h := absurd rfl h
  execution h := absurd rfl h
  pressed h := absurd rfl h

theorem Confined.follow (h : w.Confined m after) (flow : Flow) :
    w.Confined m (after.follow flow) := by
  cases flow <;> exact { h with }

end Word

/-- The operations whose digit is at most three report no flag. -/
theorem Arithmetic.digit_mem (operation : Arithmetic) (a b : UInt8) :
    operation.digit ∈ [0x0, 0x1, 0x2, 0x3] ∧ (operation.apply a b).2 = none ∨
      operation.digit ∈ [0x4, 0x5, 0x6, 0x7, 0xE] := by
  cases operation <;> simp [digit, apply]

namespace Machine

variable {m : Machine}

/-! ## What single instructions write -/

theorem eq_of_get_calculate_ne {operation : Arithmetic} {x y z : Register}
    (h : (m.calculate operation x y).registers.get z ≠ m.registers.get z) :
    x = z ∨ operation.digit ∈ [0x4, 0x5, 0x6, 0x7, 0xE] ∧ Register.flag = z := by
  have hdigit := operation.digit_mem (m.registers.get x) (m.registers.get y)
  unfold calculate at h
  generalize operation.apply (m.registers.get x) (m.registers.get y) = result at h hdigit
  obtain ⟨value, _ | flag⟩ := result
  · exact Or.inl (Registers.eq_of_get_set_ne h)
  · rcases hdigit with ⟨-, hnone⟩ | hdigit
    · cases hnone
    · by_cases hflag : Register.flag = z
      · exact Or.inr ⟨hdigit, hflag⟩
      · have hkept : ((m.registers.set x value).setFlag flag).get z =
            (m.registers.set x value).get z := Registers.get_setFlag_of_ne _ _ (Ne.symm hflag)
        exact Or.inl (Registers.eq_of_get_set_ne (fun heq ↦ h (hkept.trans heq)))

theorem eq_of_get_addIndex_ne {x z : Register}
    (h : (m.addIndex x).registers.get z ≠ m.registers.get z) :
    m.compatibility.indexOverflowSetsFlag = true ∧ Register.flag = z := by
  unfold addIndex at h
  split at h
  · rename_i hsets
    exact ⟨hsets, Registers.eq_of_get_set_ne h⟩
  · exact absurd rfl h

/-- The bytes that a store at the index register changes lie in its range. -/
theorem index_le_of_store {memory : Memory} {data : List UInt8} {address : Address}
    (h : m.memory.store m.registers.index.val data = .ok memory)
    (hne : memory.bytes.get address ≠ m.memory.bytes.get address) :
    m.registers.index.val ≤ address.val ∧
      address.val < m.registers.index.val + data.length := by
  by_contra hout
  exact hne (Memory.get_of_store h (by omega))

end Machine

namespace Instruction

variable {w : Word} {m after : Machine} {i : Instruction} {flow : Flow}

/-- A step stays inside the footprint of the word that stands for its instruction. -/
theorem Step.confined (h : Step m i flow after) (hw : w.Encodes i) : w.Confined m after := by
  -- Each case names the parts that its instruction writes and takes the others from `m` itself.
  cases h with
  | clearScreen =>
      exact { Word.Confined.refl w m with
        frame := fun _ ↦ Or.inl hw
        redraw := fun _ ↦ Or.inl hw }
  | ret hpop => exact { Word.Confined.refl w m with stack := fun _ ↦ Or.inr hw }
  | readDelay x =>
      obtain ⟨hop, hnn, rfl⟩ := hw
      refine { Word.Confined.refl w m with values := fun z hz ↦ ?_ }
      obtain rfl := Registers.eq_of_get_set_ne hz
      exact .delay hop hnn
  | awaitKey x =>
      exact { Word.Confined.refl w m with
        execution := fun _ ↦ ⟨hw.1, hw.2.1⟩
        pressed := fun _ ↦ ⟨hw.1, hw.2.1⟩ }
  | setDelay x => exact { Word.Confined.refl w m with delay := fun _ ↦ ⟨hw.1, hw.2.1⟩ }
  | setSound x => exact { Word.Confined.refl w m with sound := fun _ ↦ ⟨hw.1, hw.2.1⟩ }
  | addIndex x =>
      obtain ⟨hop, hnn, rfl⟩ := hw
      have hvalues : ∀ z, (m.addIndex w.x).registers.get z ≠ m.registers.get z →
          w.Sets m.compatibility z := by
        intro z hz
        obtain ⟨hsets, rfl⟩ := Machine.eq_of_get_addIndex_ne hz
        exact .overflow hop hnn hsets
      obtain ⟨values, index, heq⟩ := m.exists_addIndex w.x
      rw [heq] at hvalues ⊢
      exact { Word.Confined.refl w m with
        values := hvalues
        index := fun _ ↦ Or.inr ⟨hop, Or.inl hnn⟩ }
  | selectGlyph x =>
      exact { Word.Confined.refl w m with index := fun _ ↦ Or.inr ⟨hw.1, Or.inr hw.2.1⟩ }
  | storeDecimal x hstore =>
      refine { Word.Confined.refl w m with memory := fun address hne ↦ ?_ }
      exact ⟨hw.1, Or.inl ⟨hw.2.1, Machine.index_le_of_store hstore hne⟩⟩
  | storeRegisters x hstore =>
      obtain ⟨hop, hnn, rfl⟩ := hw
      refine { Word.Confined.refl w m with memory := fun address hne ↦ ?_ }
      obtain ⟨hle, hlt⟩ := Machine.index_le_of_store hstore hne
      rw [Registers.length_upTo] at hlt
      exact ⟨hop, Or.inr ⟨hnn, hle, by omega⟩⟩
  | loadRegisters x hslice =>
      obtain ⟨hop, hnn, rfl⟩ := hw
      refine { Word.Confined.refl w m with values := fun z hz ↦ ?_ }
      have hlt := Registers.lt_of_get_fill_ne hz
      rw [Memory.length_of_slice hslice] at hlt
      exact .block hop hnn (Nat.le_of_lt_succ hlt)
  | arithmetic operation x y =>
      obtain ⟨hop, hn, rfl, rfl⟩ := hw
      have hvalues : ∀ z, (m.calculate operation w.x w.y).registers.get z ≠ m.registers.get z →
          w.Sets m.compatibility z := by
        intro z hz
        rcases Machine.eq_of_get_calculate_ne hz with rfl | ⟨hdigit, rfl⟩
        · rcases operation.digit_mem 0 0 with ⟨hdigit, -⟩ | hdigit
          · exact .value hop (hn ▸ hdigit)
          · exact .result hop (hn ▸ hdigit)
        · exact .flag hop (hn ▸ hdigit)
      obtain ⟨values, heq⟩ := m.exists_calculate operation w.x w.y
      rw [heq] at hvalues ⊢
      exact { Word.Confined.refl w m with values := hvalues }
  | call target hpush => exact { Word.Confined.refl w m with stack := fun _ ↦ Or.inl hw.1 }
  | loadByte x value =>
      obtain ⟨hop, rfl, -⟩ := hw
      refine { Word.Confined.refl w m with values := fun z hz ↦ ?_ }
      obtain rfl := Registers.eq_of_get_set_ne hz
      exact .byte (Or.inl hop)
  | addByte x value =>
      obtain ⟨hop, rfl, -⟩ := hw
      refine { Word.Confined.refl w m with values := fun z hz ↦ ?_ }
      obtain rfl := Registers.eq_of_get_set_ne hz
      exact .byte (Or.inr (Or.inl hop))
  | setIndex target => exact { Word.Confined.refl w m with index := fun _ ↦ Or.inl hw.1 }
  | random x bits =>
      obtain ⟨hop, rfl, -⟩ := hw
      refine { Word.Confined.refl w m with
        values := fun z hz ↦ ?_
        random := fun _ ↦ ⟨hop, rfl⟩ }
      obtain rfl := Registers.eq_of_get_set_ne hz
      exact .byte (Or.inr (Or.inr hop))
  | draw x y rows hslice =>
      refine { Word.Confined.refl w m with
        values := fun z hz ↦ ?_
        frame := fun _ ↦ Or.inr hw.1
        redraw := fun _ ↦ Or.inr hw.1 }
      obtain rfl := Registers.eq_of_get_set_ne hz
      exact .collision hw.1
  | _ => exact .refl w m

end Instruction

namespace Machine

variable {m : Machine} {w : Word} {status : Status}

/-! ## Cycles -/

theorem confined_cycle (hw : m.Fetches w) (h : m.cycle.result = .ok status) :
    w.Confined m m.cycle.machine := by
  obtain ⟨i, flow, after, hi, hstep, hmachine⟩ := exists_step_of_ok hw h
  rw [hmachine]
  exact (hstep.confined hi).follow flow

/-- A cycle stays inside the footprint of the word that it fetches, whatever its result. -/
theorem Fetches.confined (hw : m.Fetches w) : w.Confined m m.cycle.machine := by
  cases hresult : m.cycle.result with
  | ok status => exact confined_cycle hw hresult
  | error fault =>
      rw [machine_cycle_of_error hresult]
      split
      · exact .refl w m
      · exact (Word.Confined.refl w m).follow .next

/-- A cycle that fetches no word works on the keypad, the registers and the state of execution
at most. -/
theorem confined_or_exists_eq (m : Machine) :
    (∃ w, m.Fetches w ∧ w.Confined m m.cycle.machine) ∨
      ∃ keypad registers execution,
        m.cycle.machine = { m with keypad, registers, execution } := by
  cases m.turn with
  | @poll x awaiting eq =>
      rw [eq]
      exact Or.inr (m.exists_poll x)
  | unfetched running unfetched eq =>
      rw [eq]
      exact Or.inr ⟨_, _, _, rfl⟩
  | reserved fetches reserved eq => exact Or.inl ⟨_, fetches, fetches.confined⟩
  | fault fetches encodes fails machine_eq result_eq =>
      exact Or.inl ⟨_, fetches, fetches.confined⟩
  | step fetches encodes step machine_eq result_eq =>
      exact Or.inl ⟨_, fetches, fetches.confined⟩

theorem redraw_cycle_of_draws (hw : m.Fetches w) (h : m.cycle.result = .ok status)
    (hdraws : w = 0x00E0 ∨ w.op = 0xD) : m.cycle.machine.redraw = true := by
  obtain ⟨i, flow, after, hi, hstep, hmachine⟩ := exists_step_of_ok hw h
  obtain ⟨registers, hfollow⟩ := after.exists_follow flow
  rw [hmachine, hfollow]
  exact hstep.redraw_of_draws ((Instruction.draws_iff_of_encodes hi).mpr hdraws)

theorem redraw_cycle (hraised : m.redraw = true) : m.cycle.machine.redraw = true := by
  by_cases hdraws : m.DrawsNext
  · exact m.frame_cycle.1 hdraws
  · rw [(m.frame_cycle.2 hdraws).2, hraised]

/-- A cycle changes nothing outside of the footprint of its word. -/
theorem footprint_cycle (m : Machine) :
    (∀ w status, m.Fetches w → m.cycle.result = .ok status →
      w.Confined m m.cycle.machine ∧
        (w = 0x00E0 ∨ w.op = 0xD → m.cycle.machine.redraw = true)) ∧
      (m.redraw = true → m.cycle.machine.redraw = true) ∧
      m.cycle.machine.keypad.down = m.keypad.down ∧
      m.cycle.machine.compatibility = m.compatibility ∧
      m.cycle.machine.program = m.program := by
  refine ⟨?_, redraw_cycle, m.kept_cycle⟩
  intro w status hw h
  exact ⟨confined_cycle hw h, redraw_cycle_of_draws hw h⟩

/-- Storing two registers at `0x300` leaves the byte at `0x302` and the stack alone. -/
theorem footprint_cycle_load :
    let m := ((ofSeed 0).load { bytes := [0xA3, 0x00, 0xF1, 0x55] }).cycle.machine
    m.Fetches 0xF155 ∧ m.cycle.result = .ok .executed ∧
      m.cycle.machine.memory.bytes.get 0x302 = m.memory.bytes.get 0x302 ∧
      m.cycle.machine.stack = m.stack := by
  intro m
  have hrun : m.execution = .running ∧ m.fetch = .ok 0xF155 ∧
      m.cycle.result = .ok .executed ∧ m.registers.index = 0x300 := by
    decide +kernel
  obtain ⟨hexec, hfetch, hresult, hindex⟩ := hrun
  have hw : m.Fetches 0xF155 := ⟨hexec, hfetch⟩
  obtain ⟨hconfined, -⟩ := (footprint_cycle m).1 0xF155 .executed hw hresult
  refine ⟨hw, hresult, ?_, ?_⟩
  · by_contra hne
    have hstores := hconfined.memory 0x302 hne
    rw [hindex] at hstores
    revert hstores
    decide
  · by_contra hne
    have hstack := hconfined.stack hne
    revert hstack
    decide

end Machine
end Chip8
