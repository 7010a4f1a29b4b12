import Chip8.Proofs.Bare.Safety
import Chip8.Proofs.StalePresses

/-!
# Suspended machines

A machine that waits for a key keeps the register for the key in its state of execution, and
the program counter stays at the instruction that began the wait.  The two agree in every
state that a new machine can reach: while the machine waits, nothing moves the program counter
or writes to memory, and a restart ends the wait.
-/

namespace Chip8
namespace Machine

variable {m n : Machine} {x : Register}

/-- If the machine waits for a key, the instruction of this wait is at its program counter. -/
def WaitsInPlace (m : Machine) : Prop :=
  ∀ x, m.execution = .awaitingKey x → ∃ w, m.fetch = .ok w ∧ w.Encodes (.awaitKey x)

theorem waitsInPlace_of_running (h : m.execution = .running) : m.WaitsInPlace := by
  intro x hwait
  rw [h] at hwait
  cases hwait

/-- Only the state of execution and the word at the program counter matter. -/
theorem WaitsInPlace.congr (h : m.WaitsInPlace) (hexecution : n.execution = m.execution)
    (hfetch : n.fetch = m.fetch) : n.WaitsInPlace := by
  intro x hwait
  rw [hexecution] at hwait
  rw [hfetch]
  exact h x hwait

theorem waitsInPlace_cycle_of_beginsWait (h : m.BeginsWait) : m.cycle.machine.WaitsInPlace := by
  obtain ⟨w, x, hw, hi⟩ := h
  rw [(cycle_of_step hw hi (.awaitKey x)).1]
  intro y hwait
  cases hwait
  exact ⟨w, hw.fetch_eq, hi⟩

/-- A poll leaves the wait as it is or ends it. -/
theorem WaitsInPlace.poll (h : m.WaitsInPlace) (x : Register) :
    (m.poll x).machine.WaitsInPlace := by
  cases hpress : m.keypad.press? with
  | none =>
      rw [poll_of_press_eq_none hpress]
      exact h.congr rfl rfl
  | some key =>
      rw [poll_of_press_eq_some hpress]
      exact waitsInPlace_of_running rfl

theorem WaitsInPlace.cycle (h : m.WaitsInPlace) : m.cycle.machine.WaitsInPlace := by
  cases hexec : m.execution with
  | awaitingKey x =>
      rw [cycle_of_awaiting hexec]
      exact h.poll x
  | running =>
      by_cases hbegins : m.BeginsWait
      · exact waitsInPlace_cycle_of_beginsWait hbegins
      · exact waitsInPlace_of_running (execution_cycle hexec hbegins)

theorem WaitsInPlace.perform (h : m.WaitsInPlace) (operation : Operation) :
    (m.perform operation).machine.WaitsInPlace := by
  by_cases hrestart : operation.Restarts
  · obtain ⟨fresh, hfresh⟩ := exists_reset_of_restarts hrestart m
    rw [hfresh]
    exact waitsInPlace_of_running rfl
  · by_cases hcycle : operation = .cycle
    · subst hcycle
      exact h.cycle
    · obtain ⟨hexecution, hfetch, -⟩ := (m.hostVariant_perform hrestart hcycle).kept
      exact h.congr hexecution hfetch

theorem WaitsInPlace.run (h : m.WaitsInPlace) (history : List Operation) :
    (m.run history).WaitsInPlace := by
  induction history generalizing m with
  | nil => exact h
  | cons operation history ih => exact ih (h.perform operation)

theorem toNat_of_encodes_awaitKey {w : Word} (h : w.Encodes (.awaitKey x)) :
    w.toNat = 0xF00A + 0x100 * x.val := by
  obtain ⟨hop, hnn, rfl⟩ := h
  have hlow := w.toNat_nn
  rw [hnn] at hlow
  rw [w.toNat_eq_nibbles, hop]
  change 10 = _ at hlow
  change 4096 * 15 + _ + _ + _ = _
  omega

theorem programCounter_le_of_fetch {w : Word} (h : m.fetch = .ok w) :
    m.programCounter.val ≤ 0xFFE := by
  have hpc := m.programCounter.isLt
  by_contra hlast
  have hval : m.programCounter.val = 0xFFF := by omega
  have herror := fetch_eq_error_iff.mpr ⟨Fin.ext hval, rfl⟩
  rw [h] at herror
  cases herror

theorem execution_of_bare {register : UInt8}
    (h : (BareMachine.of m).execution = .awaitingKey register) :
    m.execution = .awaitingKey (Nibble.ofByte register) := by
  change BareExecution.of m.execution = _ at h
  cases hexec : m.execution with
  | running =>
      rw [hexec] at h
      cases h
  | awaitingKey x =>
      rw [hexec] at h
      cases h
      rw [Nibble.ofByte_ofNat]

/-- A machine that waits for a key stands at the instruction that began the wait.  So the next
press goes to the register that this instruction names, and the instruction after it follows. -/
theorem waits_at_await_key (random : RandomSource) (history : List Operation) :
    let m := ({ random } : Machine).run history
    -- The bare machine keeps the register as a byte, which is always a digit.
    (∃ bare : BareMachine, (BareMachine.start random >>= fun b ↦ b.run history) = .ok bare ∧
      ∀ register, bare.execution = .awaitingKey register →
        register < 16 ∧ m.execution = .awaitingKey (Nibble.ofByte register)) ∧
      ∀ x, m.execution = .awaitingKey x →
        m.programCounter.val ≤ 0xFFE ∧
          ∃ w : Word, m.memory.word m.programCounter.val = .ok w ∧
            w.toNat = 0xF00A + 0x100 * x.val ∧ w.x = x ∧
            (m.keypad.press? = none →
              m.cycle.result = .ok .awaitingKey ∧ m.cycle.machine.registers = m.registers) ∧
            ∀ key, m.keypad.press? = some key →
              m.cycle.result = .ok .executed ∧
                m.cycle.machine =
                  { m with
                    keypad := m.keypad.discardPresses
                    registers :=
                      { m.registers.set w.x (UInt8.ofNat key.val) with
                        programCounter := Fin.ofNat 4096 (m.programCounter.val + 2) }
                    execution := .running } := by
  intro m
  constructor
  · refine ⟨_, BareMachine.start_run random history, ?_⟩
    intro register hwait
    exact ⟨(BareMachine.wellFormed_of m).awaiting register hwait, execution_of_bare hwait⟩
  · intro x hwait
    have hplace : m.WaitsInPlace := (waitsInPlace_of_running rfl).run history
    obtain ⟨w, hfetch, hi⟩ := hplace x hwait
    have hregister : w.x = x := hi.2.2.symm
    refine ⟨programCounter_le_of_fetch hfetch, w, hfetch, toNat_of_encodes_awaitKey hi,
      hregister, ?_, ?_⟩
    · intro hnone
      rw [cycle_of_awaiting hwait, poll_of_press_eq_none hnone]
      exact ⟨rfl, rfl⟩
    · intro key hpress
      rw [cycle_of_awaiting hwait, poll_of_press_eq_some hpress, hregister]
      exact ⟨rfl, rfl⟩

/-- A program that writes the instruction of its wait to the last two bytes of memory. -/
theorem waits_at_await_key_last_word :
    let m := ({ random := { seed := 0 } } : Machine).run
      [.load [0x60, 0xF5, 0x61, 0x0A, 0xAF, 0xFE, 0xF1, 0x55, 0x1F, 0xFE],
        .cycle, .cycle, .cycle, .cycle, .cycle, .cycle, .setKey 0x07 true]
    m.execution = .awaitingKey 5 ∧ m.keypad.press? = some 7 ∧
      m.memory.word m.programCounter.val = .ok 0xF50A ∧
      m.cycle.machine.registers.get 5 = 7 ∧ m.cycle.machine.programCounter = 0 := by
  intro m
  have hrun : m.execution = .awaitingKey 5 ∧ m.keypad.press? = some 7 ∧
      m.programCounter = 0xFFE := by
    decide +kernel
  obtain ⟨hwait, hpress, hpc⟩ := hrun
  obtain ⟨-, hplace⟩ := waits_at_await_key { seed := 0 }
    [.load [0x60, 0xF5, 0x61, 0x0A, 0xAF, 0xFE, 0xF1, 0x55, 0x1F, 0xFE],
      .cycle, .cycle, .cycle, .cycle, .cycle, .cycle, .setKey 0x07 true]
  obtain ⟨-, w, hword, hval, hx, -, hresume⟩ := hplace 5 hwait
  obtain ⟨-, hmachine⟩ := hresume 7 hpress
  have hw : w = 0xF50A := UInt16.toNat_inj.mp hval
  -- For any machine and address, as the machine at hand would be run to compare its own.
  have hget : ∀ (n : Machine) (pc : Address),
      ({ n.registers.set 5 7 with programCounter := pc } : Registers).get 5 = 7 :=
    fun n _ ↦ Registers.get_set_self n.registers 5 7
  refine ⟨hwait, hpress, hw ▸ hword, ?_, ?_⟩
  · rw [hmachine, hx]
    exact hget _ _
  · rw [hmachine]
    change Fin.ofNat 4096 (m.programCounter.val + 2) = 0
    rw [hpc]
    rfl

end Machine
end Chip8
