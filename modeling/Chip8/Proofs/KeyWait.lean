import Chip8.Proofs.Cycles
import Chip8.Proofs.Histories

/-!
# Waiting for a key

An instruction that awaits a key forgets the presses so far, so only what the host
reports during the wait can end it.  While the host reports no press the machine stands
still, and the first cycle that finds presses takes the lowest key and consumes all of
them.
-/

namespace Chip8

/-! ## Presses of a history -/

namespace Operation

/-- A press of the key was reported and the keys were not all released since. -/
def Pressed (history : List Operation) (key : Key) : Prop :=
  ∃ before pin after, history = before ++ .setKey pin true :: after ∧
    Nibble.ofByte pin = key ∧ .releaseKeys ∉ after

/-- No cycle of the history finds a press that was reported in the history before. -/
def Unanswered (history : List Operation) : Prop :=
  ∀ before after, history = before ++ .cycle :: after → ∀ key, ¬Pressed before key

variable {history : List Operation} {operation : Operation} {key : Key}

theorem not_pressed_nil : ¬Pressed [] key := by
  rintro ⟨before, pin, after, h, -, -⟩
  simp at h

theorem pressed_append_singleton :
    Pressed (history ++ [operation]) key ↔
      (∃ pin, operation = .setKey pin true ∧ Nibble.ofByte pin = key) ∨
        operation ≠ .releaseKeys ∧ Pressed history key := by
  constructor
  · rintro ⟨before, pin, after, h, hkey, hkept⟩
    rcases append_singleton_eq_iff.mp h with ⟨rfl, -, rfl⟩ | ⟨rest, rfl, rfl⟩
    · exact Or.inl ⟨pin, rfl, hkey⟩
    · simp only [List.mem_append, List.mem_singleton, not_or] at hkept
      exact Or.inr ⟨fun heq ↦ hkept.2 heq.symm, before, pin, rest, rfl, hkey, hkept.1⟩
  · rintro (⟨pin, rfl, hkey⟩ | ⟨hne, before, pin, after, rfl, hkey, hkept⟩)
    · exact ⟨history, pin, [], rfl, hkey, by simp⟩
    · refine ⟨before, pin, after ++ [operation], by simp, hkey, ?_⟩
      simp only [List.mem_append, List.mem_singleton, not_or]
      exact ⟨hkept, fun heq ↦ hne heq.symm⟩

theorem unanswered_append_singleton :
    Unanswered (history ++ [operation]) ↔
      Unanswered history ∧ (operation = .cycle → ∀ key, ¬Pressed history key) :=
  forall_cycle_append_singleton

end Operation

namespace Machine

variable {m n : Machine} {w : Word} {x : Register} {history : List Operation} {key : Key}

/-- The machine `n` has waited for a key since the machine `m`, through a history. -/
structure Waiting (m : Machine) (x : Register) (history : List Operation) (n : Machine) :
    Prop where
  execution : n.execution = .awaitingKey x
  registers : n.registers = m.registers
  pressed : ∀ key, n.keypad.isPressed key = true ↔ Operation.Pressed history key

theorem cycle_of_awaitKey (hw : m.Fetches w) (h : w.Encodes (.awaitKey x)) :
    m.cycle.machine = m.awaitKey x ∧ m.cycle.result = .ok .awaitingKey :=
  cycle_of_step hw h (.awaitKey x)

theorem waiting_awaitKey (m : Machine) (x : Register) : Waiting m x [] (m.awaitKey x) where
  execution := rfl
  registers := rfl
  pressed key := by simp [awaitKey, Operation.not_pressed_nil]

theorem Waiting.cycle_of_not_pressed (h : Waiting m x history n)
    (hnone : ∀ key, ¬Operation.Pressed history key) :
    n.cycle = { machine := n, result := .ok .awaitingKey } := by
  have hpressed (key : Key) : n.keypad.isPressed key = false := by
    rw [← Bool.not_eq_true, h.pressed]
    exact hnone key
  rw [cycle_of_awaiting h.execution, poll_of_press_eq_none (Keypad.press?_eq_none_iff.mpr hpressed),
    Keypad.discardPresses_of_forall hpressed]

theorem Waiting.cycle_of_pressed (h : Waiting m x history n)
    (hkey : Operation.Pressed history key) (hlow : ∀ k < key, ¬Operation.Pressed history k) :
    n.cycle =
      { machine :=
          { n with
            keypad := n.keypad.discardPresses
            registers := (m.registers.set x (UInt8.ofNat key.val)).advance 2
            execution := .running }
        result := .ok .executed
        log := [.resuming key] } := by
  have hpress : n.keypad.press? = some key := by
    refine Keypad.press?_eq_some_iff.mpr ⟨(h.pressed key).mpr hkey, fun k hk ↦ ?_⟩
    rw [← Bool.not_eq_true, h.pressed]
    exact hlow k hk
  rw [cycle_of_awaiting h.execution, poll_of_press_eq_some hpress, h.registers]

theorem Waiting.perform {operation : Operation} (h : Waiting m x history n)
    (hrestart : ¬operation.Restarts)
    (hcycle : operation = .cycle → ∀ key, ¬Operation.Pressed history key) :
    Waiting m x (history ++ [operation]) (n.perform operation).machine := by
  cases operation with
  | cycle =>
      have hstill : (n.perform .cycle).machine = n := by
        rw [Machine.perform, h.cycle_of_not_pressed (hcycle rfl)]
      rw [hstill]
      refine ⟨h.execution, h.registers, fun key ↦ ?_⟩
      simp [Operation.pressed_append_singleton, h.pressed]
  | setKey pin isDown =>
      refine ⟨h.execution, h.registers, fun key ↦ ?_⟩
      rw [Operation.pressed_append_singleton]
      simp [Machine.perform, setKey, Keypad.isPressed_set, h.pressed, or_comm]
  | releaseKeys =>
      refine ⟨h.execution, h.registers, fun key ↦ ?_⟩
      rw [Operation.pressed_append_singleton]
      simp [Machine.perform, releaseKeys]
  | reset => exact absurd trivial hrestart
  | load bytes =>
      rw [Machine.perform, machine_loadBytes_of_not_restarts hrestart]
      refine ⟨h.execution, h.registers, fun key ↦ ?_⟩
      simp [Operation.pressed_append_singleton, h.pressed]
  | _ =>
      refine ⟨h.execution, h.registers, fun key ↦ ?_⟩
      rw [Operation.pressed_append_singleton, ← h.pressed]
      simp [Machine.perform, tickTimers, takeRedraw, configure]

/-- A wait lasts through every history without a restart in which no cycle finds a press. -/
theorem waiting_run (m : Machine) (x : Register)
    (hrestart : ∀ operation ∈ history, ¬operation.Restarts)
    (hcycle : Operation.Unanswered history) :
    Waiting m x history ((m.awaitKey x).run history) := by
  -- The wait is its own invariant, as a history that was not answered begins with one.
  refine run_induction (P := fun history n ↦
    Operation.Unanswered history → Waiting m x history n) ?_ ?_ history hrestart hcycle
  · intro _
    exact waiting_awaitKey m x
  · intro history operation hop ih hunanswered
    obtain ⟨hhistory, hlast⟩ := Operation.unanswered_append_singleton.mp hunanswered
    exact (ih hhistory).perform hop hlast

/-- A wait for a key, from the instruction that begins it to the cycle that ends it. -/
theorem key_wait (hw : m.Fetches w) (hop : w.op = 0xF) (hnn : w.nn = 0x0A) :
    m.cycle.result = .ok .awaitingKey ∧
      ∀ history : List Operation, (∀ operation ∈ history, ¬operation.Restarts) →
        Operation.Unanswered history →
          let n := m.cycle.machine.run history
          ((∀ key, ¬Operation.Pressed history key) →
            n.cycle = { machine := n, result := .ok .awaitingKey }) ∧
          (∀ key, Operation.Pressed history key →
            (∀ k < key, ¬Operation.Pressed history k) →
              n.cycle =
                { machine :=
                    { n with
                      keypad := n.keypad.discardPresses
                      registers :=
                        { m.registers.set w.x (UInt8.ofNat key.val) with
                          programCounter := Fin.ofNat 4096 (m.programCounter.val + 2) }
                      execution := .running }
                  result := .ok .executed
                  log := [.resuming key] }) ∧
          -- A press counts for one wait only: another wait needs another press.
          (∀ (later second : List Operation) (v : Word),
            (n.cycle.machine.run later).Fetches v → v.op = 0xF → v.nn = 0x0A →
              (∀ operation ∈ second, ¬operation.Restarts) → Operation.Unanswered second →
                (∀ key, ¬Operation.Pressed second key) →
                  ((n.cycle.machine.run later).cycle.machine.run second).cycle.result =
                    .ok .awaitingKey) ∧
          (n.perform .reset).machine.execution = .running ∧
          ∀ bytes : List UInt8, bytes.length ≤ 3584 →
            (n.perform (.load bytes)).machine.execution = .running := by
  obtain ⟨hmachine, hresult⟩ := cycle_of_awaitKey hw (x := w.x) ⟨hop, hnn, rfl⟩
  refine ⟨hresult, fun history hrestart hcycle ↦ ?_⟩
  rw [hmachine]
  have hwait := waiting_run m w.x hrestart hcycle
  refine ⟨hwait.cycle_of_not_pressed, fun key hkey hlow ↦ hwait.cycle_of_pressed hkey hlow,
    ?_, rfl, ?_⟩
  · intro later second v hv hvop hvnn hsecond hunanswered hnone
    obtain ⟨hagain, -⟩ := cycle_of_awaitKey hv (x := v.x) ⟨hvop, hvnn, rfl⟩
    rw [hagain, (waiting_run _ v.x hsecond hunanswered).cycle_of_not_pressed hnone]
  · intro bytes hbytes
    have hrestarts : (Operation.load bytes).Restarts := hbytes
    obtain ⟨fresh, hfresh⟩ := exists_reset_of_restarts hrestarts
      ((m.awaitKey w.x).run history)
    rw [hfresh]
    rfl

/-- A key that was pressed before the wait does not end it, and a key of a later press does. -/
theorem key_wait_load :
    let m := ((ofSeed 0).load { bytes := [0xF5, 0x0A] }).setKey 0x03 true
    m.cycle.machine.cycle.result = .ok .awaitingKey ∧
      (m.cycle.machine.run [.setKey 0x1B true]).cycle.machine.registers.get 5 = 0x0B := by
  have hw : (((ofSeed 0).load { bytes := [0xF5, 0x0A] }).setKey 0x03 true).Fetches 0xF50A :=
    ⟨rfl, by decide +kernel⟩
  obtain ⟨-, hwait⟩ := key_wait hw rfl rfl
  have hnil : Operation.Unanswered [] := by
    intro before after h
    simp at h
  have hsingle : Operation.Unanswered [.setKey 0x1B true] :=
    Operation.unanswered_append_singleton.mpr ⟨hnil, fun h ↦ by cases h⟩
  have honly (k : Key) (h : Operation.Pressed [.setKey 0x1B true] k) : k = 0xB := by
    have hlast : Operation.Pressed ([] ++ [.setKey 0x1B true]) k := h
    rcases Operation.pressed_append_singleton.mp hlast with ⟨pin, hpin, rfl⟩ | ⟨-, hpressed⟩
    · cases hpin
      rfl
    · exact absurd hpressed Operation.not_pressed_nil
  have hkey : Operation.Pressed [.setKey 0x1B true] 0xB :=
    ⟨[], 0x1B, [], rfl, rfl, by simp⟩
  obtain ⟨hstill, -⟩ := hwait [] (by simp) hnil
  obtain ⟨-, hresume, -⟩ := hwait [.setKey 0x1B true] (by simp [Operation.Restarts]) hsingle
  have hcycle := hresume 0xB hkey (fun k hk h ↦ absurd (honly k h) (Fin.ne_of_lt hk))
  intro m
  constructor
  · rw [← run_nil m.cycle.machine, hstill (fun _ ↦ Operation.not_pressed_nil)]
  · rw [hcycle]
    rfl

end Machine
end Chip8
