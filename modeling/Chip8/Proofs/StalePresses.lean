import Chip8.Proofs.Footprints
import Chip8.Proofs.Peripherals
import Chip8.Proofs.Restarts

/-!
# Stale presses

A wait for a key begins by discarding the recorded presses, and only a wait looks at them.  So
nobody can tell which presses a running machine has on record, however the machine is driven
from then on.  The record may differ while two machines run, and it is the same while they wait.
-/

namespace Chip8

/-- Reports from the keypad that pins are up, one after the other. -/
def Operation.releases (pins : List UInt8) : List Operation :=
  pins.map (fun pin ↦ .setKey pin false)

namespace Machine

variable {m n : Machine} {operation : Operation}

/-- The machine with other presses on record. -/
def remember (m : Machine) (pressed : Vector Bool 16) : Machine :=
  { m with keypad := { m.keypad with pressed } }

/-- The machines differ at most in their recorded presses, and not even in these while they
wait for a key. -/
structure Confusable (m n : Machine) : Prop where
  machine_eq : n = m.remember n.keypad.pressed
  pressed_eq : ∀ x, m.execution = .awaitingKey x → n.keypad.pressed = m.keypad.pressed

/-- The word at the program counter of a running machine begins a wait for a key. -/
def BeginsWait (m : Machine) : Prop := ∃ w x, m.Fetches w ∧ w.Encodes (.awaitKey x)

theorem Confusable.refl (m : Machine) : m.Confusable m where
  machine_eq := rfl
  pressed_eq _ _ := rfl

theorem confusable_remember {pressed : Vector Bool 16}
    (h : ∀ x, m.execution = .awaitingKey x → pressed = m.keypad.pressed) :
    m.Confusable (m.remember pressed) where
  machine_eq := rfl
  pressed_eq := h

theorem confusable_remember_of_running (pressed : Vector Bool 16)
    (hrun : m.execution = .running) : m.Confusable (m.remember pressed) := by
  apply confusable_remember
  intro x hwait
  rw [hrun] at hwait
  cases hwait

theorem Confusable.eq_of_awaiting {x : Register} (h : m.Confusable n)
    (hwait : m.execution = .awaitingKey x) : n = m := by
  rw [h.machine_eq, h.pressed_eq x hwait]
  rfl

/-! ## Cycles -/

/-- A wait discards what was on record before it. -/
theorem cycle_remember_of_beginsWait (h : m.BeginsWait) (pressed : Vector Bool 16) :
    (m.remember pressed).cycle = m.cycle := by
  obtain ⟨w, x, hw, hi⟩ := h
  have hw' : (m.remember pressed).Fetches w := ⟨hw.running, hw.fetch_eq⟩
  rw [cycle_eq_of_step hw hi (.awaitKey x), cycle_eq_of_step hw' hi (.awaitKey x)]
  rfl

theorem cycle_remember (hrun : m.execution = .running) (h : ¬m.BeginsWait)
    (pressed : Vector Bool 16) :
    (m.remember pressed).cycle =
      { m.cycle with machine := m.cycle.machine.remember pressed } := by
  let replace : Change := { keypad := fun keypad ↦ { keypad with pressed } }
  refine cycle_adjust replace hrun ?_
  intro w i hw hi
  cases i with
  | awaitKey x => exact absurd ⟨w, x, hw, hi⟩ h
  | clearScreen | draw => rfl
  | readDelay => exact fun _ ↦ rfl
  | setDelay | setSound | skipIfKey | skipUnlessKey => exact fun _ _ ↦ rfl
  | _ => trivial

/-- A running machine goes on running unless it begins to wait. -/
theorem execution_cycle (hrun : m.execution = .running) (h : ¬m.BeginsWait) :
    m.cycle.machine.execution = .running := by
  cases hresult : m.cycle.result with
  | error fault =>
      rw [machine_cycle_of_error hresult]
      split
      · exact hrun
      · exact hrun
  | ok status =>
      cases hfetch : m.fetch with
      | error fault =>
          rw [cycle_of_fetch_error hrun hfetch] at hresult
          cases hresult
      | ok w =>
          have hw : m.Fetches w := ⟨hrun, hfetch⟩
          by_contra hwaits
          have hconfined := confined_cycle hw hresult
          obtain ⟨hop, hnn⟩ := hconfined.execution (fun heq ↦ hwaits (heq.trans hrun))
          exact h ⟨w, w.x, hw, hop, hnn, rfl⟩

theorem Confusable.cycle (h : m.Confusable n) :
    n.cycle.result = m.cycle.result ∧ n.cycle.log = m.cycle.log ∧
      m.cycle.machine.Confusable n.cycle.machine := by
  cases hexec : m.execution with
  | awaitingKey x =>
      rw [h.eq_of_awaiting hexec]
      exact ⟨rfl, rfl, .refl _⟩
  | running =>
      rw [h.machine_eq]
      by_cases hwait : m.BeginsWait
      · rw [cycle_remember_of_beginsWait hwait]
        exact ⟨rfl, rfl, .refl _⟩
      · rw [cycle_remember hexec hwait]
        exact ⟨rfl, rfl, confusable_remember_of_running _ (execution_cycle hexec hwait)⟩

/-! ## Histories -/

/-- An operation has the same answer on both machines and leaves them confusable. -/
theorem Confusable.perform (h : m.Confusable n) (operation : Operation) :
    (n.perform operation).answer = (m.perform operation).answer ∧
      (m.perform operation).machine.Confusable (n.perform operation).machine := by
  obtain ⟨pressed, rfl, hpressed⟩ : ∃ pressed, n = m.remember pressed ∧
      ∀ x, m.execution = .awaitingKey x → pressed = m.keypad.pressed :=
    ⟨_, h.machine_eq, h.pressed_eq⟩
  cases operation with
  | cycle =>
      obtain ⟨hresult, hlog, hmachine⟩ := h.cycle
      refine ⟨?_, hmachine⟩
      simp only [Machine.perform, Response.answer, hresult, hlog]
  | setKey pin isDown =>
      refine ⟨rfl, rfl, fun x hwait ↦ ?_⟩
      obtain rfl := hpressed x hwait
      rfl
  | releaseKeys => exact ⟨rfl, .refl _⟩
  | reset => exact ⟨rfl, .refl _⟩
  | load bytes =>
      rcases Nat.lt_or_ge programCapacity bytes.length with hlarge | hfits
      · simp only [Machine.perform, loadBytes_of_lt hlarge]
        exact ⟨rfl, h⟩
      · simp only [Machine.perform, loadBytes_of_le hfits]
        exact ⟨rfl, .refl _⟩
  | tickTimers | takeRedraw | configure => exact ⟨rfl, confusable_remember hpressed⟩

/-- A whole history is answered alike, and the machines are confusable after it. -/
theorem Confusable.run (h : m.Confusable n) (history : List Operation) :
    (n.responses history).map Response.answer = (m.responses history).map Response.answer ∧
      (m.run history).Confusable (n.run history) := by
  induction history generalizing m n with
  | nil => exact ⟨rfl, h⟩
  | cons operation history ih =>
      obtain ⟨hanswer, hnext⟩ := h.perform operation
      obtain ⟨hanswers, hlast⟩ := ih hnext
      refine ⟨?_, hlast⟩
      simp only [responses, List.map_cons, hanswer, hanswers]

/-! ## Releasing keys one by one -/

/-- Keys that are released one by one stay on record. -/
theorem exists_keypad_run_releases (m : Machine) (pins : List UInt8) :
    ∃ keypad : Keypad, m.run (Operation.releases pins) = { m with keypad } ∧
      keypad.pressed = m.keypad.pressed ∧
      ∀ key, keypad.isDown key = true →
        m.keypad.isDown key = true ∧ ∀ pin ∈ pins, Nibble.ofByte pin ≠ key := by
  induction pins generalizing m with
  | nil => exact ⟨m.keypad, rfl, rfl, by simp⟩
  | cons pin pins ih =>
      obtain ⟨keypad, hrun, hpressed, hdown⟩ := ih (m.setKey pin false)
      refine ⟨keypad, hrun, hpressed, fun key hkey ↦ ?_⟩
      obtain ⟨hset, hrest⟩ := hdown key hkey
      have hbefore : Nibble.ofByte pin ≠ key ∧ m.keypad.isDown key = true := by
        simpa [setKey, Keypad.isDown_set] using hset
      refine ⟨hbefore.2, fun other hmem ↦ ?_⟩
      rcases List.mem_cons.mp hmem with rfl | hmem
      · exact hbefore.1
      · exact hrest other hmem

/-- Releasing every key one by one does what releasing all of them at once does, but it keeps
the record. -/
theorem run_releases_of_forall {pins : List UInt8}
    (h : ∀ key, ∃ pin ∈ pins, Nibble.ofByte pin = key) :
    m.run (Operation.releases pins) = m.releaseKeys.remember m.keypad.pressed := by
  obtain ⟨keypad, hrun, hpressed, hdown⟩ := m.exists_keypad_run_releases pins
  have hup : keypad.down = Vector.replicate 16 false := by
    apply Keypad.eq_replicate_of_forall
    intro key
    by_contra hkey
    obtain ⟨pin, hmem, hpin⟩ := h key
    obtain ⟨-, hother⟩ := hdown key (by simpa [Keypad.isDown] using hkey)
    exact hother pin hmem hpin
  have hkeypad : keypad = { m.keypad.releaseAll with pressed := m.keypad.pressed } := by
    rw [← hpressed, Keypad.releaseAll, ← hup]
  rw [hrun, hkeypad]
  rfl

/-- Recorded presses do not show before the next wait, and then they are gone. -/
theorem stale_presses_unobservable :
    (∀ (m n : Machine), m.Confusable n → ∀ history : List Operation,
      (n.responses history).map Response.answer = (m.responses history).map Response.answer ∧
        (m.run history).Confusable (n.run history)) ∧
      ∀ (m : Machine) (pins : List UInt8), m.execution = .running →
        (∀ key, ∃ pin ∈ pins, Nibble.ofByte pin = key) →
          let released := m.run (Operation.releases pins)
          (∀ history : List Operation,
            (released.responses history).map Response.answer =
                (m.releaseKeys.responses history).map Response.answer ∧
              (m.releaseKeys.run history).Confusable (released.run history)) ∧
            (∀ key, m.releaseKeys.keypad.isPressed key = false) ∧
            released.keypad.pressed = m.keypad.pressed := by
  refine ⟨fun m n h history ↦ h.run history, ?_⟩
  intro m pins hrun hpins released
  have hreleased : released = m.releaseKeys.remember m.keypad.pressed :=
    run_releases_of_forall hpins
  have hconfusable : m.releaseKeys.Confusable released := by
    rw [hreleased]
    exact confusable_remember_of_running m.keypad.pressed hrun
  refine ⟨hconfusable.run, fun key ↦ Keypad.isPressed_releaseAll m.keypad key, ?_⟩
  rw [hreleased]
  rfl

/-- It makes no difference to a wait whether the keys were released one by one or all at once
before it, or whether the key that was down then is on record. -/
theorem stale_presses_unobservable_load :
    let m := ((ofSeed 0).load { bytes := [0xF5, 0x0A] }).setKey 0x03 true
    let pins : List UInt8 := [0, 1, 2, 3, 4, 5, 6, 7, 8, 9, 10, 11, 12, 13, 14, 15]
    let released := m.run (Operation.releases pins)
    m.execution = .running ∧
      (released.responses [.cycle, .cycle]).map Response.answer =
        (m.releaseKeys.responses [.cycle, .cycle]).map Response.answer ∧
      released.keypad.isPressed 0x3 = true ∧ m.releaseKeys.keypad.isPressed 0x3 = false ∧
      ((m.remember (Vector.replicate 16 false)).run [.cycle, .setKey 0x05 true, .cycle]).registers =
        (m.run [.cycle, .setKey 0x05 true, .cycle]).registers := by
  intro m pins released
  have hrun : m.execution = .running := rfl
  have hpins : ∀ key, ∃ pin ∈ pins, Nibble.ofByte pin = key := by decide
  obtain ⟨hconfusable, hreleases⟩ := stale_presses_unobservable
  have hforgotten := confusable_remember_of_running (Vector.replicate 16 false) hrun
  obtain ⟨hanswers, herased, hkept⟩ := hreleases m pins hrun hpins
  obtain ⟨hrelease, -⟩ := hanswers [.cycle, .cycle]
  obtain ⟨-, hsame⟩ := hconfusable m _ hforgotten [.cycle, .setKey 0x05 true, .cycle]
  refine ⟨hrun, hrelease, ?_, herased 0x3, ?_⟩
  · rw [Keypad.isPressed, hkept]
    rfl
  · rw [hsame.machine_eq]
    rfl

end Machine
end Chip8
