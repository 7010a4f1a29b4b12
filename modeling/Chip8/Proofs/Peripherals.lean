import Chip8.Proofs.Cycles

/-!
# Peripherals

The timers, the keypad and the flag of the picture are the parts of a machine that its host
works on.  Most instructions use none of them, so a change that the host makes to them comes to
the same before a cycle as after it.  Here such a change is any function on each of the parts,
and each instruction that uses one of them says which changes it bears.
-/

namespace Chip8

/-- What an operation tells its host. -/
def Response.answer (response : Response) : Reply × List LogEntry :=
  (response.reply, response.log)

/-- A change of the parts that the host works on. -/
structure Change where
  timers : Timers → Timers := id
  keypad : Keypad → Keypad := id
  redraw : Bool → Bool := id

def Machine.adjust (m : Machine) (change : Change) : Machine :=
  { m with
    timers := change.timers m.timers
    keypad := change.keypad m.keypad
    redraw := change.redraw m.redraw }

section

variable {change : Change} {m after : Machine} {i : Instruction} {flow : Flow}

namespace Instruction

/-- The instruction neither sees the change nor overwrites it. -/
def Bears (change : Change) : Instruction → Prop
  | .clearScreen => change.redraw true = true
  | .draw .. => change.redraw true = true
  | .readDelay _ => ∀ timers, (change.timers timers).delay = timers.delay
  | .setDelay _ => ∀ timers delay,
      { change.timers timers with delay } = change.timers { timers with delay }
  | .setSound _ => ∀ timers sound,
      { change.timers timers with sound } = change.timers { timers with sound }
  | .skipIfKey _ => ∀ keypad key, (change.keypad keypad).isDown key = keypad.isDown key
  | .skipUnlessKey _ => ∀ keypad key, (change.keypad keypad).isDown key = keypad.isDown key
  | .awaitKey _ => ∀ keypad,
      (change.keypad keypad).discardPresses = change.keypad keypad.discardPresses
  | _ => True

end Instruction

namespace Machine

theorem calculate_adjust (m : Machine) (change : Change) (operation : Arithmetic)
    (x y : Register) :
    (m.adjust change).calculate operation x y =
      (m.calculate operation x y).adjust change := by
  have hregisters : (m.adjust change).registers = m.registers := rfl
  unfold calculate
  rw [hregisters]
  generalize operation.apply (m.registers.get x) (m.registers.get y) = result
  obtain ⟨value, _ | flag⟩ := result
  · rfl
  · rfl

theorem addIndex_adjust (m : Machine) (change : Change) (x : Register) :
    (m.adjust change).addIndex x = (m.addIndex x).adjust change := by
  have hcompatibility : (m.adjust change).compatibility = m.compatibility := rfl
  unfold addIndex
  rw [hcompatibility]
  split
  · rfl
  · rfl

theorem follow_adjust (m : Machine) (change : Change) (flow : Flow) :
    (m.adjust change).follow flow = (m.follow flow).adjust change := by
  cases flow <;> rfl

end Machine

namespace Instruction

theorem fault?_adjust (m : Machine) (change : Change) (i : Instruction) :
    i.fault? (m.adjust change) = i.fault? m := by
  cases i <;> rfl

/-- A step of an instruction that bears a change leads to the changed machine. -/
theorem Step.adjust (h : Step m i flow after) (hi : i.Bears change) :
    Step (m.adjust change) i flow (after.adjust change) := by
  cases h with
  | clearScreen =>
      have hstep := Step.clearScreen (m := m.adjust change)
      have hraised : change.redraw true = true := hi
      rw [← hraised] at hstep
      exact hstep
  | ret hpop => exact .ret hpop
  | skipIfKey x =>
      have hdown := hi m.keypad (Nibble.ofByte (m.registers.get x))
      rw [← hdown]
      exact .skipIfKey x
  | skipUnlessKey x =>
      have hdown := hi m.keypad (Nibble.ofByte (m.registers.get x))
      rw [← hdown]
      exact .skipUnlessKey x
  | readDelay x =>
      have hstep := Step.readDelay (m := m.adjust change) x
      have hdelay : (m.adjust change).timers.delay = m.timers.delay := hi m.timers
      rw [hdelay] at hstep
      exact hstep
  | awaitKey x =>
      have hdiscard : (m.adjust change).awaitKey x = (m.awaitKey x).adjust change := by
        simp only [Machine.awaitKey, Machine.adjust, hi m.keypad]
      rw [← hdiscard]
      exact .awaitKey x
  | setDelay x =>
      have hstep := Step.setDelay (m := m.adjust change) x
      have hset : { (m.adjust change).timers with delay := (m.adjust change).registers.get x } =
          change.timers { m.timers with delay := m.registers.get x } :=
        hi m.timers (m.registers.get x)
      rw [hset] at hstep
      exact hstep
  | setSound x =>
      have hstep := Step.setSound (m := m.adjust change) x
      have hset : { (m.adjust change).timers with sound := (m.adjust change).registers.get x } =
          change.timers { m.timers with sound := m.registers.get x } :=
        hi m.timers (m.registers.get x)
      rw [hset] at hstep
      exact hstep
  | addIndex x =>
      rw [← Machine.addIndex_adjust]
      exact .addIndex x
  | storeDecimal x hstore => exact .storeDecimal x hstore
  | storeRegisters x hstore => exact .storeRegisters x hstore
  | loadRegisters x hslice => exact .loadRegisters x hslice
  | arithmetic operation x y =>
      rw [← Machine.calculate_adjust]
      exact .arithmetic operation x y
  | call target hpush => exact .call target hpush
  | draw x y rows hslice =>
      have hstep := Step.draw (m := m.adjust change) x y rows hslice
      have hraised : change.redraw true = true := hi
      rw [Machine.drawn, ← hraised] at hstep
      exact hstep
  | _ => constructor

end Instruction

namespace Machine

/-- The cycle of a running machine does the same after a change that its instruction bears,
and leaves the changed machine. -/
theorem cycle_adjust (change : Change) (hrun : m.execution = .running)
    (hbears : ∀ w i, m.Fetches w → w.Encodes i → i.Bears change) :
    (m.adjust change).cycle =
      { m.cycle with machine := m.cycle.machine.adjust change } := by
  cases hfetch : m.fetch with
  | error fault =>
      rw [cycle_of_fetch_error hrun hfetch,
        cycle_of_fetch_error (m := m.adjust change) hrun hfetch]
  | ok w =>
      have hw : m.Fetches w := ⟨hrun, hfetch⟩
      have hw' : (m.adjust change).Fetches w := ⟨hrun, hfetch⟩
      rcases Instruction.reserved_or_encodes w with hres | ⟨i, hi⟩
      · rw [cycle_of_reserved hw hres, cycle_of_reserved hw' hres]
        rfl
      · cases hresult : i.execute.run m with
        | error fault after =>
            obtain ⟨hfault, -⟩ := Instruction.run_execute_eq_error_iff.mp hresult
            have hfault' : i.fault? (m.adjust change) = some fault := by
              rw [Instruction.fault?_adjust, hfault]
            rw [cycle_eq_of_fault hw hi hfault, cycle_eq_of_fault hw' hi hfault']
            cases fault.isFatal <;> rfl
        | ok flow after =>
            have hstep := Instruction.run_execute_eq_ok_iff.mp hresult
            have hstep' := hstep.adjust (hbears w i hw hi)
            rw [cycle_eq_of_step hw hi hstep, cycle_eq_of_step hw' hi hstep', follow_adjust]
            rfl

/-- A poll for a key does not use the other parts. -/
theorem cycle_adjust_of_awaiting {x : Register} (change : Change)
    (hwait : m.execution = .awaitingKey x) (hkeypad : change.keypad = id) :
    (m.adjust change).cycle =
      { m.cycle with machine := m.cycle.machine.adjust change } := by
  have hwait' : (m.adjust change).execution = .awaitingKey x := hwait
  have hsame : (m.adjust change).keypad = m.keypad := by
    rw [adjust, hkeypad]
    rfl
  rw [cycle_of_awaiting hwait, cycle_of_awaiting hwait']
  cases h : m.keypad.press? with
  | none =>
      rw [poll_of_press_eq_none h, poll_of_press_eq_none (hsame ▸ h), hsame]
      simp only [adjust, hkeypad, id]
  | some key =>
      rw [poll_of_press_eq_some h, poll_of_press_eq_some (hsame ▸ h), hsame]
      simp only [adjust, hkeypad, id]

end Machine

end
end Chip8
