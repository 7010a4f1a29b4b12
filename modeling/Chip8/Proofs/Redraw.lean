import Chip8.Proofs.Faults
import Chip8.Proofs.Peripherals

/-!
# The picture and its flag

The flag of a machine tells whether its picture changed since it was last taken.  Nothing
that a machine does depends on the flag, so machines that differ in it alone stay alike.
Whatever changes the picture raises the flag, and only taking the picture lowers it.
-/

namespace Chip8
namespace Instruction

variable {m after : Machine} {i : Instruction} {flow : Flow}

/-- The instructions that work on the picture. -/
inductive Draws : Instruction → Prop
  | clearScreen : Draws .clearScreen
  | draw (x y : Register) (rows : Nibble) : Draws (.draw x y rows)

theorem Step.redraw_of_draws (h : Step m i flow after) (hi : i.Draws) :
    after.redraw = true := by
  cases hi with
  | clearScreen =>
      cases h
      rfl
  | draw x y rows =>
      cases h
      rfl

theorem Step.flow_of_draws (h : Step m i flow after) (hi : i.Draws) : flow = .next := by
  cases hi with
  | clearScreen =>
      cases h
      rfl
  | draw x y rows =>
      cases h
      rfl

theorem Step.frame_of_not_draws (h : Step m i flow after) (hi : ¬i.Draws) :
    after.frame = m.frame ∧ after.redraw = m.redraw := by
  cases h with
  | clearScreen => exact absurd .clearScreen hi
  | draw x y rows _ => exact absurd (.draw x y rows) hi
  | addIndex x =>
      obtain ⟨values, index, heq⟩ := m.exists_addIndex x
      rw [heq]
      exact ⟨rfl, rfl⟩
  | arithmetic operation x y =>
      obtain ⟨values, heq⟩ := m.exists_calculate operation x y
      rw [heq]
      exact ⟨rfl, rfl⟩
  | _ => exact ⟨rfl, rfl⟩

theorem draws_iff_of_encodes {w : Word} (h : w.Encodes i) :
    i.Draws ↔ w = 0x00E0 ∨ w.op = 0xD := by
  constructor
  · intro hi
    cases hi with
    | clearScreen => exact Or.inl h
    | draw x y rows => exact Or.inr h.1
  · rintro (hcls | hop)
    · rw [eq_of_encodes h (j := .clearScreen) hcls]
      exact .clearScreen
    · rw [eq_of_encodes h (j := .draw w.x w.y w.n) ⟨hop, rfl, rfl, rfl⟩]
      exact .draw _ _ _

end Instruction

namespace Machine

variable {m n after : Machine} {i : Instruction} {flow : Flow}

/-! ## Machines that differ in the flag -/

/-- The machine with its flag raised or lowered. -/
def mark (m : Machine) (redraw : Bool) : Machine := { m with redraw }

theorem cycle_mark_true (m : Machine) :
    (m.mark true).cycle = { m.cycle with machine := m.cycle.machine.mark true } := by
  let raise : Change := { redraw := fun _ ↦ true }
  cases hexec : m.execution with
  | awaitingKey x => exact cycle_adjust_of_awaiting raise hexec rfl
  | running =>
      refine cycle_adjust raise hexec ?_
      intro w i _ _
      -- An instruction that works on the picture raises the flag all the same.
      cases i with
      | clearScreen | draw => rfl
      | readDelay | awaitKey => exact fun _ ↦ rfl
      | setDelay | setSound | skipIfKey | skipUnlessKey => exact fun _ _ ↦ rfl
      | _ => trivial

/-- A cycle does the same with either flag. -/
theorem cycle_mark (m : Machine) (redraw : Bool) :
    (∃ kept, (m.mark redraw).cycle.machine = m.cycle.machine.mark kept) ∧
      (m.mark redraw).cycle.result = m.cycle.result := by
  -- Once their flags are raised the two machines are one, and so are their cycles.
  have hraised : ((m.mark redraw).mark true).cycle = (m.mark true).cycle := rfl
  rw [cycle_mark_true, cycle_mark_true, Cycle.mk.injEq] at hraised
  obtain ⟨hmachine, hresult, -⟩ := hraised
  refine ⟨⟨(m.mark redraw).cycle.machine.redraw, ?_⟩, hresult⟩
  calc
    (m.mark redraw).cycle.machine =
        ((m.mark redraw).cycle.machine.mark true).mark (m.mark redraw).cycle.machine.redraw := rfl
    _ = (m.cycle.machine.mark true).mark (m.mark redraw).cycle.machine.redraw := by rw [hmachine]
    _ = m.cycle.machine.mark (m.mark redraw).cycle.machine.redraw := rfl

/-- Two machines that differ in the flag at most. -/
def Alike (m n : Machine) : Prop := ∃ redraw, n = m.mark redraw

theorem Alike.refl (m : Machine) : Alike m m := ⟨m.redraw, rfl⟩

theorem Alike.symm (h : Alike m n) : Alike n m := by
  obtain ⟨redraw, rfl⟩ := h
  exact ⟨m.redraw, rfl⟩

theorem Alike.trans {k : Machine} (h : Alike m n) (hnext : Alike n k) : Alike m k := by
  obtain ⟨first, rfl⟩ := h
  obtain ⟨second, rfl⟩ := hnext
  exact ⟨second, rfl⟩

theorem alike_takeRedraw (m : Machine) : Alike m m.takeRedraw := ⟨false, rfl⟩

theorem Alike.result_cycle (h : Alike m n) : n.cycle.result = m.cycle.result := by
  obtain ⟨redraw, rfl⟩ := h
  exact (m.cycle_mark redraw).2

/-- Every operation keeps machines alike. -/
theorem Alike.perform (h : Alike m n) (operation : Operation) :
    Alike (m.perform operation).machine (n.perform operation).machine := by
  obtain ⟨redraw, rfl⟩ := h
  cases operation with
  | cycle => exact (m.cycle_mark redraw).1
  | takeRedraw => exact ⟨false, rfl⟩
  | reset => exact ⟨true, rfl⟩
  | load bytes =>
      simp only [Machine.perform, loadBytes]
      split
      · exact ⟨true, rfl⟩
      · exact ⟨redraw, rfl⟩
  | _ => exact ⟨redraw, rfl⟩

/-! ## Changes of the picture -/

/-- The next cycle of the machine executes an instruction that works on the picture. -/
def DrawsNext (m : Machine) : Prop :=
  ∃ w, m.Fetches w ∧ (w = 0x00E0 ∨ w.op = 0xD) ∧ m.cycle.result = .ok .executed

theorem not_drawsNext_of_error {fault : Fault} (h : m.cycle.result = .error fault) :
    ¬m.DrawsNext := by
  rintro ⟨w, -, -, hresult⟩
  rw [h] at hresult
  cases hresult

/-- A cycle that works on the picture raises the flag, and any other cycle leaves both
alone. -/
theorem frame_cycle (m : Machine) :
    (m.DrawsNext → m.cycle.machine.redraw = true) ∧
      (¬m.DrawsNext →
        m.cycle.machine.frame = m.frame ∧ m.cycle.machine.redraw = m.redraw) := by
  cases m.turn with
  | @poll x awaiting eq =>
      constructor
      · rintro ⟨w, hw, -, -⟩
        rw [hw.running] at awaiting
        cases awaiting
      · intro _
        obtain ⟨keypad, registers, execution, hpoll⟩ := m.exists_poll x
        rw [eq, hpoll]
        exact ⟨rfl, rfl⟩
  | unfetched running unfetched eq =>
      have hnot : ¬m.DrawsNext := not_drawsNext_of_error (by rw [eq])
      rw [eq]
      exact ⟨fun h ↦ absurd h hnot, fun _ ↦ ⟨rfl, rfl⟩⟩
  | reserved fetches reserved eq =>
      have hnot : ¬m.DrawsNext := not_drawsNext_of_error (by rw [eq])
      rw [eq]
      exact ⟨fun h ↦ absurd h hnot, fun _ ↦ ⟨rfl, rfl⟩⟩
  | fault fetches encodes fails machine_eq result_eq =>
      have hnot : ¬m.DrawsNext := not_drawsNext_of_error result_eq
      refine ⟨fun h ↦ absurd h hnot, fun _ ↦ ?_⟩
      rw [machine_eq]
      split
      · exact ⟨rfl, rfl⟩
      · exact ⟨rfl, rfl⟩
  | @step w i flow after fetches encodes step machine_eq result_eq =>
      obtain ⟨registers, hfollow⟩ := after.exists_follow flow
      rw [machine_eq, hfollow]
      constructor
      · rintro ⟨v, hv, hdraws, -⟩
        rw [hv.unique fetches] at hdraws
        exact step.redraw_of_draws ((Instruction.draws_iff_of_encodes encodes).mpr hdraws)
      · intro hnot
        apply step.frame_of_not_draws
        intro hi
        have hflow : flow = .next := step.flow_of_draws hi
        subst hflow
        exact hnot ⟨w, fetches, (Instruction.draws_iff_of_encodes encodes).mp hi, result_eq⟩

end Machine
end Chip8
