import Chip8.Proofs.Faults

/-!
# The program counter

The word at the program counter and the state before the cycle decide where a machine goes
on.  Jumps, calls and returns name the next address themselves, a wait stays where it is,
and all other words go on after themselves or, if their condition holds, one word later.
-/

namespace Chip8
namespace Machine

/-- The word passes over the word after it. -/
def Skips (m : Machine) (w : Word) : Prop :=
  w.op = 0x3 ∧ m.registers.get w.x = w.nn ∨
    w.op = 0x4 ∧ m.registers.get w.x ≠ w.nn ∨
    w.op = 0x5 ∧ w.n = 0x0 ∧ m.registers.get w.x = m.registers.get w.y ∨
    w.op = 0x9 ∧ w.n = 0x0 ∧ m.registers.get w.x ≠ m.registers.get w.y ∨
    w.op = 0xE ∧ w.nn = 0x9E ∧
      m.keypad.isDown (Nibble.ofByte (m.registers.get w.x)) = true ∨
    w.op = 0xE ∧ w.nn = 0xA1 ∧
      m.keypad.isDown (Nibble.ofByte (m.registers.get w.x)) = false

instance (m : Machine) (w : Word) : Decidable (m.Skips w) := by
  unfold Skips
  infer_instance

/-- The address at which a machine goes on after the word at its program counter. -/
def successor (m : Machine) (w : Word) : Address :=
  if w.op = 0x1 ∨ w.op = 0x2 then w.nnn
  else if w.op = 0xB then Fin.ofNat 4096 (w.nnn.val + (m.registers.get 0).toNat)
  else if w = 0x00EE then m.stack.toList.getLastD m.programCounter
  else if w.op = 0xF ∧ w.nn = 0x0A then m.programCounter
  else if m.Skips w then Fin.ofNat 4096 (m.programCounter.val + 4)
  else Fin.ofNat 4096 (m.programCounter.val + 2)

/-- The next cycle of the machine ends with a fatal fault. -/
def Halts (m : Machine) : Prop :=
  ∃ fault, m.cycle.result = .error fault ∧ fault.isFatal = true

end Machine

/-- Where a step that is taken at an address leads. -/
def Flow.target (site : Address) : Flow → Address
  | .next => Fin.ofNat 4096 (site.val + 2)
  | .skip => Fin.ofNat 4096 (site.val + 4)
  | .jump target => target
  | .wait => site

theorem Flow.target_skipIf (site : Address) (condition : Bool) :
    (Flow.skipIf condition).target site =
      if condition = true then Fin.ofNat 4096 (site.val + 4)
      else Fin.ofNat 4096 (site.val + 2) := by
  cases condition <;> rfl

theorem Machine.programCounter_follow (m : Machine) (flow : Flow) :
    (m.follow flow).programCounter = flow.target m.programCounter := by
  cases flow <;> rfl

namespace Instruction

variable {m after : Machine} {w : Word} {i : Instruction} {flow : Flow}

/-- A step leads to the address that its word prescribes. -/
theorem Step.target_eq (h : Step m i flow after) (hw : w.Encodes i) :
    flow.target m.programCounter = m.successor w := by
  have hret : w.op ≠ 0x0 → w ≠ 0x00EE := by
    rintro hop rfl
    exact hop rfl
  cases h with
  | clearScreen =>
      cases hw
      rfl
  | ret hpop =>
      cases hw
      simp [Machine.successor, Flow.target, CallStack.toList_of_pop hpop]
  | skipIfKey | skipUnlessKey | skipIfEqual | skipUnlessEqual | skipIfByte | skipUnlessByte =>
      simp only [Word.Encodes] at hw
      simp [Machine.successor, Machine.Skips, Flow.target_skipIf, hw, hret]
  | _ =>
      simp only [Word.Encodes] at hw
      simp [Machine.successor, Machine.Skips, Flow.target, Address.offset, hw, hret]

end Instruction

namespace Machine

variable {m : Machine}

/-- Only a call of machine code ends with a fault and goes on all the same. -/
theorem successor_of_fault {w : Word} {fault : Fault} (h : m.Faults w fault)
    (hfatal : fault.isFatal = false) : m.successor w = m.programCounter.offset 2 := by
  cases h with
  | machineCode hlt hcls hret =>
      have hop := Word.lt_iff_op_eq_zero.mp hlt
      simp [successor, Skips, Address.offset, hop, hret]
  | _ => cases hfatal

theorem programCounter_cycle_of_goes_on {w : Word} (hw : m.Fetches w) (hgoes : ¬m.Halts) :
    m.cycle.machine.programCounter = m.successor w := by
  cases hresult : m.cycle.result with
  | error fault =>
      have hfatal : fault.isFatal = false := by
        by_contra htrue
        exact hgoes ⟨fault, hresult, by simpa using htrue⟩
      rw [successor_of_fault ((result_cycle_eq_error_iff hw).mp hresult) hfatal,
        machine_cycle_of_error hresult, hfatal]
      rfl
  | ok status =>
      obtain ⟨i, flow, after, hi, hstep, hmachine⟩ := exists_step_of_ok hw hresult
      rw [hmachine, programCounter_follow, hstep.kept.1, hstep.target_eq hi]

/-- A running machine that does not halt goes on where the word at its program counter
prescribes, and one that halts stays where it is. -/
theorem programCounter_cycle (hrun : m.execution = .running)
    (hpc : m.programCounter.val ≤ 0xFFE) :
    ∃ w, m.fetch = .ok w ∧
      (m.Halts → m.cycle.machine.programCounter = m.programCounter) ∧
      (¬m.Halts → m.cycle.machine.programCounter = m.successor w) := by
  have hne : m.programCounter ≠ 0xFFF := by
    intro heq
    rw [heq] at hpc
    exact absurd hpc (by decide)
  refine ⟨_, fetch_of_ne hne, ?_, ?_⟩
  · rintro ⟨fault, hresult, hfatal⟩
    rw [machine_cycle_of_error hresult, if_pos hfatal]
  · exact programCounter_cycle_of_goes_on ⟨hrun, fetch_of_ne hne⟩

/-- A call of machine code in the last two bytes leads to the start of memory, and a word
whose condition holds passes over the next one. -/
theorem programCounter_cycle_wraps :
    ((ofSeed 0).jump 0xFFE).cycle.machine.programCounter = 0x000 ∧
      ((ofSeed 0).load { bytes := [0x30, 0x00] }).cycle.machine.programCounter = 0x204 := by
  constructor
  · obtain ⟨w, hfetch, -, hgoes⟩ := programCounter_cycle (m := (ofSeed 0).jump 0xFFE) rfl
      (by decide)
    have hrun : ((ofSeed 0).jump 0xFFE).fetch = .ok 0x0000 ∧
        ((ofSeed 0).jump 0xFFE).cycle.result = .error (.machineCodeCall 0x0000 0xFFE) := by
      decide +kernel
    obtain rfl : w = 0x0000 := by simpa [hfetch] using hrun.1
    apply hgoes
    rintro ⟨fault, hresult, hfatal⟩
    obtain rfl : Fault.machineCodeCall 0x0000 0xFFE = fault := by simpa [hrun.2] using hresult
    cases hfatal
  · obtain ⟨w, hfetch, -, hgoes⟩ :=
      programCounter_cycle (m := (ofSeed 0).load { bytes := [0x30, 0x00] }) rfl (by decide)
    have hrun : ((ofSeed 0).load { bytes := [0x30, 0x00] }).fetch = .ok 0x3000 ∧
        ((ofSeed 0).load { bytes := [0x30, 0x00] }).cycle.result = .ok .executed := by
      decide +kernel
    obtain rfl : w = 0x3000 := by simpa [hfetch] using hrun.1
    apply hgoes
    rintro ⟨fault, hresult, -⟩
    rw [hrun.2] at hresult
    cases hresult

end Machine
end Chip8
