import Chip8.Proofs.Faults
import Chip8.Proofs.Histories

/-!
# Halted machines

Whether a cycle ends with a fault depends on the state of execution, the memory, the registers
and the call stack.  A host works on other parts unless it restarts the machine, and a cycle
that ends with a fatal fault works on none.  So a machine that halted stays in its place and
gives the same fault to every cycle until a restart.
-/

namespace Chip8
namespace Machine

variable {m n : Machine} {fault : Fault} {operation : Operation} {history : List Operation}

theorem HostVariant.fault?_eq (h : HostVariant m n) (i : Instruction) :
    i.fault? n = i.fault? m := by
  obtain ⟨_, _, _, _, rfl⟩ := h
  cases i <;> rfl

theorem HostVariant.fetches {w : Word} (h : HostVariant m n) (hw : m.Fetches w) :
    n.Fetches w where
  running := h.kept.1.trans hw.running
  fetch_eq := h.kept.2.1.trans hw.fetch_eq

/-- A fault does not depend on the parts that a host works on. -/
theorem HostVariant.result_cycle_of_error (h : HostVariant m n)
    (herror : m.cycle.result = .error fault) : n.cycle.result = .error fault := by
  cases m.turn with
  | @poll x awaiting eq =>
      obtain ⟨status, hstatus⟩ := m.exists_result_poll x
      rw [eq, hstatus] at herror
      cases herror
  | unfetched running unfetched eq =>
      obtain ⟨hrun, hfetch, -⟩ := h.kept
      rw [eq] at herror
      rw [cycle_of_fetch_error (hrun.trans running) (hfetch.trans unfetched)]
      exact herror
  | reserved fetches reserved eq =>
      rw [eq] at herror
      rw [cycle_of_reserved (h.fetches fetches) reserved, h.kept.2.2]
      exact herror
  | @fault w i other fetches encodes fails machine_eq result_eq =>
      rw [← h.fault?_eq i] at fails
      rw [(cycle_of_fault (h.fetches fetches) encodes fails).2, ← result_eq]
      exact herror
  | step fetches encodes step machine_eq result_eq =>
      rw [result_eq] at herror
      cases herror

/-- The cycles of the machine end with a fatal fault. -/
structure Halted (m : Machine) (fault : Fault) : Prop where
  result_cycle : m.cycle.result = .error fault
  fatal : fault.isFatal = true

theorem Halted.machine_cycle (h : m.Halted fault) : m.cycle.machine = m := by
  rw [machine_cycle_of_error h.result_cycle, if_pos h.fatal]

theorem Halted.of_variant (h : m.Halted fault) (hvariant : HostVariant m n) :
    n.Halted fault where
  result_cycle := hvariant.result_cycle_of_error h.result_cycle
  fatal := h.fatal

theorem Halted.variant_perform (h : m.Halted fault) (hrestart : ¬operation.Restarts) :
    HostVariant m (m.perform operation).machine := by
  by_cases hcycle : operation = .cycle
  · subst hcycle
    rw [perform, h.machine_cycle]
    exact .refl m
  · exact m.hostVariant_perform hrestart hcycle

theorem Halted.variant_run (h : m.Halted fault)
    (hrestart : ∀ operation ∈ history, ¬operation.Restarts) : HostVariant m (m.run history) := by
  refine run_induction (P := fun _ n ↦ HostVariant m n) (.refl m) ?_ history hrestart
  intro history operation hop ih
  exact ih.trans ((h.of_variant ih).variant_perform hop)

/-- Every cycle of the history has the same fault as its result. -/
theorem Halted.result_of_mem_responses (h : m.Halted fault)
    (hrestart : ∀ operation ∈ history, ¬operation.Restarts) {response : Response}
    (hmem : response ∈ m.responses history) {result : Except Fault Status}
    (hreply : response.reply = .cycled result) : result = .error fault := by
  induction history generalizing m with
  | nil => cases hmem
  | cons operation history ih =>
      obtain ⟨hop, hrest⟩ := List.forall_mem_cons.mp hrestart
      rcases List.mem_cons.mp hmem with rfl | hlater
      · cases operation with
        | cycle =>
            obtain rfl : m.cycle.result = result := by simpa [perform] using hreply
            exact h.result_cycle
        | load bytes =>
            simp only [perform, loadBytes] at hreply
            split at hreply <;> cases hreply
        | _ => cases hreply
      · exact ih (h.of_variant (h.variant_perform hop)) hrest hlater

/-- A machine that halted, through every history without a restart. -/
theorem halted_until_restart (h : m.cycle.result = .error fault) (hfatal : fault.isFatal = true)
    (hrestart : ∀ operation ∈ history, ¬operation.Restarts) :
    let n := m.cycle.machine.run history
    (∀ response ∈ m.cycle.machine.responses history, ∀ result,
      response.reply = .cycled result → result = .error fault) ∧
      n.cycle.result = .error fault ∧ n.memory = m.memory ∧ n.registers = m.registers ∧
      n.stack = m.stack ∧ n.random = m.random ∧ n.frame = m.frame := by
  have hhalted : m.Halted fault := ⟨h, hfatal⟩
  rw [hhalted.machine_cycle]
  intro n
  have hvariant : HostVariant m n := hhalted.variant_run hrestart
  refine ⟨fun response hmem result hreply ↦
    hhalted.result_of_mem_responses hrestart hmem hreply,
    hvariant.result_cycle_of_error h, ?_⟩
  obtain ⟨_, _, _, _, heq⟩ := hvariant
  rw [heq]
  exact ⟨rfl, rfl, rfl, rfl, rfl⟩

/-- A return without a call halts for good, whatever keys, ticks and settings follow. -/
theorem halted_until_restart_underflow :
    let m := (ofSeed 0).load { bytes := [0x00, 0xEE] }
    let history : List Operation :=
      [.setKey 0x05 true, .cycle, .tickTimers, .configure { indexOverflowSetsFlag := true },
        .takeRedraw, .releaseKeys]
    m.cycle.result = .error (.stackUnderflow 0x200) ∧
      (m.cycle.machine.run history).cycle.result = .error (.stackUnderflow 0x200) ∧
      (m.cycle.machine.run history).registers = m.registers := by
  intro m history
  have hfault : m.cycle.result = .error (.stackUnderflow 0x200) := by decide +kernel
  have hrestart : ∀ operation ∈ history, ¬operation.Restarts := by
    simp [history, Operation.Restarts]
  obtain ⟨-, hagain, -, hregisters, -⟩ := halted_until_restart hfault rfl hrestart
  exact ⟨hfault, hagain, hregisters⟩

end Machine
end Chip8
