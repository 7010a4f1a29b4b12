import Chip8.Proofs.ProgramCounter
import Chip8.Proofs.Restarts
import Chip8.Proofs.Subroutines
import Mathlib.Algebra.Ring.Parity

/-!
# Alignment

A restarted machine begins at an even address, every advance is even and addresses wrap around
at an even one.  So the program counter and the return addresses stay even until a jump leads
to an odd address, and only from an odd address does a machine get to the last byte of memory,
where no word fits.
-/

namespace Chip8

theorem Address.even_offset {address : Address} {k : Nat} (h : Even address.val) (hk : Even k) :
    Even (address.offset k).val := by
  have hsum := h.add hk
  rw [Address.val_offset]
  rw [Nat.even_iff] at hsum ⊢
  omega

namespace Machine

variable {m : Machine} {w : Word} {target : Nat} {history : List Operation}
  {operation : Operation}

/-- The next cycle of the machine executes a jump or a call.  The target of a jump with an offset
is the sum before it wraps around. -/
def JumpsTo (m : Machine) (target : Nat) : Prop :=
  ∃ w status, m.Fetches w ∧ m.cycle.result = .ok status ∧
    ((w.op = 0x1 ∨ w.op = 0x2) ∧ target = w.nnn.val ∨
      w.op = 0xB ∧ target = w.nnn.val + (m.registers.get 0).toNat)

/-- Every jump and every call of the history leads to an even address. -/
def JumpsEven (m : Machine) (history : List Operation) : Prop :=
  ∀ before after, history = before ++ .cycle :: after →
    ∀ target, (m.run before).JumpsTo target → Even target

theorem jumpsEven_nil : m.JumpsEven [] := by
  intro before after h
  simp at h

theorem jumpsEven_append_singleton :
    m.JumpsEven (history ++ [operation]) ↔
      m.JumpsEven history ∧
        (operation = .cycle → ∀ target, (m.run history).JumpsTo target → Even target) :=
  Operation.forall_cycle_append_singleton

theorem JumpsEven.of_append {before after : List Operation} (h : m.JumpsEven (before ++ after)) :
    m.JumpsEven before := by
  rintro earlier later rfl
  apply h earlier (later ++ after)
  rw [List.append_assoc, List.cons_append]

/-- The machine is at an even address and returns to even addresses only. -/
structure Aligned (m : Machine) : Prop where
  programCounter : Even m.programCounter.val
  stack : ∀ address ∈ m.stack.toList, Even address.val

theorem Aligned.advance (h : m.Aligned) {k : Nat} (hk : Even k) : (m.advance k).Aligned :=
  ⟨Address.even_offset h.programCounter hk, h.stack⟩

theorem aligned_of_restarts {start : Operation} (hstart : start.Restarts) (m : Machine) :
    (m.perform start).machine.Aligned := by
  obtain ⟨n, hreset⟩ := exists_reset_of_restarts hstart m
  have hrestarted := n.restarted_reset
  rw [hreset]
  constructor
  · rw [hrestarted.programCounter]
    decide
  · rw [hrestarted.stack]
    simp

theorem HostVariant.aligned {n : Machine} (h : HostVariant m n) (hm : m.Aligned) : n.Aligned := by
  obtain ⟨_, _, _, _, rfl⟩ := h
  exact ⟨hm.programCounter, hm.stack⟩

/-! ## One cycle -/

/-- An instruction that is executed leads from even addresses to an even one, unless it is a
jump. -/
theorem Aligned.even_successor (h : m.Aligned) (hw : m.Fetches w) {status : Status}
    (hresult : m.cycle.result = .ok status) (hjumps : ∀ target, m.JumpsTo target → Even target) :
    Even (m.successor w).val := by
  unfold successor
  split_ifs with hjump hoffset hret hwait hskips
  · exact hjumps _ ⟨w, status, hw, hresult, Or.inl ⟨hjump, rfl⟩⟩
  · have hsum := hjumps _ ⟨w, status, hw, hresult, Or.inr ⟨hoffset, rfl⟩⟩
    rw [Nat.even_iff] at hsum ⊢
    rw [Fin.val_ofNat]
    omega
  · have htop : m.stack.toList.getLastD m.programCounter ∈ m.programCounter :: m.stack.toList :=
      List.getLastD_mem_cons
    rcases List.mem_cons.mp htop with hempty | hmem
    · rw [hempty]
      exact h.programCounter
    · exact h.stack _ hmem
  · exact h.programCounter
  · exact Address.even_offset h.programCounter (by decide)
  · exact Address.even_offset h.programCounter (by decide)

theorem Aligned.even_programCounter_cycle (h : m.Aligned)
    (hjumps : ∀ target, m.JumpsTo target → Even target) :
    Even m.cycle.machine.programCounter.val := by
  cases m.turn with
  | @poll x awaiting eq =>
      rw [eq]
      cases hpress : m.keypad.press? with
      | none =>
          rw [poll_of_press_eq_none hpress]
          exact h.programCounter
      | some key =>
          rw [poll_of_press_eq_some hpress]
          exact Address.even_offset h.programCounter (by decide)
  | unfetched running unfetched eq =>
      rw [eq]
      exact h.programCounter
  | reserved fetches reserved eq =>
      rw [eq]
      exact h.programCounter
  | fault fetches encodes fails machine_eq result_eq =>
      rw [machine_eq]
      split
      · exact h.programCounter
      · exact (h.advance (by decide)).programCounter
  | @step w i flow after fetches encodes step machine_eq result_eq =>
      rw [machine_eq, programCounter_follow, step.kept.1, step.target_eq encodes]
      exact h.even_successor fetches result_eq hjumps

/-- What is on the stack after a cycle was there before, or is the address after a call. -/
theorem mem_stack_cycle {address : Address} (h : address ∈ m.cycle.machine.stack.toList) :
    address ∈ m.stack.toList ∨ address = m.programCounter.offset 2 := by
  cases htransfer : m.transfer? with
  | none =>
      rw [stack_cycle_of_none htransfer] at h
      exact Or.inl h
  | some transfer =>
      cases transfer with
      | call site =>
          obtain ⟨i, flow, after, hstep, hcall, -⟩ := exists_step_of_transfer htransfer
          rw [stack_cycle_of_call htransfer, List.mem_append, List.mem_singleton,
            (hstep.stack_of_call hcall).1] at h
          exact h
      | ret =>
          rw [stack_cycle_of_ret htransfer]
          exact Or.inl (List.mem_append_left _ h)

theorem Aligned.cycle (h : m.Aligned) (hjumps : ∀ target, m.JumpsTo target → Even target) :
    m.cycle.machine.Aligned := by
  refine ⟨h.even_programCounter_cycle hjumps, ?_⟩
  intro address hmem
  rcases mem_stack_cycle hmem with hold | rfl
  · exact h.stack address hold
  · exact Address.even_offset h.programCounter (by decide)

/-! ## Runs -/

theorem Aligned.run (h : m.Aligned) (hrestart : ∀ operation ∈ history, ¬operation.Restarts)
    (hjumps : m.JumpsEven history) : (m.run history).Aligned := by
  refine run_induction (P := fun history n ↦ m.JumpsEven history → n.Aligned) ?_ ?_ history
    hrestart hjumps
  · intro _
    exact h
  · intro history operation hop ih hjumps
    obtain ⟨hhistory, hlast⟩ := jumpsEven_append_singleton.mp hjumps
    by_cases hne : operation = .cycle
    · subst hne
      exact (ih hhistory).cycle (hlast rfl)
    · exact ((m.run history).hostVariant_perform hop hne).aligned (ih hhistory)

/-- Only the last address has no room for a word. -/
theorem programCounter_of_fetchBounds {address : Nat}
    (h : m.cycle.result = .error (.fetchBounds address)) :
    m.programCounter = 0xFFF ∧ address = 0xFFF := by
  rcases faults_of_error h with ⟨hlast, hfault⟩ | ⟨w, hw, hfaults⟩
  · cases hfault
    exact ⟨hlast, rfl⟩
  · cases hfaults

theorem Aligned.result_ne_fetchBounds (h : m.Aligned) (address : Nat) :
    m.cycle.result ≠ .error (.fetchBounds address) := by
  intro hresult
  have heven := h.programCounter
  rw [(programCounter_of_fetchBounds hresult).1] at heven
  revert heven
  decide

theorem exists_odd_jump (h : ¬m.JumpsEven history) :
    ∃ before after target, history = before ++ .cycle :: after ∧
      (m.run before).JumpsTo target ∧ Odd target := by
  unfold JumpsEven at h
  push Not at h
  obtain ⟨before, after, hsplit, target, hjump, hodd⟩ := h
  exact ⟨before, after, target, hsplit, hjump, Nat.not_even_iff_odd.mp hodd⟩

/-- A machine runs off the end of memory only after a jump to an odd address. -/
theorem odd_jump_before_fetchBounds (m : Machine) {start : Operation} (hstart : start.Restarts)
    {history : List Operation} (hrestart : ∀ operation ∈ history, ¬operation.Restarts) :
    let first := (m.perform start).machine
    (first.JumpsEven history → ∀ before after, history = before ++ after →
        let n := first.run before
        Even n.programCounter.val ∧ (∀ address ∈ n.stack.toList, Even address.val) ∧
          ∀ address, n.cycle.result ≠ .error (.fetchBounds address)) ∧
      ∀ before after address, history = before ++ after →
        (first.run before).cycle.result = .error (.fetchBounds address) →
          address = 0xFFF ∧
            ∃ earlier later target, before = earlier ++ .cycle :: later ∧
              (first.run earlier).JumpsTo target ∧ Odd target := by
  intro first
  have haligned : ∀ before after, history = before ++ after → first.JumpsEven before →
      (first.run before).Aligned := by
    rintro before after rfl hjumps
    exact (aligned_of_restarts hstart m).run (List.forall_mem_append.mp hrestart).1 hjumps
  constructor
  · rintro hjumps before after rfl
    have hn := haligned before after rfl hjumps.of_append
    exact ⟨hn.programCounter, hn.stack, hn.result_ne_fetchBounds⟩
  · intro before after address hsplit hresult
    refine ⟨(programCounter_of_fetchBounds hresult).2, exists_odd_jump ?_⟩
    intro hjumps
    exact (haligned before after hsplit hjumps).result_ne_fetchBounds address hresult

/-- From the last two bytes execution goes on at the start of memory, and a jump to the last byte
runs off the end. -/
theorem odd_jump_before_fetchBounds_last_bytes :
    let m := ((ofSeed 0).perform (.load [0x1F, 0xFE])).machine
    let o := ((ofSeed 0).perform (.load [0x1F, 0xFF])).machine
    (m.Fetches 0x1FFE ∧ Even (m.run [.cycle, .cycle]).programCounter.val) ∧
      (o.run [.cycle]).cycle.result = .error (.fetchBounds 0xFFF) ∧
      ∃ before later target, [.cycle] = before ++ .cycle :: later ∧
        (o.run before).JumpsTo target ∧ Odd target := by
  intro m o
  obtain ⟨hfirst, hsecond⟩ : (m.execution = .running ∧ m.fetch = .ok 0x1FFE) ∧
      (m.run [.cycle]).execution = .running ∧ (m.run [.cycle]).fetch = .ok 0x0000 := by
    decide +kernel
  have hlast : (o.run [.cycle]).cycle.result = .error (.fetchBounds 0xFFF) := by decide +kernel
  have hfetch : m.Fetches 0x1FFE := ⟨hfirst.1, hfirst.2⟩
  have hskip : (m.run [.cycle]).Fetches 0x0000 := ⟨hsecond.1, hsecond.2⟩
  have hstart : (Operation.load [0x1F, 0xFE]).Restarts := by
    change 2 ≤ programCapacity
    decide
  have hother : (Operation.load [0x1F, 0xFF]).Restarts := by
    change 2 ≤ programCapacity
    decide
  have honce : m.JumpsEven ([] ++ [.cycle]) := by
    refine jumpsEven_append_singleton.mpr ⟨jumpsEven_nil, fun _ ↦ ?_⟩
    rintro target ⟨w, status, hw, -, hcase⟩
    obtain rfl := hfetch.unique hw
    rcases hcase with ⟨-, rfl⟩ | ⟨hop, -⟩
    · decide
    · exact absurd hop (by decide)
  have htwice : m.JumpsEven ([.cycle] ++ [.cycle]) := by
    refine jumpsEven_append_singleton.mpr ⟨honce, fun _ ↦ ?_⟩
    rintro target ⟨w, status, hw, -, hcase⟩
    obtain rfl := hskip.unique hw
    exact absurd hcase (by simp [Word.op])
  have hcycles : ∀ operation ∈ [Operation.cycle, .cycle], ¬operation.Restarts := by
    simp [Operation.Restarts]
  have hcycle : ∀ operation ∈ [Operation.cycle], ¬operation.Restarts := by
    simp [Operation.Restarts]
  obtain ⟨heven, -⟩ := odd_jump_before_fetchBounds (ofSeed 0) hstart hcycles
  obtain ⟨-, hodd⟩ := odd_jump_before_fetchBounds (ofSeed 0) hother hcycle
  exact ⟨⟨hfetch, (heven htwice [.cycle, .cycle] [] rfl).1⟩, hlast,
    (hodd [.cycle] [] 0xFFF rfl hlast).2⟩

end Machine
end Chip8
