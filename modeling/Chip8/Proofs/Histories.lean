import Chip8.Machine.Operation
import Mathlib.Data.List.Induction

/-!
# Histories without a restart

A reset and a successful load start the machine anew.  Between two of them a property of
the machine is shown by induction on the history, one operation at a time.  An operation that
is not a cycle then works on the timers, the keypad, the settings and the redraw flag only.
-/

namespace Chip8

/-- Whether an operation starts the machine anew: a load does if its bytes fit. -/
def Operation.Restarts : Operation → Prop
  | .reset => True
  | .load bytes => bytes.length ≤ programCapacity
  | _ => False

/-- An entry of a list with one more entry at its end is that entry or one before. -/
theorem append_singleton_eq_iff {α : Type} {list before after : List α} {last entry : α} :
    list ++ [last] = before ++ entry :: after ↔
      (after = [] ∧ before = list ∧ entry = last) ∨
        ∃ rest, after = rest ++ [last] ∧ list = before ++ entry :: rest := by
  constructor
  · intro h
    rcases List.eq_nil_or_concat after with rfl | ⟨rest, final, rfl⟩
    · obtain ⟨hlist, hlast⟩ := List.append_inj' h rfl
      exact Or.inl ⟨rfl, hlist.symm, by simpa using hlast.symm⟩
    · rw [List.concat_eq_append, ← List.cons_append, ← List.append_assoc] at h
      obtain ⟨hlist, hlast⟩ := List.append_inj' h rfl
      obtain rfl : last = final := by simpa using hlast
      exact Or.inr ⟨rest, by simp, hlist⟩
  · rintro (⟨rfl, rfl, rfl⟩ | ⟨rest, rfl, rfl⟩)
    · rfl
    · simp

/-- What holds at every cycle of a history holds at those before its end, and at its end if
that is a cycle. -/
theorem Operation.forall_cycle_append_singleton {P : List Operation → Prop}
    {history : List Operation} {operation : Operation} :
    (∀ before after, history ++ [operation] = before ++ .cycle :: after → P before) ↔
      (∀ before after, history = before ++ .cycle :: after → P before) ∧
        (operation = .cycle → P history) := by
  constructor
  · intro h
    constructor
    · rintro before after rfl
      exact h before (after ++ [operation]) (by simp)
    · rintro rfl
      exact h history [] rfl
  · rintro ⟨hhistory, hlast⟩ before after h
    rcases append_singleton_eq_iff.mp h with ⟨-, rfl, rfl⟩ | ⟨rest, -, hrest⟩
    · exact hlast rfl
    · exact hhistory before rest hrest

namespace Machine

variable {m n : Machine}

theorem run_append_singleton (m : Machine) (history : List Operation)
    (operation : Operation) :
    m.run (history ++ [operation]) = ((m.run history).perform operation).machine := by
  rw [run_append]
  rfl

theorem run_append_cycle_cons (m : Machine) (before after : List Operation) :
    m.run (before ++ .cycle :: after) = (m.run (before ++ [.cycle])).run after := by
  rw [← run_append, List.append_assoc, List.singleton_append]

/-- A restart leaves a machine that was reset. -/
theorem exists_reset_of_restarts {operation : Operation} (h : operation.Restarts)
    (m : Machine) : ∃ n : Machine, (m.perform operation).machine = n.reset := by
  cases operation with
  | reset => exact ⟨m, rfl⟩
  | load bytes =>
      have hfits : bytes.length ≤ programCapacity := h
      refine ⟨{ m with program := ⟨bytes, hfits⟩ }, ?_⟩
      simp [perform, loadBytes, Program.ofBytes, hfits, load]
  | _ => exact absurd h id

theorem machine_loadBytes_of_not_restarts {bytes : List UInt8}
    (h : ¬(Operation.load bytes).Restarts) : (m.loadBytes bytes).machine = m := by
  have hsize : ¬bytes.length ≤ programCapacity := h
  simp [loadBytes, Program.ofBytes, hsize]

/-! ## The parts that a host works on -/

/-- The machines differ at most in the parts that a host works on. -/
def HostVariant (m n : Machine) : Prop :=
  ∃ timers keypad compatibility redraw,
    n = { m with timers, keypad, compatibility, redraw }

theorem HostVariant.refl (m : Machine) : HostVariant m m := ⟨_, _, _, _, rfl⟩

theorem HostVariant.trans {k : Machine} (h : HostVariant m n) (hnext : HostVariant n k) :
    HostVariant m k := by
  obtain ⟨_, _, _, _, rfl⟩ := h
  obtain ⟨_, _, _, _, rfl⟩ := hnext
  exact ⟨_, _, _, _, rfl⟩

theorem HostVariant.kept (h : HostVariant m n) :
    n.execution = m.execution ∧ n.fetch = m.fetch ∧ n.programCounter = m.programCounter := by
  obtain ⟨_, _, _, _, rfl⟩ := h
  exact ⟨rfl, rfl, rfl⟩

/-- Between restarts a host works on no other parts. -/
theorem hostVariant_perform (m : Machine) {operation : Operation}
    (hrestart : ¬operation.Restarts) (hne : operation ≠ .cycle) :
    HostVariant m (m.perform operation).machine := by
  cases operation with
  | cycle => exact absurd rfl hne
  | reset => exact absurd trivial hrestart
  | load bytes =>
      rw [perform, machine_loadBytes_of_not_restarts hrestart]
      exact .refl m
  | _ => exact ⟨_, _, _, _, rfl⟩

/-! ## Runs -/

/-- Induction on a history without a restart. -/
theorem run_induction {P : List Operation → Machine → Prop} (start : P [] m)
    (step : ∀ history operation, ¬operation.Restarts → P history (m.run history) →
      P (history ++ [operation]) ((m.run history).perform operation).machine)
    (history : List Operation) (h : ∀ operation ∈ history, ¬operation.Restarts) :
    P history (m.run history) := by
  induction history using List.reverseRecOn with
  | nil => exact start
  | append_singleton history operation ih =>
      rw [run_append_singleton]
      refine step history operation (h operation (by simp)) (ih ?_)
      intro op hop
      exact h op (by simp [hop])

end Machine
end Chip8
