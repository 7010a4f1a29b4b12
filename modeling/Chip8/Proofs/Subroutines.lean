import Chip8.Proofs.Faults
import Chip8.Proofs.Histories

/-!
# Subroutines

A call and a later return match if what was called and what returned in between is
balanced.  In every run since a restart the call stack holds the return addresses of the
calls that no return matches yet, so a return continues after the call that it matches.
-/

namespace Chip8

/-- A call or a return that was executed. -/
inductive Transfer where
  | call (site : Address)
  | ret
deriving DecidableEq

/-! ## Matching calls and returns -/

namespace Transfer

/-- Every call is followed by its return, and every return follows its call. -/
inductive Balanced : List Transfer → Prop
  | nil : Balanced []
  | call (site : Address) {inner rest : List Transfer} : Balanced inner → Balanced rest →
      Balanced (.call site :: (inner ++ .ret :: rest))

/-- The return that matches a call is among the transfers after the call. -/
def Returned (after : List Transfer) : Prop :=
  ∃ inner rest, after = inner ++ .ret :: rest ∧ Balanced inner

/-- Looks for the first return that leaves a depth of nested calls. -/
def leaves : Nat → List Transfer → Bool
  | _, [] => false
  | depth, .call _ :: after => leaves (depth + 1) after
  | 0, .ret :: _ => true
  | depth + 1, .ret :: after => leaves depth after

theorem Balanced.append {first second : List Transfer} (hfirst : Balanced first)
    (hsecond : Balanced second) : Balanced (first ++ second) := by
  induction hfirst with
  | nil => exact hsecond
  | call site hinner _ _ ihrest =>
      rw [List.cons_append, List.append_assoc, List.cons_append]
      exact .call site hinner ihrest

theorem leaves_append_of_balanced {inner : List Transfer} (h : Balanced inner) (depth : Nat)
    (after : List Transfer) : leaves depth (inner ++ after) = leaves depth after := by
  induction h generalizing depth after with
  | nil => rfl
  | call site _ _ ihinner ihrest =>
      rw [List.cons_append, List.append_assoc, leaves, ihinner, List.cons_append, leaves,
        ihrest]

/-- What comes before the return that leaves a depth is balanced. -/
theorem exists_of_leaves {depth : Nat} {after : List Transfer} (h : leaves depth after) :
    ∃ inner rest, after = inner ++ .ret :: rest ∧ Balanced inner ∧
      ∀ outer, depth = outer + 1 → leaves outer rest := by
  induction hlen : after.length using Nat.strongRecOn generalizing depth after with
  | ind _ ih =>
      subst hlen
      cases after with
      | nil => simp [leaves] at h
      | cons transfer after =>
          cases transfer with
          | ret =>
              refine ⟨[], after, rfl, .nil, ?_⟩
              rintro outer rfl
              exact h
          | call site =>
              -- The first return closes this call, and the second one leaves the depth.
              have hinside : leaves (depth + 1) after := h
              obtain ⟨inner, rest, rfl, hinner, hrest⟩ := ih _ (by simp) hinside rfl
              obtain ⟨next, last, rfl, hnext, hlast⟩ :=
                ih _ (by simp; omega) (hrest depth rfl) rfl
              exact ⟨.call site :: (inner ++ .ret :: next), last, by simp,
                .call site hinner hnext, hlast⟩

theorem leaves_zero_iff {after : List Transfer} : leaves 0 after ↔ Returned after := by
  constructor
  · intro h
    obtain ⟨inner, rest, heq, hinner, -⟩ := exists_of_leaves h
    exact ⟨inner, rest, heq, hinner⟩
  · rintro ⟨inner, rest, rfl, hinner⟩
    rw [leaves_append_of_balanced hinner]
    rfl

instance (after : List Transfer) : Decidable (Returned after) :=
  decidable_of_iff _ leaves_zero_iff

/-- The addresses of the calls that no return matches, in the order of the calls. -/
def openCalls : List Transfer → List Address
  | [] => []
  | .call site :: after =>
      if Returned after then openCalls after else site :: openCalls after
  | .ret :: after => openCalls after

theorem openCalls_append_of_balanced {inner : List Transfer} (h : Balanced inner)
    (after : List Transfer) : openCalls (inner ++ after) = openCalls after := by
  induction h generalizing after with
  | nil => rfl
  | @call site inner rest hinner _ ihinner ihrest =>
      have hreturned : Returned (inner ++ .ret :: rest ++ after) :=
        ⟨inner, rest ++ after, by simp, hinner⟩
      rw [List.cons_append, openCalls, if_pos hreturned, List.append_assoc, ihinner,
        List.cons_append, openCalls, ihrest]

theorem openCalls_of_balanced {inner : List Transfer} (h : Balanced inner) :
    openCalls inner = [] := by
  have hnil := openCalls_append_of_balanced h []
  rwa [List.append_nil] at hnil

/-- A call with balanced transfers after it matches no return. -/
theorem leaves_append_call {site : Address} {inner : List Transfer} (h : Balanced inner)
    (depth : Nat) (before : List Transfer) :
    leaves depth (before ++ .call site :: inner) = leaves depth before := by
  induction before generalizing depth with
  | nil =>
      have hend := leaves_append_of_balanced h (depth + 1) []
      rw [List.append_nil] at hend
      exact hend
  | cons transfer before ih =>
      cases transfer with
      | call other => exact ih (depth + 1)
      | ret =>
          cases depth with
          | zero => rfl
          | succ depth => exact ih depth

theorem returned_append_call_iff {site : Address} {inner before : List Transfer}
    (h : Balanced inner) : Returned (before ++ .call site :: inner) ↔ Returned before := by
  rw [← leaves_zero_iff, ← leaves_zero_iff, leaves_append_call h]

theorem openCalls_append_call {site : Address} {inner : List Transfer} (h : Balanced inner)
    (before : List Transfer) :
    openCalls (before ++ .call site :: inner) = openCalls before ++ [site] := by
  induction before with
  | nil =>
      have hopen : ¬Returned inner := by
        have hend := leaves_append_of_balanced h 0 []
        rw [List.append_nil] at hend
        rw [← leaves_zero_iff, hend]
        simp [leaves]
      simp [openCalls, hopen, openCalls_of_balanced h]
  | cons transfer before ih =>
      cases transfer with
      | call other =>
          simp only [List.cons_append, openCalls, returned_append_call_iff h, ih]
          split <;> rfl
      | ret => exact ih

/-- The transfers so far leave the calls at `sites` open, the oldest first. -/
inductive Open : List Transfer → List Address → Prop
  | nil {inner : List Transfer} : Balanced inner → Open inner []
  | call {before inner : List Transfer} {sites : List Address} (site : Address) :
      Open before sites → Balanced inner →
        Open (before ++ .call site :: inner) (sites ++ [site])

theorem Open.openCalls_eq {events : List Transfer} {sites : List Address}
    (h : Open events sites) : openCalls events = sites := by
  induction h with
  | nil hinner => exact openCalls_of_balanced hinner
  | call site _ hinner ih => rw [openCalls_append_call hinner, ih]

theorem Open.append {events inner : List Transfer} {sites : List Address}
    (h : Open events sites) (hinner : Balanced inner) : Open (events ++ inner) sites := by
  cases h with
  | nil hevents => exact .nil (hevents.append hinner)
  | call site hbefore hevents =>
      rw [List.append_assoc, List.cons_append]
      exact .call site hbefore (hevents.append hinner)

theorem Open.exists_call {events : List Transfer} {sites : List Address} {site : Address}
    (h : Open events (sites ++ [site])) :
    ∃ before inner, events = before ++ .call site :: inner ∧ Balanced inner ∧
      Open before sites := by
  generalize hall : sites ++ [site] = all at h
  cases h with
  | nil hinner => simp at hall
  | @call before inner sites' site' hbefore hinner =>
      obtain ⟨rfl, hsite⟩ := List.append_inj' hall rfl
      obtain rfl : site = site' := by simpa using hsite
      exact ⟨before, inner, rfl, hinner, hbefore⟩

theorem Open.append_call {events : List Transfer} {sites : List Address}
    (h : Open events sites) (site : Address) :
    Open (events ++ [.call site]) (sites ++ [site]) :=
  .call site h .nil

/-- A return closes the last of the open calls. -/
theorem Open.append_ret {events : List Transfer} {sites : List Address} {site : Address}
    (h : Open events (sites ++ [site])) : Open (events ++ [.ret]) sites := by
  obtain ⟨before, inner, rfl, hinner, hbefore⟩ := h.exists_call
  have hpair : Balanced (.call site :: (inner ++ .ret :: [])) := .call site hinner .nil
  rw [List.append_assoc]
  exact hbefore.append hpair

end Transfer

/-! ## Transfers of a run -/

namespace Instruction

def transfer? (site : Address) : Instruction → Option Transfer
  | .call _ => some (.call site)
  | .ret => some .ret
  | _ => none

variable {m after : Machine} {i : Instruction} {flow : Flow}

theorem Step.stack_of_call {site : Address} (h : Step m i flow after)
    (hcall : i.transfer? m.programCounter = some (.call site)) :
    site = m.programCounter ∧ after.stack.toList = m.stack.toList ++ [site.offset 2] := by
  cases h with
  | call target hpush =>
      cases hcall
      exact ⟨rfl, CallStack.toList_of_push hpush⟩
  | _ => cases hcall

theorem Step.stack_of_ret (h : Step m i flow after)
    (hret : i.transfer? m.programCounter = some .ret) :
    ∃ target, flow = .jump target ∧ m.stack.toList = after.stack.toList ++ [target] := by
  cases h with
  | ret hpop => exact ⟨_, rfl, CallStack.toList_of_pop hpop⟩
  | _ => cases hret

theorem Step.stack_of_none (h : Step m i flow after)
    (hnone : i.transfer? m.programCounter = none) : after.stack = m.stack := by
  cases h with
  | ret hpop => cases hnone
  | call target hpush => cases hnone
  | addIndex x =>
      obtain ⟨values, index, heq⟩ := m.exists_addIndex x
      rw [heq]
  | arithmetic operation x y =>
      obtain ⟨values, heq⟩ := m.exists_calculate operation x y
      rw [heq]
  | _ => rfl

end Instruction

namespace Machine

variable {m n : Machine} {w : Word} {i : Instruction}

/-- The transfer that the next cycle of a machine executes. -/
def transfer? (m : Machine) : Option Transfer :=
  match m.execution, m.fetch, m.cycle.result with
  | .running, .ok word, .ok _ =>
      if word.op = 0x2 then some (.call m.programCounter)
      else if word = 0x00EE then some .ret
      else none
  | _, _, _ => none

/-- The transfers that a history makes a machine execute, the oldest first. -/
def transfers (m : Machine) : List Operation → List Transfer
  | [] => []
  | operation :: history =>
      (if operation = .cycle then m.transfer?.toList else []) ++
        (m.perform operation).machine.transfers history

theorem transfers_append_singleton (m : Machine) (history : List Operation)
    (operation : Operation) :
    m.transfers (history ++ [operation]) =
      m.transfers history ++
        (if operation = .cycle then (m.run history).transfer?.toList else []) := by
  induction history generalizing m with
  | nil => simp [transfers]
  | cons first history ih => simp [transfers, ih]

theorem transfer?_of_encodes (hw : m.Fetches w) (h : w.Encodes i) {status : Status}
    (hresult : m.cycle.result = .ok status) :
    m.transfer? = i.transfer? m.programCounter := by
  simp only [transfer?, hw.running, hw.fetch_eq, hresult]
  split
  · rename_i hop
    have hcall : w.Encodes (.call w.nnn) := ⟨hop, rfl⟩
    rw [Instruction.eq_of_encodes h hcall]
    rfl
  · rename_i hop
    split
    · rename_i hret
      rw [Instruction.eq_of_encodes h (j := .ret) hret]
      rfl
    · rename_i hret
      cases i with
      | call target => exact absurd h.1 hop
      | ret => exact absurd h hret
      | _ => rfl

theorem transfer?_of_error {fault : Fault} (h : m.cycle.result = .error fault) :
    m.transfer? = none := by
  simp [transfer?, h]

theorem transfer?_of_awaiting {x : Register} (h : m.execution = .awaitingKey x) :
    m.transfer? = none := by
  simp [transfer?, h]

theorem stack_cycle_of_error {fault : Fault} (h : m.cycle.result = .error fault) :
    m.cycle.machine.stack = m.stack := by
  rw [machine_cycle_of_error h]
  split <;> rfl

theorem exists_step_of_transfer {transfer : Transfer} (h : m.transfer? = some transfer) :
    ∃ i flow after, Instruction.Step m i flow after ∧
      i.transfer? m.programCounter = some transfer ∧ m.cycle.machine = after.follow flow := by
  cases m.turn with
  | poll awaiting eq =>
      rw [transfer?_of_awaiting awaiting] at h
      cases h
  | unfetched running unfetched eq =>
      rw [transfer?_of_error (by rw [eq])] at h
      cases h
  | reserved fetches reserved eq =>
      rw [transfer?_of_error (by rw [eq])] at h
      cases h
  | fault fetches encodes fails machine_eq result_eq =>
      rw [transfer?_of_error result_eq] at h
      cases h
  | @step w i flow after fetches encodes step machine_eq result_eq =>
      rw [transfer?_of_encodes fetches encodes result_eq] at h
      exact ⟨i, flow, after, step, h, machine_eq⟩

theorem stack_cycle_of_call {site : Address} (h : m.transfer? = some (.call site)) :
    m.cycle.machine.stack.toList = m.stack.toList ++ [site.offset 2] := by
  obtain ⟨i, flow, after, hstep, hcall, hmachine⟩ := exists_step_of_transfer h
  rw [hmachine, stack_follow]
  exact (hstep.stack_of_call hcall).2

theorem stack_cycle_of_ret (h : m.transfer? = some .ret) :
    m.stack.toList =
      m.cycle.machine.stack.toList ++ [m.cycle.machine.programCounter] := by
  obtain ⟨i, flow, after, hstep, hret, hmachine⟩ := exists_step_of_transfer h
  obtain ⟨target, rfl, hstack⟩ := hstep.stack_of_ret hret
  rw [hmachine, stack_follow]
  exact hstack

theorem stack_cycle_of_none (h : m.transfer? = none) :
    m.cycle.machine.stack = m.stack := by
  cases m.turn with
  | @poll x awaiting eq =>
      obtain ⟨keypad, registers, execution, hpoll⟩ := m.exists_poll x
      rw [eq, hpoll]
  | unfetched running unfetched eq => rw [eq]
  | reserved fetches reserved eq => rw [eq]
  | fault fetches encodes fails machine_eq result_eq => exact stack_cycle_of_error result_eq
  | step fetches encodes step machine_eq result_eq =>
      rw [machine_eq, stack_follow]
      rw [transfer?_of_encodes fetches encodes result_eq] at h
      exact step.stack_of_none h

theorem stack_perform_of_ne_cycle {operation : Operation} (hrestart : ¬operation.Restarts)
    (hne : operation ≠ .cycle) : (m.perform operation).machine.stack = m.stack := by
  obtain ⟨_, _, _, _, heq⟩ := m.hostVariant_perform hrestart hne
  rw [heq]

/-- The stack holds the return addresses of the calls that the transfers left open. -/
def Nested (events : List Transfer) (n : Machine) : Prop :=
  ∃ sites, Transfer.Open events sites ∧ n.stack.toList = sites.map (·.offset 2)

/-- A return closes the call that was opened last and continues after it. -/
theorem Nested.exists_of_ret {events : List Transfer} (h : Nested events n)
    (hret : n.transfer? = some .ret) :
    ∃ sites site, Transfer.Open events (sites ++ [site]) ∧
      n.cycle.machine.stack.toList = sites.map (·.offset 2) ∧
      n.cycle.machine.programCounter = site.offset 2 := by
  obtain ⟨sites, hopen, hstack⟩ := h
  rw [stack_cycle_of_ret hret] at hstack
  obtain ⟨earlier, last, rfl, hearlier, hlast⟩ := List.map_eq_append_iff.mp hstack.symm
  obtain ⟨site, rfl, hsite⟩ := List.map_eq_singleton_iff.mp hlast
  exact ⟨earlier, site, hopen, hearlier.symm, hsite.symm⟩

theorem Nested.perform {operation : Operation} {events : List Transfer}
    (h : Nested events n) (hrestart : ¬operation.Restarts) :
    Nested (events ++ if operation = .cycle then n.transfer?.toList else [])
      (n.perform operation).machine := by
  by_cases hcycle : operation = .cycle
  · subst hcycle
    rw [if_pos rfl]
    cases htransfer : n.transfer? with
    | none =>
        obtain ⟨sites, hopen, hstack⟩ := h
        refine ⟨sites, by simpa using hopen, ?_⟩
        rw [Machine.perform, stack_cycle_of_none htransfer, hstack]
    | some transfer =>
        cases transfer with
        | call site =>
            obtain ⟨sites, hopen, hstack⟩ := h
            refine ⟨sites ++ [site], hopen.append_call site, ?_⟩
            rw [Machine.perform, stack_cycle_of_call htransfer, hstack, List.map_append]
            rfl
        | ret =>
            obtain ⟨sites, site, hopen, hstack, -⟩ := h.exists_of_ret htransfer
            exact ⟨sites, hopen.append_ret, hstack⟩
  · obtain ⟨sites, hopen, hstack⟩ := h
    rw [if_neg hcycle, List.append_nil]
    exact ⟨sites, hopen, by rw [stack_perform_of_ne_cycle hrestart hcycle, hstack]⟩

theorem nested_run {history : List Operation} (hm : m.stack.toList = [])
    (hrestart : ∀ operation ∈ history, ¬operation.Restarts) :
    Nested (m.transfers history) (m.run history) := by
  refine run_induction (P := fun history n ↦ Nested (m.transfers history) n) ?_ ?_ history
    hrestart
  · exact ⟨[], .nil .nil, hm⟩
  · -- The last operation adds its transfer, and the stack follows.
    intro history operation hop ih
    rw [transfers_append_singleton]
    exact ih.perform hop

/-- Calls and returns in every run since a restart. -/
theorem returns_match_calls {start : Operation} (hstart : start.Restarts)
    {history : List Operation} (hrestart : ∀ operation ∈ history, ¬operation.Restarts) :
    let first := (m.perform start).machine
    let n := first.run history
    n.stack.toList = (Transfer.openCalls (first.transfers history)).map (·.offset 2) ∧
      n.stack.toList.length ≤ 16 ∧
      (∀ status, n.Fetches 0x00EE → n.cycle.result = .ok status →
        ∃ before site inner,
          first.transfers history = before ++ .call site :: inner ∧
            Transfer.Balanced inner ∧
            n.cycle.machine.programCounter = site.offset 2) ∧
      ∀ w fault, n.Fetches w → w.op = 0x2 ∨ w = 0x00EE → n.cycle.result = .error fault →
        n.cycle.machine.stack.toList = n.stack.toList := by
  intro first n
  have hempty : first.stack.toList = [] := by
    obtain ⟨fresh, hfresh⟩ := exists_reset_of_restarts hstart m
    have hfirst : first = fresh.reset := hfresh
    rw [hfirst]
    rfl
  have hnested : Nested (first.transfers history) n := nested_run hempty hrestart
  refine ⟨?_, ?_, ?_, ?_⟩
  · obtain ⟨sites, hopen, hstack⟩ := hnested
    rw [hopen.openCalls_eq, hstack]
  · rw [CallStack.length_toList]
    exact n.stack.pointer_le
  · intro status hw hresult
    have hret : n.transfer? = some .ret := transfer?_of_encodes hw (i := .ret) rfl hresult
    obtain ⟨sites, site, hopen, -, htarget⟩ := hnested.exists_of_ret hret
    obtain ⟨before, inner, heq, hinner, -⟩ := hopen.exists_call
    exact ⟨before, site, inner, heq, hinner, htarget⟩
  · intro w fault _ _ hfault
    rw [stack_cycle_of_error hfault]

/-- A call at the start of a program, and a return as the first instruction that it calls. -/
theorem returns_match_calls_load :
    let first :=
      ((ofSeed 0).perform (.load [0x22, 0x04, 0x00, 0x00, 0x00, 0xEE])).machine
    (first.run [.cycle]).stack.toList = [0x202] ∧
      (first.run [.cycle]).cycle.machine.programCounter = 0x202 := by
  intro first
  have hfits : (Operation.load [0x22, 0x04, 0x00, 0x00, 0x00, 0xEE]).Restarts := by
    change 6 ≤ programCapacity
    decide
  have hcycle : ∀ operation ∈ [Operation.cycle], ¬operation.Restarts := by
    simp [Operation.Restarts]
  have hrun : first.transfers [.cycle] = [.call 0x200] ∧
      (first.run [.cycle]).execution = .running ∧
      (first.run [.cycle]).fetch = .ok 0x00EE ∧
      (first.run [.cycle]).cycle.result = .ok .executed := by
    decide +kernel
  obtain ⟨htransfers, hexec, hfetch, hresult⟩ := hrun
  obtain ⟨hstack, -, hret, -⟩ := returns_match_calls (m := ofSeed 0) hfits hcycle
  obtain ⟨before, site, inner, heq, -, htarget⟩ := hret .executed ⟨hexec, hfetch⟩ hresult
  have hsite : site = 0x200 := by
    have hmem : Transfer.call site ∈ first.transfers [.cycle] := by
      rw [heq]
      simp
    simpa [htransfers] using hmem
  constructor
  · rw [hstack, htransfers]
    decide
  · rw [htarget, hsite]
    rfl

end Machine
end Chip8
