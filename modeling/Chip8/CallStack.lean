import Chip8.Fault

/-!
# The call stack

The stack has sixteen slots for return addresses and a pointer to the first free
one.  A return lowers the pointer and leaves its slot alone, so what lies above the
pointer is stale.  A call at the limit and a return without a call are faults, which
name the address of the instruction.
-/

namespace Chip8

def callDepth : Nat := 16

structure CallStack where
  slots : Vector Address callDepth := Vector.replicate callDepth 0
  pointer : Nat := 0
  pointer_le : pointer ≤ callDepth := by decide
deriving DecidableEq

namespace CallStack

def empty : CallStack := {}

/-- The return addresses of the active calls in the order of the calls. -/
def toList (stack : CallStack) : List Address := stack.slots.toList.take stack.pointer

@[simp] theorem toList_empty : empty.toList = [] := rfl

@[simp] theorem length_toList (stack : CallStack) : stack.toList.length = stack.pointer := by
  simp [toList, stack.pointer_le]

/-- The stack with one more return address, for a call at `caller`. -/
def push (stack : CallStack) (target caller : Address) : Except Fault CallStack :=
  if h : stack.pointer < callDepth then
    .ok
      { slots := stack.slots.set stack.pointer target h
        pointer := stack.pointer + 1
        pointer_le := h }
  else .error (.stackOverflow caller callDepth)

/-- The most recent return address and the stack without it, for a return at
`caller`. -/
def pop (stack : CallStack) (caller : Address) : Except Fault (Address × CallStack) :=
  match stack with
  | ⟨_, 0, _⟩ => .error (.stackUnderflow caller)
  | ⟨slots, free + 1, h⟩ => .ok (slots[free], ⟨slots, free, Nat.le_of_succ_le h⟩)

theorem push_eq_error_iff {stack : CallStack} {target caller : Address} {fault : Fault} :
    stack.push target caller = .error fault ↔
      stack.pointer = callDepth ∧ fault = .stackOverflow caller callDepth := by
  have hle := stack.pointer_le
  unfold push
  split
  · simp
    omega
  · rw [Except.error.injEq]
    constructor
    · rintro rfl
      exact ⟨by omega, rfl⟩
    · rintro ⟨_, rfl⟩
      rfl

theorem pop_eq_error_iff {stack : CallStack} {caller : Address} {fault : Fault} :
    stack.pop caller = .error fault ↔
      stack.pointer = 0 ∧ fault = .stackUnderflow caller := by
  obtain ⟨slots, _ | free, h⟩ := stack
  · simp only [pop, Except.error.injEq, true_and]
    exact eq_comm
  · simp [pop]

theorem toList_of_push {s t : CallStack} {target caller : Address}
    (h : s.push target caller = .ok t) : t.toList = s.toList ++ [target] := by
  unfold push at h
  split at h
  · cases h
    have hlt : s.pointer < callDepth := by assumption
    simp [toList, List.take_add_one, List.take_set_of_le, Vector.toList_set, hlt]
  · cases h

theorem toList_of_pop {s t : CallStack} {target caller : Address}
    (h : s.pop caller = .ok (target, t)) : s.toList = t.toList ++ [target] := by
  obtain ⟨slots, _ | free, hle⟩ := s
  · cases h
  · cases h
    have hlt : free < callDepth := hle
    simp [toList, List.take_add_one, hlt]

end CallStack
end Chip8
