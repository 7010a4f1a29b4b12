import Chip8.Proofs.Bare.Agreement
import Chip8.Screen.Feed

/-!
# Nothing leaves its domain

The bounds that the types of a machine state are an invariant of the bare machine, and within
them no guard refuses.  The same holds on the way of the picture to the screen, where every
picture has one entry for each pixel.
-/

namespace Chip8

/-! ## The screen -/

theorem Frame.write_toList (v : Vector Bool 2048) (frame : Frame) :
    Block.write v 0 frame.toList = frame.pixels := by
  ext i hi
  rw [Block.getElem_write, if_pos (Nat.zero_le i), Nat.sub_zero]
  simp [toList, hi]

/-- A feed that keeps the picture as a plain list. -/
structure BareFeed where
  pixels : List Bool := List.replicate 2048 false
  sound : Bool := false
  actions : Array Action := #[]

namespace BareFeed

/-- A display is made of exactly as many pixels as it has. -/
def display (feed : BareFeed) : Guarded Display :=
  if feed.pixels.length = 2048 then do
    let pixels ← Guarded.copy (Vector.replicate 2048 false) 0 2048 feed.pixels
    .ok { frame := ⟨pixels⟩, sound := feed.sound }
  else .error (.wrongPixelCount feed.pixels.length)

def send (feed : BareFeed) (isOpen : Bool) : Guarded BareFeed := do
  let display ← feed.display
  let action :=
    if isOpen then .send (.update (.replaceDisplay display)) else .log .interfaceGone
  .ok { feed with actions := feed.actions.push action }

/-- Copies a picture over the last one. -/
def present (feed : BareFeed) (isOpen : Bool) (pixels : List Bool) : Guarded BareFeed :=
  if pixels.length = feed.pixels.length then { feed with pixels }.send isOpen
  else .error (.unequalLengths pixels.length feed.pixels.length)

def follow (isOpen : Bool) (feed : BareFeed) : Effect → Guarded BareFeed
  | .log entry => .ok { feed with actions := feed.actions.push (.log entry) }
  | .setPeriod _ => .ok feed
  | .output (.present frame) => feed.present isOpen frame.toList
  | .output (.sound active) => { feed with sound := active }.send isOpen

def of (feed : Feed) : BareFeed :=
  { pixels := feed.display.frame.toList
    sound := feed.display.sound
    actions := feed.actions }

theorem display_of (feed : Feed) : (of feed).display = .ok feed.display := by
  have hlength := feed.display.frame.length_toList
  have hcopy := Guarded.copy_of_le (Vector.replicate 2048 false) 0 feed.display.frame.toList
    (by omega)
  rw [Nat.zero_add, hlength, Frame.write_toList] at hcopy
  have hpixels : (of feed).pixels = feed.display.frame.toList := rfl
  rw [display, hpixels, if_pos hlength, hcopy]
  rfl

theorem send_of (feed : Feed) (isOpen : Bool) :
    (of feed).send isOpen = .ok (of (feed.send isOpen)) := by
  rw [send, display_of]
  rfl

theorem follow_of (isOpen : Bool) (feed : Feed) (effect : Effect) :
    (of feed).follow isOpen effect = .ok (of (feed.follow isOpen effect)) := by
  cases effect with
  | log entry => rfl
  | setPeriod nanoseconds => rfl
  | output output =>
      cases output with
      | present frame =>
          have hlength : frame.toList.length = (of feed).pixels.length := by
            rw [Frame.length_toList]
            exact feed.display.frame.length_toList.symm
          rw [follow, present, if_pos hlength]
          exact send_of { feed with display := { feed.display with frame } } isOpen
      | sound active =>
          exact send_of { feed with display := { feed.display with sound := active } } isOpen

theorem foldlM_follow (isOpen : Bool) (effects : List Effect) :
    effects.foldlM (follow isOpen) {} = .ok (of (effects.foldl (Feed.follow isOpen) {})) := by
  have hblank : List.replicate 2048 false = Frame.blank.toList := Vector.toList_replicate.symm
  have hstart : ({} : BareFeed) = of {} :=
    congrArg (fun pixels ↦ BareFeed.mk pixels false #[]) hblank
  rw [hstart]
  exact Guarded.foldlM_eq of effects (fun feed effect _ ↦ follow_of isOpen feed effect) {}

end BareFeed

namespace BareMachine

/-! ## The invariant -/

/-- The bounds of the numbers of a bare machine.  Its memory is arbitrary. -/
structure WellFormed (m : BareMachine) : Prop where
  index_le : m.registers.index ≤ 0x0FFF
  programCounter_le : m.registers.programCounter ≤ 0x0FFF
  slots_le : ∀ slot, m.stack.slots.get slot ≤ 0x0FFF
  pointer_le : m.stack.pointer ≤ 16
  length_le : m.program.length ≤ 3584
  awaiting : ∀ register, m.execution = .awaitingKey register → register < 16

theorem wellFormed_of (m : Machine) : (of m).WellFormed where
  index_le := m.registers.index.toWord_le
  programCounter_le := m.registers.programCounter.toWord_le
  slots_le slot := by
    have hget : (of m).stack.slots.get slot = (m.stack.slots.get slot).toWord :=
      Vector.getElem_map Address.toWord slot.isLt
    rw [hget]
    exact (m.stack.slots.get slot).toWord_le
  pointer_le := m.stack.pointer_le
  length_le := m.program.length_le
  awaiting register h := by
    have hexecution : (of m).execution = .of m.execution := rfl
    rw [hexecution] at h
    cases hm : m.execution with
    | running =>
        rw [hm] at h
        cases h
    | awaitingKey x =>
        rw [hm] at h
        cases h
        have hx := x.isLt
        rw [UInt8.lt_iff_toNat_lt, UInt8.toNat_ofNat']
        change x.val % 256 < 16
        omega

/-- The state of execution with a digit for the register. -/
def typedExecution : BareExecution → Execution
  | .running => .running
  | .awaitingKey register => .awaitingKey (Nibble.ofByte register)

/-- The machine that a well formed bare machine comes from. -/
def WellFormed.machine {m : BareMachine} (h : m.WellFormed) : Machine :=
  { memory := m.memory
    registers :=
      { values := m.registers.values
        index := .ofWord m.registers.index
        programCounter := .ofWord m.registers.programCounter }
    stack :=
      { slots := m.stack.slots.map Address.ofWord
        pointer := m.stack.pointer
        pointer_le := h.pointer_le }
    timers := m.timers
    frame := m.frame
    keypad := m.keypad
    compatibility := m.compatibility
    random := m.random
    execution := typedExecution m.execution
    program := { bytes := m.program, length_le := h.length_le }
    redraw := m.redraw }

theorem WellFormed.of_machine {m : BareMachine} (h : m.WellFormed) : of h.machine = m := by
  have hindex : (Address.ofWord m.registers.index).toWord = m.registers.index :=
    Address.toWord_ofWord h.index_le
  have hprogramCounter :
      (Address.ofWord m.registers.programCounter).toWord = m.registers.programCounter :=
    Address.toWord_ofWord h.programCounter_le
  have hslots : (m.stack.slots.map Address.ofWord).map Address.toWord = m.stack.slots := by
    ext i hi
    rw [Vector.getElem_map, Vector.getElem_map]
    exact congrArg UInt16.toNat (Address.toWord_ofWord (h.slots_le ⟨i, hi⟩))
  have hexecution : BareExecution.of (typedExecution m.execution) = m.execution := by
    cases hm : m.execution with
    | running => rfl
    | awaitingKey register =>
        have hregister : register.toNat < 16 := UInt8.lt_iff_toNat_lt.mp (h.awaiting register hm)
        rw [typedExecution, BareExecution.of, Nibble.val_ofByte, Nat.mod_eq_of_lt hregister,
          UInt8.ofNat_toNat]
  simp only [of, machine, BareRegisters.of, BareStack.of, hindex, hprogramCounter, hslots,
    hexecution]

/-- The well formed bare machines are those of the machines. -/
theorem wellFormed_iff {m : BareMachine} : m.WellFormed ↔ ∃ n : Machine, m = of n := by
  constructor
  · intro h
    exact ⟨h.machine, h.of_machine.symm⟩
  · rintro ⟨n, rfl⟩
    exact wellFormed_of n

/-! ## No violation -/

/-- A computation has a result, and the machine that it leaves is well formed. -/
def Safe {α : Type} (outcome : Guarded (BareMachine × α)) : Prop :=
  ∃ after result, outcome = .ok (after, result) ∧ after.WellFormed

theorem safe_of {α : Type} {outcome : Guarded (BareMachine × α)} {n : Machine} {result : α}
    (h : outcome = .ok (of n, result)) : Safe outcome :=
  ⟨of n, result, h, wellFormed_of n⟩

theorem start_run (random : RandomSource) (history : List Operation) :
    (start random >>= fun m ↦ m.run history) = .ok (of (({ random } : Machine).run history)) := by
  rw [start_of, Guarded.ok_bind, run_of]

/-- No guard refuses: not after any history, not in any well formed state with any memory and
any word, and not on the way of the pictures of a session to the screen. -/
theorem no_violation :
    (∀ (random : RandomSource) (history : List Operation), ∃ after : BareMachine,
      (start random >>= fun m ↦ m.run history) = .ok after ∧ after.WellFormed ∧
        after = of (({ random } : Machine).run history)) ∧
      (∀ m : BareMachine, m.WellFormed →
        (∀ operation, Safe (m.perform operation)) ∧ (∀ w, Safe (m.dispatch w)) ∧
          ∀ register, Safe (m.poll register)) ∧
      (∀ (m : Machine) (operation : Operation),
        (of m).WellFormed ∧ (of m).perform operation =
          .ok (of (m.perform operation).machine, (m.perform operation).reply)) ∧
      ∀ (m : Machine) (settings : Settings) (inputs : List Input) (isOpen : Bool),
        let effects := (Run.ofInputs m settings inputs).effects.toList
        (∀ frame, Effect.output (.present frame) ∈ effects → frame.toList.length = 2048) ∧
          effects.foldlM (BareFeed.follow isOpen) {} =
            .ok (.of (effects.foldl (Feed.follow isOpen) {})) := by
  refine ⟨?_, ?_, ?_, ?_⟩
  · intro random history
    exact ⟨_, start_run random history, wellFormed_of _, rfl⟩
  · intro m hm
    obtain ⟨n, rfl⟩ := wellFormed_iff.mp hm
    exact ⟨fun operation ↦ safe_of (perform_of n operation), fun w ↦ safe_of (dispatch_of n w),
      fun register ↦ safe_of (poll_of n register)⟩
  · intro m operation
    exact ⟨wellFormed_of m, perform_of m operation⟩
  · intro m settings inputs isOpen effects
    exact ⟨fun frame _ ↦ frame.length_toList, BareFeed.foldlM_follow isOpen effects⟩

/-- A machine whose stack is full makes one more call. -/
theorem no_violation_overflow :
    let m := of (({ random := { seed := 0 } } : Machine).run
      (.load [0x22, 0x00] :: List.replicate 16 .cycle))
    m.WellFormed ∧ m.stack.pointer = 16 ∧ Safe (m.perform .cycle) := by
  intro m
  have hm : m.WellFormed := wellFormed_of _
  have hpointer : m.stack.pointer = 16 := by decide +kernel
  obtain ⟨-, hsafe, -, -⟩ := no_violation
  exact ⟨hm, hpointer, (hsafe m hm).1 .cycle⟩

/-- A pointer above the stack is stopped at the guard of its slots. -/
example : ({ slots := Vector.replicate 16 0x200, pointer := 17 } : BareStack).push 0x202 0x200 =
    .error (.outside 17 16) := by
  decide

end BareMachine
end Chip8
