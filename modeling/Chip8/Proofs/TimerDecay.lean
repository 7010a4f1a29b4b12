import Chip8.Proofs.Footprints
import Chip8.Proofs.Histories

/-!
# Decay of the timers

Only the instruction that sets a timer and the ticks of the timer clock work on it.  So what a
timer shows is what was put in it last, less one for each tick since then, and never less than
zero.  How many instructions ran in between makes no difference.
-/

namespace Chip8

inductive Timer where
  | delay
  | sound

/-- The last byte of the words whose instruction sets the timer. -/
def Timer.setByte : Timer → UInt8
  | .delay => 0x15
  | .sound => 0x18

def Timers.value (timers : Timers) : Timer → UInt8
  | .delay => timers.delay
  | .sound => timers.sound

theorem Timers.toNat_value_tick (timers : Timers) (timer : Timer) :
    (timers.tick.value timer).toNat = (timers.value timer).toNat - 1 := by
  cases timer <;> exact toNat_countDown _

namespace Machine

variable {m : Machine} {w : Word} {timer : Timer} {value : UInt8} {history : List Operation}
  {operation : Operation}

/-- The next cycle of the machine executes the instruction that puts a value in the timer. -/
def SetsTimer (m : Machine) (timer : Timer) (value : UInt8) : Prop :=
  ∃ w, m.Fetches w ∧ w.op = 0xF ∧ w.nn = timer.setByte ∧ m.registers.get w.x = value

/-! ## Single operations -/

theorem value_cycle_of_setsTimer (h : m.SetsTimer timer value) :
    m.cycle.machine.timers.value timer = value := by
  obtain ⟨w, hw, hop, hnn, rfl⟩ := h
  cases timer with
  | delay =>
      rw [(cycle_of_step hw (i := .setDelay w.x) ⟨hop, hnn, rfl⟩ (.setDelay w.x)).1]
      rfl
  | sound =>
      rw [(cycle_of_step hw (i := .setSound w.x) ⟨hop, hnn, rfl⟩ (.setSound w.x)).1]
      rfl

theorem value_cycle_of_not_setsTimer (h : ∀ value, ¬m.SetsTimer timer value) :
    m.cycle.machine.timers.value timer = m.timers.value timer := by
  rcases m.confined_or_exists_eq with ⟨w, hw, hconfined⟩ | ⟨keypad, registers, execution, heq⟩
  · by_contra hne
    have hword : w.op = 0xF ∧ w.nn = timer.setByte := by
      cases timer with
      | delay => exact hconfined.delay hne
      | sound => exact hconfined.sound hne
    exact h _ ⟨w, hw, hword.1, hword.2, rfl⟩
  · rw [heq]

theorem value_perform_of_ne_cycle (hrestart : ¬operation.Restarts) (hne : operation ≠ .cycle) :
    ((m.perform operation).machine.timers.value timer).toNat =
      (m.timers.value timer).toNat - [operation].count .tickTimers := by
  cases operation with
  | cycle => exact absurd rfl hne
  | tickTimers => exact m.timers.toNat_value_tick timer
  | reset => exact absurd trivial hrestart
  | load bytes =>
      rw [perform, machine_loadBytes_of_not_restarts hrestart]
      rfl
  | _ => rfl

theorem cycle_of_readDelay (hw : m.Fetches w) (hop : w.op = 0xF) (hnn : w.nn = 0x07) :
    m.cycle.result = .ok .executed ∧
      m.cycle.machine.registers.get w.x = m.timers.delay := by
  obtain ⟨hmachine, hresult⟩ :=
    cycle_of_step hw (i := .readDelay w.x) ⟨hop, hnn, rfl⟩ (.readDelay w.x)
  rw [hmachine]
  exact ⟨hresult, m.registers.get_set_self w.x m.timers.delay⟩

/-! ## Histories that leave a timer to the clock -/

/-- No cycle of the history sets the timer. -/
def Undisturbed (m : Machine) (timer : Timer) (history : List Operation) : Prop :=
  ∀ before after, history = before ++ .cycle :: after →
    ∀ value, ¬(m.run before).SetsTimer timer value

theorem undisturbed_nil : m.Undisturbed timer [] := by
  intro before after h
  simp at h

theorem undisturbed_append_singleton :
    m.Undisturbed timer (history ++ [operation]) ↔
      m.Undisturbed timer history ∧
        (operation = .cycle → ∀ value, ¬(m.run history).SetsTimer timer value) :=
  Operation.forall_cycle_append_singleton

/-- A timer that is left to the clock loses one with each tick. -/
theorem value_run_of_undisturbed (hrestart : ∀ operation ∈ history, ¬operation.Restarts)
    (h : m.Undisturbed timer history) :
    ((m.run history).timers.value timer).toNat =
      (m.timers.value timer).toNat - history.count .tickTimers := by
  refine run_induction (P := fun history n ↦ m.Undisturbed timer history →
    (n.timers.value timer).toNat =
      (m.timers.value timer).toNat - history.count .tickTimers) ?_ ?_ history hrestart h
  · intro _
    rfl
  · intro history operation hop ih hundisturbed
    obtain ⟨hhistory, hlast⟩ := undisturbed_append_singleton.mp hundisturbed
    rw [List.count_append, ← Nat.sub_sub, ← ih hhistory]
    by_cases hcycle : operation = .cycle
    · subst hcycle
      rw [perform, value_cycle_of_not_setsTimer (hlast rfl)]
      rfl
    · exact value_perform_of_ne_cycle hop hcycle

/-! ## What was put in a timer last -/

/-- The value was put in the timer last, and so many ticks have come since.  If nothing was put
in it, the value is zero and all ticks count. -/
inductive LastSet (m : Machine) (timer : Timer) : List Operation → UInt8 → Nat → Prop
  | never {history : List Operation} : m.Undisturbed timer history →
      LastSet m timer history 0 (history.count .tickTimers)
  | set {before after : List Operation} {value : UInt8} :
      (m.run before).SetsTimer timer value →
        (m.run (before ++ [.cycle])).Undisturbed timer after →
          LastSet m timer (before ++ .cycle :: after) value (after.count .tickTimers)

theorem exists_lastSet (m : Machine) (timer : Timer) (history : List Operation) :
    ∃ value ticks, m.LastSet timer history value ticks := by
  induction history using List.reverseRecOn with
  | nil => exact ⟨0, 0, .never undisturbed_nil⟩
  | append_singleton history operation ih =>
      by_cases hset : operation = .cycle ∧ ∃ value, (m.run history).SetsTimer timer value
      · obtain ⟨rfl, value, hvalue⟩ := hset
        exact ⟨value, 0, .set hvalue undisturbed_nil⟩
      · obtain ⟨value, ticks, hlast⟩ := ih
        have hkept (hcycle : operation = .cycle) (value : UInt8) :
            ¬(m.run history).SetsTimer timer value := fun h ↦ hset ⟨hcycle, value, h⟩
        cases hlast with
        | never hundisturbed =>
            exact ⟨_, _, .never (undisturbed_append_singleton.mpr ⟨hundisturbed, hkept⟩)⟩
        | @set before after value hvalue hundisturbed =>
            rw [run_append_cycle_cons] at hkept
            rw [List.append_assoc, List.cons_append]
            exact ⟨_, _, .set hvalue
              (undisturbed_append_singleton.mpr ⟨hundisturbed, hkept⟩)⟩

/-- What was put in a timer last decays with the ticks since then. -/
theorem LastSet.value_eq {ticks : Nat} (h : m.LastSet timer history value ticks)
    (hm : m.timers.value timer = 0) (hrestart : ∀ operation ∈ history, ¬operation.Restarts) :
    ((m.run history).timers.value timer).toNat = value.toNat - ticks := by
  cases h with
  | never hundisturbed =>
      rw [value_run_of_undisturbed hrestart hundisturbed, hm]
  | @set before after value hvalue hundisturbed =>
      have hafter : ∀ operation ∈ after, ¬operation.Restarts :=
        fun operation hop ↦ hrestart operation (by simp [hop])
      rw [run_append_cycle_cons, value_run_of_undisturbed hafter hundisturbed,
        run_append_singleton, perform, value_cycle_of_setsTimer hvalue]

/-- Both timers in every run since a restart. -/
theorem timers_decay {start : Operation} (hstart : start.Restarts)
    {history : List Operation} (hrestart : ∀ operation ∈ history, ¬operation.Restarts) :
    let first := (m.perform start).machine
    let n := first.run history
    (∀ timer, ∃ value ticks, first.LastSet timer history value ticks) ∧
      (∀ value ticks, first.LastSet .delay history value ticks →
        n.timers.delay.toNat = value.toNat - ticks ∧
          ∀ w, n.Fetches w → w.op = 0xF → w.nn = 0x07 →
            n.cycle.result = .ok .executed ∧
              (n.cycle.machine.registers.get w.x).toNat = value.toNat - ticks) ∧
      ∀ value ticks, first.LastSet .sound history value ticks →
        n.timers.sound.toNat = value.toNat - ticks ∧
          (n.soundActive = true ↔ 0 < value.toNat - ticks) := by
  intro first n
  have hzero (timer : Timer) : first.timers.value timer = 0 := by
    obtain ⟨fresh, hfresh⟩ := exists_reset_of_restarts hstart m
    have hfirst : first = fresh.reset := hfresh
    rw [hfirst]
    cases timer <;> rfl
  refine ⟨fun timer ↦ exists_lastSet first timer history, ?_, ?_⟩
  · intro value ticks hlast
    have hdelay : n.timers.delay.toNat = value.toNat - ticks :=
      hlast.value_eq (hzero .delay) hrestart
    refine ⟨hdelay, fun w hw hop hnn ↦ ?_⟩
    obtain ⟨hresult, hget⟩ := cycle_of_readDelay hw hop hnn
    exact ⟨hresult, by rw [hget, hdelay]⟩
  · intro value ticks hlast
    have hsound : n.timers.sound.toNat = value.toNat - ticks :=
      hlast.value_eq (hzero .sound) hrestart
    refine ⟨hsound, ?_⟩
    rw [← hsound, soundActive, Timers.soundActive, decide_eq_true_iff, Nat.pos_iff_ne_zero,
      ne_eq, ne_eq, ← UInt8.toNat_inj]
    rfl

/-- The delay timer is read two ticks after it was set to five.  The value goes to the sound
timer, and that is silent again after three ticks. -/
theorem timers_decay_load :
    let first := ((ofSeed 0).perform
      (.load [0x60, 0x05, 0xF0, 0x15, 0xF1, 0x07, 0xF1, 0x18])).machine
    let read : List Operation := [.cycle] ++ .cycle :: [.tickTimers, .tickTimers]
    let played := (read ++ [.cycle]) ++ .cycle :: [.tickTimers, .tickTimers, .tickTimers]
    ((first.run read).cycle.machine.registers.get 1).toNat = 3 ∧
      (first.run played).soundActive = false := by
  intro first read played
  have hfits : (Operation.load [0x60, 0x05, 0xF0, 0x15, 0xF1, 0x07, 0xF1, 0x18]).Restarts := by
    change 8 ≤ programCapacity
    decide
  have hrun : (first.run [.cycle]).execution = .running ∧
      (first.run [.cycle]).fetch = .ok 0xF015 ∧
      (first.run [.cycle]).registers.get 0 = 5 ∧
      (first.run read).execution = .running ∧ (first.run read).fetch = .ok 0xF107 ∧
      (first.run (read ++ [.cycle])).execution = .running ∧
      (first.run (read ++ [.cycle])).fetch = .ok 0xF118 ∧
      (first.run (read ++ [.cycle])).registers.get 1 = 3 := by
    decide +kernel
  obtain ⟨hexec, hfetch, hfive, hreads, hword, hplays, hnext, hthree⟩ := hrun
  have hquiet (m : Machine) (timer : Timer) {ticks : List Operation}
      (hticks : .cycle ∉ ticks) : m.Undisturbed timer ticks := by
    rintro before after rfl
    simp at hticks
  have hdelay : first.LastSet .delay read 5 2 :=
    .set ⟨0xF015, ⟨hexec, hfetch⟩, rfl, rfl, hfive⟩ (hquiet _ _ (by simp))
  have hsound : first.LastSet .sound played 3 3 :=
    .set ⟨0xF118, ⟨hplays, hnext⟩, rfl, rfl, hthree⟩ (hquiet _ _ (by simp))
  have hread : ∀ operation ∈ read, ¬operation.Restarts := by
    simp [read, Operation.Restarts]
  have hplayed : ∀ operation ∈ played, ¬operation.Restarts := by
    simp [played, read, Operation.Restarts]
  obtain ⟨-, hdelays, -⟩ := timers_decay (m := ofSeed 0) hfits hread
  obtain ⟨-, -, hsounds⟩ := timers_decay (m := ofSeed 0) hfits hplayed
  obtain ⟨-, hvalue⟩ := hdelays 5 2 hdelay
  obtain ⟨-, hactive⟩ := hsounds 3 3 hsound
  obtain ⟨-, hget⟩ := hvalue 0xF107 ⟨hreads, hword⟩ rfl rfl
  have hregister : Word.x 0xF107 = 1 := rfl
  constructor
  · dsimp only [first]
    rw [← hregister, hget]
    decide
  · rw [← Bool.not_eq_true]
    exact fun h ↦ absurd (hactive.mp h) (by decide)

end Machine
end Chip8
