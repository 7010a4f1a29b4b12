import Chip8.Proofs.Footprints
import Chip8.Proofs.Restarts

/-!
# Random bytes in order

Only the instruction that loads a random byte draws on the source, and it takes one byte, also
if it keeps no bit of it.  A restart keeps the position in the source.  So in a run of any
length the bytes come in the order of the source, none is used twice and none is skipped.
-/

namespace Chip8
namespace Machine

variable {m : Machine} {w : Word}

/-- The next cycle of the machine executes the instruction that loads a random byte. -/
def LoadsRandom (m : Machine) : Prop := ∃ w, m.Fetches w ∧ w.op = 0xC

theorem loadsRandom_iff :
    m.LoadsRandom ↔ m.execution = .running ∧ ∃ w ∈ m.fetch.toOption, w.op = 0xC := by
  constructor
  · rintro ⟨w, ⟨hrun, hfetch⟩, hop⟩
    exact ⟨hrun, w, by rw [hfetch]; rfl, hop⟩
  · rintro ⟨hrun, w, hmem, hop⟩
    cases hfetch : m.fetch with
    | error fault => simp [hfetch, Except.toOption] at hmem
    | ok word =>
        rw [hfetch] at hmem
        cases hmem
        exact ⟨_, ⟨hrun, hfetch⟩, hop⟩

instance (m : Machine) : Decidable m.LoadsRandom := decidable_of_iff _ loadsRandom_iff.symm

/-- How many random bytes an operation makes a machine load, one or none. -/
def randomLoad (m : Machine) (operation : Operation) : Nat :=
  if operation = .cycle ∧ m.LoadsRandom then 1 else 0

/-- How many random bytes a history makes a machine load. -/
def randomLoads (m : Machine) : List Operation → Nat
  | [] => 0
  | operation :: history =>
      m.randomLoad operation + (m.perform operation).machine.randomLoads history

theorem randomLoads_append_singleton (m : Machine) (history : List Operation)
    (operation : Operation) :
    m.randomLoads (history ++ [operation]) =
      m.randomLoads history + (m.run history).randomLoad operation := by
  induction history generalizing m with
  | nil => simp [randomLoads]
  | cons first history ih => simp [randomLoads, ih, Nat.add_assoc]

/-! ## Single operations -/

theorem cycle_of_random (hw : m.Fetches w) (hop : w.op = 0xC) :
    m.cycle.result = .ok .executed ∧
      m.cycle.machine.registers.get w.x = m.random.peek &&& w.nn ∧
      m.cycle.machine.random = m.random.advance := by
  obtain ⟨hmachine, hresult⟩ :=
    cycle_of_step hw (i := .random w.x w.nn) ⟨hop, rfl, rfl⟩ (.random w.x w.nn)
  rw [hmachine]
  exact ⟨hresult, m.registers.get_set_self w.x _, rfl⟩

theorem random_cycle_of_not_loadsRandom (h : ¬m.LoadsRandom) :
    m.cycle.machine.random = m.random := by
  rcases m.confined_or_exists_eq with ⟨w, hw, hconfined⟩ | ⟨keypad, registers, execution, heq⟩
  · by_contra hne
    exact h ⟨w, hw, (hconfined.random hne).1⟩
  · rw [heq]

/-- No other operation draws on the source, whether it succeeds or not. -/
theorem random_perform_of_not_loadsRandom (operation : Operation)
    (h : ¬(operation = .cycle ∧ m.LoadsRandom)) :
    (m.perform operation).machine.random = m.random := by
  cases operation with
  | cycle => exact random_cycle_of_not_loadsRandom (fun hloads ↦ h ⟨rfl, hloads⟩)
  | load bytes =>
      rcases Nat.lt_or_ge programCapacity bytes.length with hlarge | hfits
      · rw [perform, loadBytes_of_lt hlarge]
      · rw [perform, loadBytes_of_le hfits]
        rfl
  | _ => rfl

theorem random_loadStored (m : Machine) (path : String)
    (content : Except ReadError (List UInt8)) :
    (m.loadStored path content).machine.random = m.random := by
  cases content with
  | error cause => rfl
  | ok bytes =>
      rw [machine_loadStored]
      exact random_perform_of_not_loadsRandom (.load bytes) (by simp)

theorem random_perform (m : Machine) (operation : Operation) :
    (m.perform operation).machine.random =
      { m.random with position := m.random.position + m.randomLoad operation } := by
  by_cases h : operation = .cycle ∧ m.LoadsRandom
  · obtain ⟨rfl, w, hw, hop⟩ := h
    rw [randomLoad, if_pos ⟨rfl, w, hw, hop⟩, perform, (cycle_of_random hw hop).2.2]
    rfl
  · rw [randomLoad, if_neg h, random_perform_of_not_loadsRandom operation h]
    rfl

/-! ## Runs -/

/-- The position in the source counts the bytes that were loaded. -/
theorem random_run (m : Machine) (history : List Operation) :
    (m.run history).random =
      { m.random with position := m.random.position + m.randomLoads history } := by
  induction history using List.reverseRecOn with
  | nil => rfl
  | append_singleton history operation ih =>
      rw [run_append_singleton, random_perform, ih, randomLoads_append_singleton, Nat.add_assoc]

/-- The random bytes of every run of a machine made from a seed. -/
theorem random_bytes_in_order (seed : UInt64) (history : List Operation) :
    let first := ofSeed seed
    let m := first.run history
    let count := first.randomLoads history
    m.random = { seed, position := count } ∧
      (∀ w, m.Fetches w → w.op = 0xC →
        m.cycle.result = .ok .executed ∧
          m.cycle.machine.registers.get w.x = Keystream.byte seed count &&& w.nn ∧
          m.cycle.machine.random = { seed, position := count + 1 } ∧
          first.randomLoads (history ++ [.cycle]) = count + 1) ∧
      (∀ operation, ¬(operation = .cycle ∧ m.LoadsRandom) →
        (m.perform operation).machine.random = m.random ∧
          first.randomLoads (history ++ [operation]) = count) ∧
      ∀ path content, (m.loadStored path content).machine.random = m.random := by
  intro first m count
  have hrandom : m.random = { seed, position := count } := by
    have hrun := random_run first history
    rw [hrun]
    exact congrArg (RandomSource.mk seed) (Nat.zero_add count)
  refine ⟨hrandom, ?_, ?_, m.random_loadStored⟩
  · intro w hw hop
    obtain ⟨hresult, hget, hadvance⟩ := cycle_of_random hw hop
    rw [hrandom] at hget hadvance
    refine ⟨hresult, hget, hadvance, ?_⟩
    rw [randomLoads_append_singleton, randomLoad, if_pos ⟨rfl, w, hw, hop⟩]
  · intro operation hnot
    refine ⟨random_perform_of_not_loadsRandom operation hnot, ?_⟩
    rw [randomLoads_append_singleton, randomLoad, if_neg hnot]
    rfl

/-- Two bytes are spent without a trace, one of them before a reset, and the third is loaded. -/
theorem random_bytes_in_order_reset :
    let m := (ofSeed 8).run [.load [0xC1, 0x00, 0xC2, 0x0F], .cycle, .reset, .cycle]
    m.Fetches 0xC20F ∧ m.registers.get 1 = 0 ∧ m.cycle.machine.registers.get 2 = 0xD := by
  intro m
  have hrun : m.execution = .running ∧ m.fetch = .ok 0xC20F ∧ m.registers.get 1 = 0 ∧
      (ofSeed 8).randomLoads [.load [0xC1, 0x00, 0xC2, 0x0F], .cycle, .reset, .cycle] = 2 := by
    decide +kernel
  obtain ⟨hexec, hfetch, hzero, hcount⟩ := hrun
  have hw : m.Fetches 0xC20F := ⟨hexec, hfetch⟩
  obtain ⟨-, hloads, -⟩ := random_bytes_in_order 8
    [.load [0xC1, 0x00, 0xC2, 0x0F], .cycle, .reset, .cycle]
  obtain ⟨-, hget, -⟩ := hloads 0xC20F hw rfl
  have hregister : Word.x 0xC20F = 2 := rfl
  rw [hcount, hregister] at hget
  refine ⟨hw, hzero, ?_⟩
  dsimp only [m]
  rw [hget]
  decide +kernel

end Machine
end Chip8
