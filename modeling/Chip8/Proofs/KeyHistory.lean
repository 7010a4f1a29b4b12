import Chip8.Keypad
import Chip8.Proofs.Histories

/-!
# Keypads by their history

A keypad keeps two records, which both follow from what was done to it.  A key is down if the
last report on it since all keys were released said so.  A press is on record until it is taken,
presses are discarded or all keys are released, and the release of its key alone does not end
it.  The first record makes no use of the second.
-/

namespace Chip8
namespace Keypad

/-- What is done to a keypad.  A pin stands for the key that its low digit selects. -/
inductive Step where
  | set (pin : UInt8) (isDown : Bool)
  | releaseAll
  | discardPresses
  | takePress
  | askDown (pin : UInt8)
  | askFirstDown
deriving DecidableEq

namespace Step

def Presses (key : Key) (step : Step) : Prop :=
  ∃ pin, step = .set pin true ∧ Nibble.ofByte pin = key

/-- The step says whether the key is down, whatever was reported before. -/
def Settles (key : Key) (step : Step) : Prop :=
  step = .releaseAll ∨ ∃ pin isDown, step = .set pin isDown ∧ Nibble.ofByte pin = key

/-- The step leaves no press on record. -/
def Forgets (step : Step) : Prop := step ∈ [.releaseAll, .discardPresses, .takePress]

/-- A step that starts something was made and none of the steps after it ends it. -/
def Since (starts ends : Step → Prop) (history : List Step) : Prop :=
  ∃ before step after, history = before ++ step :: after ∧ starts step ∧
    ∀ later ∈ after, ¬ends later

variable {starts ends : Step → Prop} {history : List Step} {step : Step} {key : Key}

theorem not_since_nil : ¬Since starts ends [] := by
  rintro ⟨before, step, after, h, -, -⟩
  simp at h

theorem since_append_singleton :
    Since starts ends (history ++ [step]) ↔
      starts step ∨ ¬ends step ∧ Since starts ends history := by
  constructor
  · rintro ⟨before, first, after, h, hstarts, hkept⟩
    rcases append_singleton_eq_iff.mp h with ⟨-, -, rfl⟩ | ⟨rest, rfl, rfl⟩
    · exact Or.inl hstarts
    · refine Or.inr ⟨hkept step (by simp), before, first, rest, rfl, hstarts, ?_⟩
      intro later hlater
      exact hkept later (by simp [hlater])
  · rintro (hstarts | ⟨hends, before, first, after, rfl, hstarts, hkept⟩)
    · exact ⟨history, step, [], rfl, hstarts, by simp⟩
    · refine ⟨before, first, after ++ [step], by simp, hstarts, ?_⟩
      intro later hlater
      rcases List.mem_append.mp hlater with hmem | hlast
      · exact hkept later hmem
      · rwa [List.mem_singleton.mp hlast]

/-- The last report on the key since all keys were released said that it is down. -/
def Held (history : List Step) (key : Key) : Prop := Since (Presses key) (Settles key) history

/-- The key was pressed and since then no step left the record empty. -/
def Recorded (history : List Step) (key : Key) : Prop := Since (Presses key) Forgets history

end Step

open Step

/-! ## Single steps -/

def perform (keypad : Keypad) : Step → Keypad
  | .set pin isDown => keypad.set (Nibble.ofByte pin) isDown
  | .releaseAll => keypad.releaseAll
  | .discardPresses => keypad.discardPresses
  | .takePress => keypad.takePress.2
  | .askDown _ | .askFirstDown => keypad

variable {keypad other : Keypad} {history : List Step} {step : Step} {key : Key}

theorem isDown_perform_iff :
    (keypad.perform step).isDown key = true ↔
      step.Presses key ∨ ¬step.Settles key ∧ keypad.isDown key = true := by
  cases step with
  | set pin isDown =>
      rw [perform, isDown_set, Presses, Settles]
      by_cases hkey : Nibble.ofByte pin = key
      · simp [hkey]
      · simp [hkey]
  | releaseAll => simp [perform, releaseAll, Keypad.isDown, Presses, Settles]
  | _ => simp [perform, takePress, discardPresses, Keypad.isDown, Presses, Settles]

theorem isPressed_perform_iff :
    (keypad.perform step).isPressed key = true ↔
      step.Presses key ∨ ¬step.Forgets ∧ keypad.isPressed key = true := by
  cases step with
  | set pin isDown => simp [perform, isPressed_set, Presses, Forgets, or_comm]
  | askDown pin => simp [perform, Presses, Forgets]
  | askFirstDown => simp [perform, Presses, Forgets]
  | _ => simp [perform, takePress, Presses, Forgets]

theorem down_perform_congr (h : keypad.down = other.down) (step : Step) :
    (keypad.perform step).down = (other.perform step).down := by
  cases step with
  | set pin isDown => exact congrArg (fun down ↦ down.set (Nibble.ofByte pin) isDown) h
  | releaseAll => rfl
  | _ => exact h

/-! ## Histories -/

def run (keypad : Keypad) (history : List Step) : Keypad := history.foldl perform keypad

theorem run_append_singleton :
    keypad.run (history ++ [step]) = (keypad.run history).perform step :=
  List.foldl_append

/-- What each step starts, keeps or ends stands after a history if it was started and not ended
since. -/
theorem run_iff_since {P : Keypad → Prop} {starts ends : Step → Prop} (hnew : ¬P {})
    (hstep : ∀ keypad step, P (keypad.perform step) ↔ starts step ∨ ¬ends step ∧ P keypad)
    (history : List Step) : P (run {} history) ↔ Since starts ends history := by
  induction history using List.reverseRecOn with
  | nil => exact iff_of_false hnew not_since_nil
  | append_singleton history step ih =>
      rw [run_append_singleton, hstep, ih, since_append_singleton]

theorem isDown_run_iff (history : List Step) (key : Key) :
    (run {} history).isDown key = true ↔ Held history key := by
  apply run_iff_since (P := fun keypad ↦ keypad.isDown key = true)
  · simp [Keypad.isDown]
  · intro keypad step
    exact isDown_perform_iff

theorem isPressed_run_iff (history : List Step) (key : Key) :
    (run {} history).isPressed key = true ↔ Recorded history key := by
  apply run_iff_since (P := fun keypad ↦ keypad.isPressed key = true)
  · simp [Keypad.isPressed]
  · intro keypad step
    exact isPressed_perform_iff

/-- The record of presses makes no difference to which keys are down later. -/
theorem down_run_congr (h : keypad.down = other.down) (history : List Step) :
    (keypad.run history).down = (other.run history).down := by
  induction history using List.reverseRecOn with
  | nil => exact h
  | append_singleton history step ih =>
      rw [run_append_singleton, run_append_singleton]
      exact down_perform_congr ih step

/-! ## The lowest key -/

/-- The answer is the lowest marked key, or none if no key is marked. -/
def IsLowest (marked : Key → Prop) : Option Key → Prop
  | some key => marked key ∧ ∀ k < key, ¬marked k
  | none => ∀ key, ¬marked key

theorem isLowest_lowest? {marks : Vector Bool 16} {marked : Key → Prop}
    (h : ∀ key, marks.get key = true ↔ marked key) : IsLowest marked (lowest? marks) := by
  cases hlowest : lowest? marks with
  | none =>
      intro key hmarked
      have hup : marks.get key = false := lowest?_eq_none_iff.mp hlowest key
      exact Bool.false_ne_true (hup.symm.trans ((h key).mpr hmarked))
  | some key =>
      obtain ⟨hkey, hbelow⟩ := lowest?_eq_some_iff.mp hlowest
      refine ⟨(h key).mp hkey, fun k hk hmarked ↦ ?_⟩
      have hup : marks.get k = false := hbelow k hk
      exact Bool.false_ne_true (hup.symm.trans ((h k).mpr hmarked))

/-- A keypad in use shows the keys that its history holds down and gives away the presses that
its history recorded.  What becomes of the presses makes no difference to the keys that are down,
and a release takes no press off the record. -/
theorem keypad_follows_history (history : List Step) :
    let keypad := run {} history
    (∀ pin, keypad.isDown (Nibble.ofByte pin) = true ↔ Held history (Nibble.ofByte pin)) ∧
      IsLowest (Recorded history) keypad.takePress.1 ∧
      IsLowest (Held history) keypad.firstDown? ∧
      (∀ pin key, key ≠ Nibble.ofByte pin →
        (keypad.perform (.set pin true)).isDown key = keypad.isDown key) ∧
      (∀ key, (keypad.perform .takePress).isDown key = keypad.isDown key ∧
        (keypad.perform .discardPresses).isDown key = keypad.isDown key) ∧
      (∀ pressed later, (run { keypad with pressed } later).down = (keypad.run later).down) ∧
      ∀ pin key, (keypad.perform (.set pin false)).isPressed key = keypad.isPressed key := by
  intro keypad
  refine ⟨fun pin ↦ isDown_run_iff history (Nibble.ofByte pin),
    isLowest_lowest? (isPressed_run_iff history), isLowest_lowest? (isDown_run_iff history),
    ?_, fun key ↦ ⟨rfl, rfl⟩, ?_, fun pin key ↦ rfl⟩
  · intro pin key hne
    rw [perform, isDown_set, if_neg hne.symm]
  · intro pressed later
    have hdown : { keypad with pressed }.down = keypad.down := rfl
    exact down_run_congr hdown later

/-- Key 4 is up again but still on record, so it is taken before key 9, which is the lowest key
that is down.  Another press of key 4 leaves key 9 down. -/
theorem keypad_follows_history_rollover :
    let history : List Step := [.set 0x14 true, .set 0x24 false, .set 0x09 true, .askFirstDown]
    let keypad := run {} history
    keypad.takePress.1 = some 4 ∧ Recorded history 4 ∧ ¬Held history 4 ∧
      keypad.firstDown? = some 9 ∧ Held history 9 ∧ (∀ k < 9, ¬Held history k) ∧
      (keypad.perform (.set 0x34 true)).isDown 9 = true := by
  intro history keypad
  obtain ⟨hdown, htaken, hfirst, hothers, -⟩ := keypad_follows_history history
  have hpress : keypad.takePress.1 = some 4 := by decide
  have hlowest : keypad.firstDown? = some 9 := by decide
  rw [hpress] at htaken
  rw [hlowest] at hfirst
  have hup : ¬Held history 4 := hfirst.2 4 (by decide)
  refine ⟨hpress, htaken.1, hup, hlowest, hfirst.1, hfirst.2, ?_⟩
  rw [hothers 0x34 9 (by decide)]
  exact (hdown 0x39).mpr hfirst.1

end Keypad
end Chip8
