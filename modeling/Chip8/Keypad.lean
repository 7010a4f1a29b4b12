import Chip8.Address

/-!
# The keypad

Sixteen keys are up or down as the host last reported.  Besides, every press is
recorded until it is taken or discarded, so a key that was pressed and released
again in between is not missed.  Reporting a held key again records a new press.
-/

namespace Chip8

structure Keypad where
  down : Vector Bool 16 := Vector.replicate 16 false
  /-- Which keys were pressed since the presses were last taken or discarded. -/
  pressed : Vector Bool 16 := Vector.replicate 16 false
deriving DecidableEq

namespace Keypad

def lowest? (marks : Vector Bool 16) : Option Key :=
  (List.finRange 16).find? (fun key : Key ↦ marks[key])

theorem lowest?_eq_some_iff {marks : Vector Bool 16} {key : Key} :
    lowest? marks = some key ↔ marks[key] = true ∧ ∀ k < key, marks[k] = false := by
  unfold lowest?
  rw [List.find?_eq_some_iff_getElem]
  constructor
  · rintro ⟨hmark, i, hi, hget, hbefore⟩
    have hkey : key.val = i := by
      rw [← hget]
      simp
    refine ⟨hmark, fun k hk ↦ ?_⟩
    have hlt : k.val < i := by
      rw [← hkey]
      exact hk
    simpa using hbefore k.val hlt
  · rintro ⟨hmark, hbefore⟩
    refine ⟨hmark, key.val, by simp, by simp, fun j hj ↦ ?_⟩
    have hlt : j < 16 := by omega
    have h := hbefore ⟨j, hlt⟩ hj
    simpa using h

theorem lowest?_eq_none_iff {marks : Vector Bool 16} :
    lowest? marks = none ↔ ∀ key : Key, marks[key] = false := by
  simp [lowest?, List.find?_eq_none]

def isDown (keypad : Keypad) (key : Key) : Bool := keypad.down[key]

def isPressed (keypad : Keypad) (key : Key) : Bool := keypad.pressed[key]

def downKeys (keypad : Keypad) : List Key :=
  (List.finRange 16).filter keypad.isDown

/-- Reports a key as down or up.  A release leaves recorded presses alone. -/
def set (keypad : Keypad) (key : Key) (isDown : Bool) : Keypad :=
  { down := keypad.down.set key isDown
    pressed := if isDown then keypad.pressed.set key true else keypad.pressed }

theorem isDown_set (keypad : Keypad) (key k : Key) (isDown : Bool) :
    (keypad.set key isDown).isDown k = if key = k then isDown else keypad.isDown k := by
  by_cases h : key = k
  · subst h
    simp [set, Keypad.isDown]
  · have hval : key.val ≠ k.val := fun heq ↦ h (Fin.ext heq)
    simp [set, Keypad.isDown, hval, h]

theorem isPressed_set (keypad : Keypad) (key k : Key) (isDown : Bool) :
    (keypad.set key isDown).isPressed k =
      (keypad.isPressed k || (isDown && decide (key = k))) := by
  cases isDown with
  | false => simp [set, isPressed]
  | true =>
      by_cases h : key = k
      · subst h
        simp [set, isPressed]
      · have hval : key.val ≠ k.val := fun heq ↦ h (Fin.ext heq)
        simp [set, isPressed, hval, h]

def discardPresses (keypad : Keypad) : Keypad :=
  { keypad with pressed := Vector.replicate 16 false }

def releaseAll (_ : Keypad) : Keypad := {}

@[simp] theorem isPressed_discardPresses (keypad : Keypad) (key : Key) :
    keypad.discardPresses.isPressed key = false := by
  simp [discardPresses, isPressed]

@[simp] theorem isPressed_releaseAll (keypad : Keypad) (key : Key) :
    keypad.releaseAll.isPressed key = false := by
  simp [releaseAll, isPressed]

theorem eq_replicate_of_forall {marks : Vector Bool 16} (h : ∀ key : Key, marks[key] = false) :
    marks = Vector.replicate 16 false := by
  ext i hi
  have hmark : marks[i] = false := h ⟨i, hi⟩
  simpa using hmark

theorem discardPresses_of_forall {keypad : Keypad}
    (h : ∀ key, keypad.isPressed key = false) : keypad.discardPresses = keypad := by
  rw [discardPresses, ← eq_replicate_of_forall h]

def press? (keypad : Keypad) : Option Key := lowest? keypad.pressed

theorem press?_eq_none_iff {keypad : Keypad} :
    keypad.press? = none ↔ ∀ key, keypad.isPressed key = false :=
  lowest?_eq_none_iff

theorem press?_eq_some_iff {keypad : Keypad} {key : Key} :
    keypad.press? = some key ↔
      keypad.isPressed key = true ∧ ∀ k < key, keypad.isPressed k = false :=
  lowest?_eq_some_iff

/-- The lowest recorded press and the keypad without recorded presses. -/
def takePress (keypad : Keypad) : Option Key × Keypad :=
  (keypad.press?, keypad.discardPresses)

def firstDown? (keypad : Keypad) : Option Key := lowest? keypad.down

end Keypad
end Chip8
