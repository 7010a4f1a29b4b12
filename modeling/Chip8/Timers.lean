/-!
# Timers

The delay timer and the sound timer count down by one with every tick of the timer
clock and stop at zero.  A tone sounds while the sound timer is not zero.
-/

namespace Chip8

structure Timers where
  delay : UInt8 := 0
  sound : UInt8 := 0
deriving DecidableEq

namespace Timers

def countDown (value : UInt8) : UInt8 := if value = 0 then 0 else value - 1

@[simp] theorem toNat_countDown (value : UInt8) :
    (countDown value).toNat = value.toNat - 1 := by
  unfold countDown
  split
  · simp_all
  · have hpos : 1 ≤ value := by
      rw [UInt8.le_iff_toNat_le]
      have hne : value.toNat ≠ 0 := fun h ↦ by
        apply ‹¬value = 0›
        exact UInt8.toNat_inj.mp (by simpa using h)
      simpa using Nat.one_le_iff_ne_zero.mpr hne
    simpa using UInt8.toNat_sub_of_le value 1 hpos

def tick (timers : Timers) : Timers :=
  { delay := countDown timers.delay, sound := countDown timers.sound }

def soundActive (timers : Timers) : Bool := decide (timers.sound ≠ 0)

end Timers
end Chip8
