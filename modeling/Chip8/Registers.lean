import Chip8.Block
import Chip8.Program

/-!
# Registers

There are sixteen registers of one byte each, the index register and the program
counter.  The last two hold addresses and wrap around.
-/

namespace Chip8

structure Registers where
  values : Vector UInt8 16 := Vector.replicate 16 0
  index : Address := 0
  programCounter : Address := Fin.ofNat 4096 programStart
deriving DecidableEq

namespace Registers

def get (regs : Registers) (x : Register) : UInt8 := regs.values[x]

def set (regs : Registers) (x : Register) (value : UInt8) : Registers :=
  { regs with values := regs.values.set x value }

@[simp] theorem get_set_self (regs : Registers) (x : Register) (value : UInt8) :
    (regs.set x value).get x = value := by
  simp [get, set]

theorem get_set_of_ne (regs : Registers) {x y : Register} (value : UInt8)
    (h : x ≠ y) : (regs.set x value).get y = regs.get y := by
  have hval : x.val ≠ y.val := fun heq ↦ h (Fin.ext heq)
  simp [get, set, hval]

theorem eq_of_get_set_ne {regs : Registers} {x y : Register} {value : UInt8}
    (h : (regs.set x value).get y ≠ regs.get y) : x = y := by
  apply Decidable.byContradiction
  intro hne
  exact h (regs.get_set_of_ne value hne)

def setFlag (regs : Registers) (flag : Bool) : Registers :=
  regs.set Register.flag (if flag then 1 else 0)

@[simp] theorem toNat_get_setFlag (regs : Registers) (flag : Bool) :
    ((regs.setFlag flag).get Register.flag).toNat = flag.toNat := by
  rw [setFlag, get_set_self]
  cases flag <;> rfl

theorem get_setFlag_of_ne (regs : Registers) {x : Register} (flag : Bool)
    (h : x ≠ Register.flag) : (regs.setFlag flag).get x = regs.get x :=
  regs.get_set_of_ne _ (Ne.symm h)

def upTo (regs : Registers) (last : Register) : List UInt8 :=
  Block.read regs.values 0 (last.val + 1) (by omega)

@[simp] theorem length_upTo (regs : Registers) (last : Register) :
    (regs.upTo last).length = last.val + 1 := by
  simp [upTo]

theorem getElem?_upTo (regs : Registers) {x last : Register} (h : x ≤ last) :
    (regs.upTo last)[x.val]? = some (regs.get x) := by
  have hx : x.val < last.val + 1 := Nat.lt_succ_of_le h
  rw [upTo, Block.getElem?_read _ _ _ _ _ hx, Nat.zero_add, Vector.getElem?_eq_getElem x.isLt]
  rfl

/-- The registers with a list of values written from the first one on. -/
def fill (regs : Registers) (values : List UInt8) : Registers :=
  { regs with values := Block.write regs.values 0 values }

theorem getElem?_eq_get_fill {values : List UInt8} {x : Register} (regs : Registers)
    (h : x.val < values.length) : values[x.val]? = some ((regs.fill values).get x) := by
  change _ = some (Block.write regs.values 0 values)[x.val]
  rw [Block.getElem_write, if_pos (Nat.zero_le _), Nat.sub_zero, List.getElem?_eq_getElem h,
    Option.getD_some]

theorem lt_of_get_fill_ne {regs : Registers} {values : List UInt8} {x : Register}
    (h : (regs.fill values).get x ≠ regs.get x) : x.val < values.length := by
  apply Nat.lt_of_not_le
  intro hle
  exact h (Block.getElem_write_of_le regs.values values x.isLt (by omega))

def advance (regs : Registers) (distance : Nat) : Registers :=
  { regs with programCounter := regs.programCounter.offset distance }

end Registers
end Chip8
