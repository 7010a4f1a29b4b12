import Chip8.Proofs.Cycles

/-!
# Register arithmetic

Registers hold bytes, so a sum or a shift may lose a bit and a difference may need one.  The
flag is this bit, and with it the equation between the old and the new values is exact.  Both
operands are read before anything is written, and the flag is written last, so a result in the
flag register gives way to the flag.
-/

namespace Chip8

/-! ## Bytes and flags -/

namespace Arithmetic

theorem toNat_decide {p q : Prop} [Decidable p] [Decidable q] (h : p ↔ q) :
    (decide p).toNat = if q then 1 else 0 := by
  by_cases hp : p
  · simp [hp, h.mp hp]
  · simp [hp, mt h.mpr hp]

theorem carry_add (a b : UInt8) :
    256 * (decide (256 ≤ a.toNat + b.toNat)).toNat + (a + b).toNat = a.toNat + b.toNat := by
  have ha := a.toNat_lt
  have hb := b.toNat_lt
  rw [UInt8.toNat_add, toNat_decide Iff.rfl]
  split <;> omega

theorem borrow_sub (a b : UInt8) :
    (a - b).toNat + b.toNat = a.toNat + 256 * (1 - (decide (b ≤ a)).toNat) := by
  have ha := a.toNat_lt
  have hb := b.toNat_lt
  rw [UInt8.toNat_sub, toNat_decide UInt8.le_iff_toNat_le]
  split <;> omega

theorem half_div_two (a : UInt8) : 2 * (a / 2).toNat + (decide (a % 2 = 1)).toNat = a.toNat := by
  have ha := a.toNat_lt
  have hodd : a % 2 = 1 ↔ a.toNat % 2 = 1 := by
    rw [← UInt8.toNat_inj, UInt8.toNat_mod]
    rfl
  rw [UInt8.toNat_div, toNat_decide hodd]
  change 2 * (a.toNat / 2) + _ = _
  split <;> omega

theorem carry_double (a : UInt8) :
    256 * (decide (128 ≤ a)).toNat + (a + a).toNat = 2 * a.toNat := by
  have htop : 128 ≤ a ↔ 256 ≤ a.toNat + a.toNat := by
    rw [UInt8.le_iff_toNat_le]
    change 128 ≤ a.toNat ↔ _
    omega
  rw [decide_eq_decide.mpr htop, carry_add, Nat.two_mul]

/-- The equation between the old values `a` and `b`, the flag `f` and the result `r` of an
operation that reports a flag. -/
def Balances (a b f r : Nat) : Arithmetic → Prop
  | .add => 256 * f + r = a + b
  | .subtract => r + b = a + 256 * (1 - f)
  | .shiftRight => 2 * r + f = a
  | .subtractFrom => r + a = b + 256 * (1 - f)
  | .shiftLeft => 256 * f + r = 2 * a
  | _ => True

theorem balances_apply {operation : Arithmetic} {a b value : UInt8} {flag : Bool}
    (h : operation.apply a b = (value, some flag)) :
    operation.Balances a.toNat b.toNat flag.toNat value.toNat := by
  cases operation with
  | add =>
      cases h
      exact carry_add a b
  | subtract =>
      cases h
      exact borrow_sub a b
  | shiftRight =>
      cases h
      exact half_div_two a
  | subtractFrom =>
      cases h
      exact borrow_sub b a
  | shiftLeft =>
      cases h
      exact carry_double a
  | _ => cases h

end Arithmetic

namespace Machine

variable {m : Machine} {w : Word}

/-! ## What a cycle leaves in the registers -/

/-- The cycle of the machine puts a result into register `x` and a flag into the flag register,
which obey a law.  In the flag register only the flag is left. -/
structure Reports (m : Machine) (x : Register) (law : Nat → Nat → Prop) : Prop where
  executed : m.cycle.result = .ok .executed
  balance : ∃ f r, f ≤ 1 ∧ r < 256 ∧ law f r ∧
    (m.cycle.machine.registers.get Register.flag).toNat = f ∧
    (x ≠ Register.flag → (m.cycle.machine.registers.get x).toNat = r)
  others : ∀ z, z ≠ x → z ≠ Register.flag →
    m.cycle.machine.registers.get z = m.registers.get z
  index_eq : m.cycle.machine.registers.index = m.registers.index

/-- The cycle of the machine puts a value into register `x` and leaves all others alone. -/
structure Assigns (m : Machine) (x : Register) (value : UInt8) : Prop where
  executed : m.cycle.result = .ok .executed
  value_eq : m.cycle.machine.registers.get x = value
  others : ∀ z, z ≠ x → m.cycle.machine.registers.get z = m.registers.get z
  index_eq : m.cycle.machine.registers.index = m.registers.index

theorem reports_of_apply (hw : m.Fetches w) (hop : w.op = 0x8) (operation : Arithmetic)
    {value : UInt8} {flag : Bool} (hn : w.n = operation.digit)
    (happly : operation.apply (m.registers.get w.x) (m.registers.get w.y) =
      (value, some flag)) :
    m.Reports w.x (fun f r ↦ operation.Balances (m.registers.get w.x).toNat
      (m.registers.get w.y).toNat f r) := by
  have hi : w.Encodes (.arithmetic operation w.x w.y) := ⟨hop, hn, rfl, rfl⟩
  obtain ⟨hmachine, hresult⟩ := cycle_of_step hw hi (.arithmetic operation w.x w.y)
  have hregisters : m.cycle.machine.registers =
      ((m.registers.set w.x value).setFlag flag).advance 2 := by
    rw [hmachine, calculate, happly]
    rfl
  have hget : ∀ z, m.cycle.machine.registers.get z =
      ((m.registers.set w.x value).setFlag flag).get z := fun z ↦ hregisters ▸ rfl
  refine ⟨hresult, ⟨flag.toNat, value.toNat, flag.toNat_le, value.toNat_lt,
    Arithmetic.balances_apply happly, ?_, ?_⟩, ?_, ?_⟩
  · rw [hget, Registers.toNat_get_setFlag]
  · intro hx
    rw [hget, Registers.get_setFlag_of_ne _ _ hx, Registers.get_set_self]
  · intro z hx hflag
    rw [hget, Registers.get_setFlag_of_ne _ _ hflag,
      Registers.get_set_of_ne _ _ (Ne.symm hx)]
  · rw [hregisters]
    rfl

theorem assigns_of_step {i : Instruction} {x : Register} {value : UInt8} (hw : m.Fetches w)
    (hi : w.Encodes i)
    (hstep : i.Step m .next { m with registers := m.registers.set x value }) :
    m.Assigns x value := by
  obtain ⟨hmachine, hresult⟩ := cycle_of_step hw hi hstep
  refine ⟨hresult, ?_, ?_, ?_⟩
  · rw [hmachine]
    exact Registers.get_set_self m.registers x value
  · intro z hz
    rw [hmachine]
    exact Registers.get_set_of_ne m.registers value (Ne.symm hz)
  · rw [hmachine]
    rfl

theorem assigns_of_apply (hw : m.Fetches w) (hop : w.op = 0x8) (operation : Arithmetic)
    {value : UInt8} (hn : w.n = operation.digit)
    (happly : operation.apply (m.registers.get w.x) (m.registers.get w.y) = (value, none)) :
    m.Assigns w.x value := by
  have hi : w.Encodes (.arithmetic operation w.x w.y) := ⟨hop, hn, rfl, rfl⟩
  have hcalculate : m.calculate operation w.x w.y =
      { m with registers := m.registers.set w.x value } := by
    rw [calculate, happly]
  exact assigns_of_step hw hi (hcalculate ▸ .arithmetic operation w.x w.y)

/-! ### Adding to the index register -/

/-- The sum is taken before the flag register is written, also when it is an operand. -/
theorem registers_addIndex (m : Machine) (x : Register) :
    let sum := m.registers.index.val + (m.registers.get x).toNat
    let registers := { m.registers with index := Fin.ofNat 4096 sum }
    (m.addIndex x).registers =
      if m.compatibility.indexOverflowSetsFlag then registers.setFlag (decide (4096 ≤ sum))
      else registers := by
  intro sum registers
  unfold addIndex
  split <;> rfl

theorem index_addIndex (m : Machine) (x : Register) :
    (m.addIndex x).registers.index.val =
      (m.registers.index.val + (m.registers.get x).toNat) % 4096 := by
  rw [registers_addIndex]
  split <;> rfl

theorem get_addIndex_of_ne (m : Machine) (x : Register) {z : Register}
    (h : z ≠ Register.flag) : (m.addIndex x).registers.get z = m.registers.get z := by
  rw [registers_addIndex]
  split
  · exact Registers.get_setFlag_of_ne _ _ h
  · rfl

theorem get_addIndex_of_not_reported (x z : Register)
    (h : m.compatibility.indexOverflowSetsFlag = false) :
    (m.addIndex x).registers.get z = m.registers.get z := by
  rw [registers_addIndex, h]
  rfl

theorem toNat_get_addIndex_flag (x : Register)
    (h : m.compatibility.indexOverflowSetsFlag = true) :
    ((m.addIndex x).registers.get Register.flag).toNat =
      if 4096 ≤ m.registers.index.val + (m.registers.get x).toNat then 1 else 0 := by
  rw [registers_addIndex, if_pos h, Registers.toNat_get_setFlag]
  exact Arithmetic.toNat_decide Iff.rfl

/-- The arithmetic of the registers is exact, whichever registers are named. -/
theorem arithmetic_is_exact (hw : m.Fetches w) :
    let a := (m.registers.get w.x).toNat
    let b := (m.registers.get w.y).toNat
    let i := m.registers.index.val
    let n := m.cycle.machine
    (w.op = 0x8 →
      (w.n = 0x4 → m.Reports w.x (fun f r ↦ 256 * f + r = a + b)) ∧
        (w.n = 0x5 → m.Reports w.x (fun f r ↦ r + b = a + 256 * (1 - f))) ∧
        (w.n = 0x7 → m.Reports w.x (fun f r ↦ r + a = b + 256 * (1 - f))) ∧
        (w.n = 0x6 → m.Reports w.x (fun f r ↦ 2 * r + f = a)) ∧
        (w.n = 0xE → m.Reports w.x (fun f r ↦ 256 * f + r = 2 * a)) ∧
        (w.n = 0x0 → m.Assigns w.x (m.registers.get w.y)) ∧
        (w.n = 0x1 → m.Assigns w.x (m.registers.get w.x ||| m.registers.get w.y)) ∧
        (w.n = 0x2 → m.Assigns w.x (m.registers.get w.x &&& m.registers.get w.y)) ∧
        (w.n = 0x3 → m.Assigns w.x (m.registers.get w.x ^^^ m.registers.get w.y))) ∧
      (w.op = 0x7 → m.Assigns w.x (UInt8.ofNat ((a + w.nn.toNat) % 256))) ∧
      (w.op = 0xF → w.nn = 0x1E →
        m.cycle.result = .ok .executed ∧ n.registers.index.val = (i + a) % 4096 ∧
          (m.compatibility.indexOverflowSetsFlag = false →
            n.registers.get Register.flag = m.registers.get Register.flag) ∧
          (m.compatibility.indexOverflowSetsFlag = true →
            (n.registers.get Register.flag).toNat = if 4096 ≤ i + a then 1 else 0) ∧
          ∀ z, z ≠ Register.flag → n.registers.get z = m.registers.get z) := by
  intro a b i n
  refine ⟨fun hop ↦ ⟨?_, ?_, ?_, ?_, ?_, ?_, ?_, ?_, ?_⟩, ?_, ?_⟩
  · intro hn
    exact reports_of_apply hw hop .add hn rfl
  · intro hn
    exact reports_of_apply hw hop .subtract hn rfl
  · intro hn
    exact reports_of_apply hw hop .subtractFrom hn rfl
  · intro hn
    exact reports_of_apply hw hop .shiftRight hn rfl
  · intro hn
    exact reports_of_apply hw hop .shiftLeft hn rfl
  · intro hn
    exact assigns_of_apply hw hop .copy hn rfl
  · intro hn
    exact assigns_of_apply hw hop .or hn rfl
  · intro hn
    exact assigns_of_apply hw hop .and hn rfl
  · intro hn
    exact assigns_of_apply hw hop .xor hn rfl
  · intro hop
    have hsum : m.registers.get w.x + w.nn = UInt8.ofNat ((a + w.nn.toNat) % 256) := by
      rw [← UInt8.toNat_inj, UInt8.toNat_add, UInt8.toNat_ofNat', Nat.mod_mod]
    rw [← hsum]
    have hi : w.Encodes (.addByte w.x w.nn) := ⟨hop, rfl, rfl⟩
    exact assigns_of_step hw hi (.addByte w.x w.nn)
  · intro hop hnn
    have hi : w.Encodes (.addIndex w.x) := ⟨hop, hnn, rfl⟩
    obtain ⟨hmachine, hresult⟩ := cycle_of_step hw hi (.addIndex w.x)
    have hregisters : n.registers = (m.addIndex w.x).registers.advance 2 :=
      congrArg Machine.registers hmachine
    rw [hregisters]
    refine ⟨hresult, m.index_addIndex w.x, ?_, ?_, ?_⟩
    · intro hquirk
      exact get_addIndex_of_not_reported w.x Register.flag hquirk
    · intro hquirk
      exact toNat_get_addIndex_flag w.x hquirk
    · intro z hz
      exact m.get_addIndex_of_ne w.x hz

/-- The flag register doubled into itself, then added to the index register past its end. -/
theorem arithmetic_is_exact_flag :
    let m := ((ofSeed 0).load { bytes := [0x6F, 0x80, 0x8F, 0xF4] }).run [.cycle]
    let o := (((ofSeed 0).load { bytes := [0x6F, 0xFF, 0xAF, 0xFF, 0xFF, 0x1E] }).run
      [.configure { indexOverflowSetsFlag := true }, .cycle, .cycle])
    m.Fetches 0x8FF4 ∧ (m.registers.get Register.flag).toNat = 128 ∧
      (m.cycle.machine.registers.get Register.flag).toNat = 1 ∧
      o.Fetches 0xFF1E ∧ o.compatibility.indexOverflowSetsFlag = true ∧
      o.cycle.machine.registers.index.val = 254 ∧
      (o.cycle.machine.registers.get Register.flag).toNat = 1 := by
  intro m o
  have hrun : m.execution = .running ∧ m.fetch = .ok 0x8FF4 ∧
      (m.registers.get Register.flag).toNat = 128 ∧ o.execution = .running ∧
      o.fetch = .ok 0xFF1E ∧ o.compatibility.indexOverflowSetsFlag = true ∧
      o.registers.index.val + (o.registers.get Register.flag).toNat = 4350 := by
    decide +kernel
  obtain ⟨hexec, hfetch, hvalue, hexec', hfetch', hquirk, hsum⟩ := hrun
  have hm : m.Fetches 0x8FF4 := ⟨hexec, hfetch⟩
  have ho : o.Fetches 0xFF1E := ⟨hexec', hfetch'⟩
  obtain ⟨f, r, hf, hr, hlaw, hflag, -⟩ := (((arithmetic_is_exact hm).1 rfl).1 rfl).balance
  have hbits : 256 * f + r = 128 + 128 := by
    rw [hlaw]
    exact congrArg₂ (· + ·) hvalue hvalue
  obtain ⟨-, hindex, -, hset, -⟩ := (arithmetic_is_exact ho).2.2 rfl rfl
  refine ⟨hm, hvalue, ?_, ho, hquirk, ?_, ?_⟩
  · rw [hflag]
    omega
  · rw [hindex]
    exact congrArg (· % 4096) hsum
  · rw [hset hquirk]
    exact if_pos (hsum ▸ by decide)

end Machine
end Chip8
