import Chip8.Instruction.Table
import Mathlib.Data.Fintype.Basic
import Mathlib.Tactic.FinCases

/-!
# Decoding

A mask keeps some digits of a word and drops the others, so a pattern of the table asks
for fixed digits.  Reading the table row by row gives the digits of the words that stand
for each instruction, and of the reserved words that stand for none.
-/

namespace Chip8
namespace Word

theorem op_and (u v : Word) : (u &&& v).op.val = u.op.val &&& v.op.val := by
  simp only [op, Fin.ofNat, UInt16.toNat_and]
  rw [show (4096 : Nat) = 2 ^ 12 from rfl, show (16 : Nat) = 2 ^ 4 from rfl,
    Nat.and_div_two_pow, Nat.and_mod_two_pow]

theorem x_and (u v : Word) : (u &&& v).x.val = u.x.val &&& v.x.val := by
  simp only [x, Fin.ofNat, UInt16.toNat_and]
  rw [show (256 : Nat) = 2 ^ 8 from rfl, show (16 : Nat) = 2 ^ 4 from rfl,
    Nat.and_div_two_pow, Nat.and_mod_two_pow]

theorem y_and (u v : Word) : (u &&& v).y.val = u.y.val &&& v.y.val := by
  simp only [y, Fin.ofNat, UInt16.toNat_and]
  rw [show (16 : Nat) = 2 ^ 4 from rfl, Nat.and_div_two_pow, Nat.and_mod_two_pow]

theorem n_and (u v : Word) : (u &&& v).n.val = u.n.val &&& v.n.val := by
  simp only [n, Fin.ofNat, UInt16.toNat_and]
  rw [show (16 : Nat) = 2 ^ 4 from rfl, Nat.and_mod_two_pow]

theorem toNat_nn (w : Word) : w.nn.toNat = 16 * w.y.val + w.n.val := by
  have h := w.toNat_lt
  simp only [nn, y, n, Fin.ofNat, UInt8.toNat_ofNat']
  omega

theorem eq_iff_digits {u v : Word} :
    u = v ↔ u.op = v.op ∧ u.x = v.x ∧ u.y = v.y ∧ u.n = v.n := by
  rw [← UInt16.toNat_inj, toNat_eq_nibbles u, toNat_eq_nibbles v]
  simp only [Fin.ext_iff]
  omega

theorem nn_eq_iff {u v : Word} : u.nn = v.nn ↔ u.y = v.y ∧ u.n = v.n := by
  rw [← UInt8.toNat_inj, toNat_nn, toNat_nn]
  simp only [Fin.ext_iff]
  omega

theorem lt_iff_op_eq_zero {w : Word} : w < 0x1000 ↔ w.op = 0 := by
  have h := w.toNat_lt
  rw [UInt16.lt_iff_toNat_lt, Fin.ext_iff]
  change w.toNat < 4096 ↔ w.toNat / 4096 % 16 = 0
  omega

theorem and_eq_iff {u v w : Word} :
    u &&& v = w ↔ u.op.val &&& v.op.val = w.op.val ∧ u.x.val &&& v.x.val = w.x.val ∧
      u.y.val &&& v.y.val = w.y.val ∧ u.n.val &&& v.n.val = w.n.val := by
  simp only [eq_iff_digits, Fin.ext_iff, op_and, x_and, y_and, n_and]

/-! ## Digits of literals -/

@[simp] theorem op_ofNat (k : Nat) :
    op (no_index (OfNat.ofNat k)) = ⟨k % 65536 / 4096 % 16, Nat.mod_lt _ (by decide)⟩ := rfl

@[simp] theorem x_ofNat (k : Nat) :
    x (no_index (OfNat.ofNat k)) = ⟨k % 65536 / 256 % 16, Nat.mod_lt _ (by decide)⟩ := rfl

@[simp] theorem y_ofNat (k : Nat) :
    y (no_index (OfNat.ofNat k)) = ⟨k % 65536 / 16 % 16, Nat.mod_lt _ (by decide)⟩ := rfl

@[simp] theorem n_ofNat (k : Nat) :
    n (no_index (OfNat.ofNat k)) = ⟨k % 65536 % 16, Nat.mod_lt _ (by decide)⟩ := rfl

@[simp] theorem nn_ofNat (k : Nat) :
    nn (no_index (OfNat.ofNat k)) = UInt8.ofNat (k % 65536) := rfl

@[simp] theorem and_digit_fifteen : ∀ d : Nibble, d.val &&& 15 = d.val := by decide

end Word

/-! ## Patterns as fixed digits -/

namespace Pattern
open Word

variable {mnemonic : String} {instruction : Word → Instruction} {w e : Word}

@[simp] theorem matches_word_iff :
    (Pattern.mk 0xFFFF e mnemonic instruction).Matches w ↔ w = e := by
  rw [Matches, and_eq_iff, eq_iff_digits]
  simp [Fin.ext_iff]

@[simp] theorem matches_register_iff :
    (Pattern.mk 0xF0FF e mnemonic instruction).Matches w ↔
      w.op = e.op ∧ e.x = 0 ∧ w.nn = e.nn := by
  rw [Matches, and_eq_iff, nn_eq_iff]
  simp only [op_ofNat, x_ofNat, y_ofNat, n_ofNat, Fin.ext_iff, Nat.reduceMod, Nat.reduceDiv,
    and_digit_fifteen, Nat.and_zero]
  omega

@[simp] theorem matches_pair_iff :
    (Pattern.mk 0xF00F e mnemonic instruction).Matches w ↔
      w.op = e.op ∧ e.x = 0 ∧ e.y = 0 ∧ w.n = e.n := by
  rw [Matches, and_eq_iff]
  simp only [op_ofNat, x_ofNat, y_ofNat, n_ofNat, Fin.ext_iff, Nat.reduceMod, Nat.reduceDiv,
    and_digit_fifteen, Nat.and_zero]
  omega

@[simp] theorem matches_class_iff :
    (Pattern.mk 0xF000 e mnemonic instruction).Matches w ↔
      w.op = e.op ∧ e.x = 0 ∧ e.y = 0 ∧ e.n = 0 := by
  rw [Matches, and_eq_iff]
  simp only [op_ofNat, x_ofNat, y_ofNat, n_ofNat, Fin.ext_iff, Nat.reduceMod, Nat.reduceDiv,
    and_digit_fifteen, Nat.and_zero]
  omega

end Pattern

/-! ## Words of an instruction -/

def Arithmetic.digit : Arithmetic → Nibble
  | .copy => 0x0
  | .or => 0x1
  | .and => 0x2
  | .xor => 0x3
  | .add => 0x4
  | .subtract => 0x5
  | .shiftRight => 0x6
  | .subtractFrom => 0x7
  | .shiftLeft => 0xE

def Arithmetic.ofDigit? (n : Nibble) : Option Arithmetic :=
  match n.val with
  | 0x0 => some .copy
  | 0x1 => some .or
  | 0x2 => some .and
  | 0x3 => some .xor
  | 0x4 => some .add
  | 0x5 => some .subtract
  | 0x6 => some .shiftRight
  | 0x7 => some .subtractFrom
  | 0xE => some .shiftLeft
  | _ => none

namespace Word

/-- The digits of the words that stand for an instruction. -/
def Encodes (w : Word) : Instruction → Prop
  | .clearScreen => w = 0x00E0
  | .ret => w = 0x00EE
  | .skipIfKey x => w.op = 0xE ∧ w.nn = 0x9E ∧ x = w.x
  | .skipUnlessKey x => w.op = 0xE ∧ w.nn = 0xA1 ∧ x = w.x
  | .readDelay x => w.op = 0xF ∧ w.nn = 0x07 ∧ x = w.x
  | .awaitKey x => w.op = 0xF ∧ w.nn = 0x0A ∧ x = w.x
  | .setDelay x => w.op = 0xF ∧ w.nn = 0x15 ∧ x = w.x
  | .setSound x => w.op = 0xF ∧ w.nn = 0x18 ∧ x = w.x
  | .addIndex x => w.op = 0xF ∧ w.nn = 0x1E ∧ x = w.x
  | .selectGlyph x => w.op = 0xF ∧ w.nn = 0x29 ∧ x = w.x
  | .storeDecimal x => w.op = 0xF ∧ w.nn = 0x33 ∧ x = w.x
  | .storeRegisters x => w.op = 0xF ∧ w.nn = 0x55 ∧ x = w.x
  | .loadRegisters x => w.op = 0xF ∧ w.nn = 0x65 ∧ x = w.x
  | .skipIfEqual x y => w.op = 0x5 ∧ w.n = 0x0 ∧ x = w.x ∧ y = w.y
  | .arithmetic operation x y => w.op = 0x8 ∧ w.n = operation.digit ∧ x = w.x ∧ y = w.y
  | .skipUnlessEqual x y => w.op = 0x9 ∧ w.n = 0x0 ∧ x = w.x ∧ y = w.y
  | .machineCode word => (w.op = 0x0 ∧ w ≠ 0x00E0 ∧ w ≠ 0x00EE) ∧ word = w
  | .jump target => w.op = 0x1 ∧ target = w.nnn
  | .call target => w.op = 0x2 ∧ target = w.nnn
  | .skipIfByte x value => w.op = 0x3 ∧ x = w.x ∧ value = w.nn
  | .skipUnlessByte x value => w.op = 0x4 ∧ x = w.x ∧ value = w.nn
  | .loadByte x value => w.op = 0x6 ∧ x = w.x ∧ value = w.nn
  | .addByte x value => w.op = 0x7 ∧ x = w.x ∧ value = w.nn
  | .setIndex target => w.op = 0xA ∧ target = w.nnn
  | .jumpOffset base => w.op = 0xB ∧ base = w.nnn
  | .random x bits => w.op = 0xC ∧ x = w.x ∧ bits = w.nn
  | .draw x y rows => w.op = 0xD ∧ x = w.x ∧ y = w.y ∧ rows = w.n

/-- The words that no instruction has. -/
def Reserved (w : Word) : Prop :=
  (w.op = 0x5 ∨ w.op = 0x9) ∧ w.n ≠ 0 ∨
    w.op = 0x8 ∧ w.n ∈ [0x8, 0x9, 0xA, 0xB, 0xC, 0xD, 0xF] ∨
    w.op = 0xE ∧ w.nn ∉ [0x9E, 0xA1] ∨
    w.op = 0xF ∧ w.nn ∉ [0x07, 0x0A, 0x15, 0x18, 0x1E, 0x29, 0x33, 0x55, 0x65]

instance (w : Word) : Decidable w.Reserved := by
  unfold Reserved
  infer_instance

end Word

namespace Instruction
open Word

/-- The register instruction of class `0xF` with a second byte. -/
def ofByte? (x : Register) (nn : UInt8) : Option Instruction :=
  match nn.toNat with
  | 0x07 => some (.readDelay x)
  | 0x0A => some (.awaitKey x)
  | 0x15 => some (.setDelay x)
  | 0x18 => some (.setSound x)
  | 0x1E => some (.addIndex x)
  | 0x29 => some (.selectGlyph x)
  | 0x33 => some (.storeDecimal x)
  | 0x55 => some (.storeRegisters x)
  | 0x65 => some (.loadRegisters x)
  | _ => none

/-- The instruction of a word, read class by class. -/
def ofDigits? (w : Word) : Option Instruction :=
  match w.op.val with
  | 0x0 =>
      if w = 0x00E0 then some .clearScreen
      else if w = 0x00EE then some .ret
      else some (.machineCode w)
  | 0x1 => some (.jump w.nnn)
  | 0x2 => some (.call w.nnn)
  | 0x3 => some (.skipIfByte w.x w.nn)
  | 0x4 => some (.skipUnlessByte w.x w.nn)
  | 0x5 => if w.n = 0 then some (.skipIfEqual w.x w.y) else none
  | 0x6 => some (.loadByte w.x w.nn)
  | 0x7 => some (.addByte w.x w.nn)
  | 0x8 => (Arithmetic.ofDigit? w.n).map (fun operation ↦ .arithmetic operation w.x w.y)
  | 0x9 => if w.n = 0 then some (.skipUnlessEqual w.x w.y) else none
  | 0xA => some (.setIndex w.nnn)
  | 0xB => some (.jumpOffset w.nnn)
  | 0xC => some (.random w.x w.nn)
  | 0xD => some (.draw w.x w.y w.n)
  | 0xE =>
      if w.nn = 0x9E then some (.skipIfKey w.x)
      else if w.nn = 0xA1 then some (.skipUnlessKey w.x)
      else none
  | _ => ofByte? w.x w.nn

/-- A word stands for one instruction at most, the one that its class gives. -/
theorem ofDigits?_of_encodes {w : Word} {i : Instruction} (h : w.Encodes i) :
    ofDigits? w = some i := by
  cases i with
  | clearScreen =>
      cases h
      rfl
  | ret =>
      cases h
      rfl
  | arithmetic operation x y =>
      obtain ⟨hop, hn, rfl, rfl⟩ := h
      cases operation <;> simp [ofDigits?, hop, hn, Arithmetic.digit, Arithmetic.ofDigit?]
  | _ =>
      simp only [Encodes] at h
      simp [ofDigits?, ofByte?, h]

theorem eq_of_encodes {w : Word} {i j : Instruction} (hi : w.Encodes i)
    (hj : w.Encodes j) : i = j :=
  Option.some.inj ((ofDigits?_of_encodes hi).symm.trans (ofDigits?_of_encodes hj))

/-! ## Reading the table -/

theorem encodes_of_mem_table {w : Word} (hcls : w ≠ 0x00E0) (hret : w ≠ 0x00EE) :
    ∀ pattern ∈ table, pattern.Matches w → w.Encodes (pattern.instruction w) := by
  simp [table, wordPatterns, registerPatterns, pairPatterns, classPatterns, Encodes,
    Arithmetic.digit, hcls, hret]

theorem lookup_eq_none_iff {w : Word} :
    lookup w = none ↔ ∀ pattern ∈ table, ¬pattern.Matches w := by
  simp [lookup, firstMatch, List.find?_eq_none]

theorem lookup_eq_none_iff_reserved {w : Word} : lookup w = none ↔ w.Reserved := by
  have hdigit : ∀ n : Nibble, n ∈ [0x8, 0x9, 0xA, 0xB, 0xC, 0xD, 0xF] ↔
      n ∉ [0x0, 0x1, 0x2, 0x3, 0x4, 0x5, 0x6, 0x7, 0xE] := by decide
  rw [lookup_eq_none_iff, Reserved, hdigit]
  simp only [table, wordPatterns, registerPatterns, pairPatterns, classPatterns,
    List.cons_append, List.nil_append, List.forall_mem_cons, Pattern.matches_word_iff,
    Pattern.matches_register_iff, Pattern.matches_pair_iff, Pattern.matches_class_iff,
    eq_iff_digits, op_ofNat, x_ofNat, y_ofNat, n_ofNat, nn_ofNat]
  -- What is left depends on the class alone, or fixes it and compares the other digits.
  generalize w.op = op
  fin_cases op <;> simp

theorem encodes_of_lookup {w : Word} {pattern : Pattern} (h : lookup w = some pattern) :
    w.Encodes (pattern.instruction w) := by
  by_cases hcls : w = 0x00E0
  · subst hcls
    cases h
    rfl
  · by_cases hret : w = 0x00EE
    · subst hret
      cases h
      rfl
    · rw [lookup, firstMatch] at h
      have hmatch : pattern.Matches w := by
        simpa using List.find?_some h
      exact encodes_of_mem_table hcls hret pattern (List.mem_of_find?_eq_some h) hmatch

theorem not_reserved_of_encodes {w : Word} {i : Instruction} (h : w.Encodes i) :
    ¬w.Reserved := by
  cases i with
  | clearScreen =>
      cases h
      decide
  | ret =>
      cases h
      decide
  | arithmetic operation x y =>
      obtain ⟨hop, hn, rfl, rfl⟩ := h
      cases operation <;> simp [Reserved, hop, hn, Arithmetic.digit]
  | _ =>
      simp only [Encodes] at h
      simp [Reserved, h]

/-- The table gives a word the instruction that the digits of the word stand for. -/
theorem ofWord?_eq_some_iff {w : Word} {i : Instruction} :
    ofWord? w = some i ↔ w.Encodes i := by
  constructor
  · intro h
    obtain ⟨pattern, hlookup, rfl⟩ := Option.map_eq_some_iff.mp h
    exact encodes_of_lookup hlookup
  · intro h
    have hsome : lookup w ≠ none :=
      fun hnone ↦ not_reserved_of_encodes h (lookup_eq_none_iff_reserved.mp hnone)
    obtain ⟨pattern, hlookup⟩ := Option.ne_none_iff_exists'.mp hsome
    rw [ofWord?, hlookup, Option.map_some, eq_of_encodes h (encodes_of_lookup hlookup)]

theorem reserved_or_encodes (w : Word) : w.Reserved ∨ ∃ i, w.Encodes i := by
  cases h : lookup w with
  | none => exact Or.inl (lookup_eq_none_iff_reserved.mp h)
  | some pattern => exact Or.inr ⟨_, encodes_of_lookup h⟩

end Instruction
end Chip8
