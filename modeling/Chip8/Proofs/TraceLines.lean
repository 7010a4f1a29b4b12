import Chip8.Machine.Cycle
import Chip8.Proofs.HexText
import Mathlib.Data.List.Basic

/-!
# The line of an instruction

The line that the log has for an instruction shows the program counter, the word, the mnemonic
and the registers.  All columns have a fixed width but the one of the mnemonic, and the word
determines the mnemonic.  So the line gives back all that it shows.
-/

namespace Chip8

namespace Hex

theorem toList_padded {width value : Nat} (hwidth : 0 < width) (h : value < 16 ^ width) :
    (padded width value).toList = column width value := by
  rw [padded_eq_column hwidth h, String.toList_ofList]

end Hex

/-- Pieces of one width between separators are found again, and so is what follows them. -/
theorem intercalate_append_inj {α : Type} {separator : List α} {width : Nat}
    {xs ys : List (List α)} {rest other : List α} (hlength : xs.length = ys.length)
    (hxs : ∀ x ∈ xs, x.length = width) (hys : ∀ y ∈ ys, y.length = width)
    (h : separator.intercalate xs ++ rest = separator.intercalate ys ++ other) :
    xs = ys ∧ rest = other := by
  induction xs generalizing ys with
  | nil =>
      obtain rfl := List.length_eq_zero_iff.mp hlength.symm
      exact ⟨rfl, h⟩
  | cons x xs ih =>
      cases ys with
      | nil => cases hlength
      | cons y ys =>
          have hwidth : x.length = y.length :=
            (hxs x List.mem_cons_self).trans (hys y List.mem_cons_self).symm
          have htail : xs.length = ys.length := Nat.succ.inj hlength
          cases xs with
          | nil =>
              obtain rfl := List.length_eq_zero_iff.mp htail.symm
              rw [List.intercalate_singleton, List.intercalate_singleton] at h
              obtain ⟨rfl, hrest⟩ := List.append_inj h hwidth
              exact ⟨rfl, hrest⟩
          | cons x' xs =>
              cases ys with
              | nil => cases htail
              | cons y' ys =>
                  rw [List.intercalate_cons_cons, List.intercalate_cons_cons] at h
                  simp only [List.append_assoc] at h
                  obtain ⟨rfl, hlater⟩ := List.append_inj h hwidth
                  obtain ⟨htails, hrest⟩ := ih htail
                    (fun z hz ↦ hxs z (List.mem_cons_of_mem _ hz))
                    (fun z hz ↦ hys z (List.mem_cons_of_mem _ hz))
                    (List.append_cancel_left hlater)
                  exact ⟨by rw [htails], hrest⟩

namespace Word

/-- The name of the instruction of a word, which is empty if there is none. -/
def mnemonic (w : Word) : String := ((Instruction.lookup w).map Pattern.mnemonic).getD ""

theorem mnemonic_of_lookup {w : Word} {pattern : Pattern}
    (h : Instruction.lookup w = some pattern) : w.mnemonic = pattern.mnemonic := by
  rw [mnemonic, h]
  rfl

end Word

/-- What the line of an instruction shows of the machine before it. -/
structure Snapshot where
  address : Address
  word : Word
  values : Vector UInt8 16
  index : Address
deriving DecidableEq

namespace Snapshot

variable {s t : Snapshot}

def entry (s : Snapshot) : LogEntry :=
  .executing s.address s.word s.word.mnemonic s.values s.index

def line (s : Snapshot) : String := s.entry.message

/-- The digits of the registers, one column for each. -/
def columns (s : Snapshot) : List (List Char) :=
  s.values.toList.map (fun value ↦ Hex.column 2 value.toNat)

theorem length_of_mem_columns {column : List Char} (h : column ∈ s.columns) :
    column.length = 2 := by
  obtain ⟨value, -, rfl⟩ := List.mem_map.mp h
  exact Hex.length_column 2 value.toNat

theorem values_eq_of_columns (h : s.columns = t.columns) : s.values = t.values := by
  have hcolumn : Function.Injective (fun value : UInt8 ↦ Hex.column 2 value.toNat) := by
    intro a b hab
    exact UInt8.toNat_inj.mp (Hex.column_inj a.toNat_lt b.toNat_lt hab)
  exact Vector.toList_inj.mp (List.map_injective_iff.mpr hcolumn h)

theorem toList_valuesText (s : Snapshot) :
    (LogEntry.valuesText s.values).toList = '[' :: [',', ' '].intercalate s.columns ++ [']'] := by
  have hcolumns : (s.values.toList.map (fun value ↦ Hex.padded 2 value.toNat)).map String.toList =
      s.columns := by
    rw [List.map_map]
    apply List.map_congr_left
    intro value _
    exact Hex.toList_padded (by decide) value.toNat_lt
  rw [LogEntry.valuesText, String.toList_append, String.toList_append, String.toList_intercalate,
    hcolumns]
  rfl

/-- The line in columns.  Only the one of the mnemonic has a width that depends on the word. -/
theorem toList_line (s : Snapshot) :
    s.line.toList =
      Hex.column 3 s.address.val ++ (": ".toList ++ (Hex.column 4 s.word.toNat ++
        ((" " ++ LogEntry.padRight 14 s.word.mnemonic ++ " v").toList ++
          ('[' :: ([',', ' '].intercalate s.columns ++
            (']' :: (" i".toList ++ Hex.column 3 s.index.val))))))) := by
  have haddress : (Hex.padded 3 s.address.val).toList = Hex.column 3 s.address.val :=
    Hex.toList_padded (by decide) s.address.isLt
  have hword : s.word.text.toList = Hex.column 4 s.word.toNat :=
    Hex.toList_padded (by decide) (show s.word.toNat < 16 ^ 4 from s.word.toNat_lt)
  have hindex : (Hex.padded 3 s.index.val).toList = Hex.column 3 s.index.val :=
    Hex.toList_padded (by decide) s.index.isLt
  unfold line entry LogEntry.message
  simp only [String.toList_append]
  rw [toList_valuesText, haddress, hword, hindex]
  simp only [List.append_assoc, List.cons_append, List.nil_append]

theorem line_injective : Function.Injective line := by
  intro s t h
  have hchars : s.line.toList = t.line.toList := congrArg String.toList h
  rw [s.toList_line, t.toList_line] at hchars
  obtain ⟨haddress, hrest⟩ := List.append_inj hchars (by simp)
  obtain ⟨hword, hrest⟩ := List.append_inj (List.append_cancel_left hrest) (by simp)
  have hword : s.word = t.word :=
    UInt16.toNat_inj.mp (Hex.column_inj s.word.toNat_lt t.word.toNat_lt hword)
  -- Equal words have equal mnemonics, so what follows starts at the same place.
  rw [hword] at hrest
  have hrest := (List.cons.inj (List.append_cancel_left hrest)).2
  obtain ⟨hcolumns, hrest⟩ := intercalate_append_inj (by simp [columns])
    (fun _ ↦ length_of_mem_columns) (fun _ ↦ length_of_mem_columns) hrest
  have hrest := List.append_cancel_left (List.cons.inj hrest).2
  have hindex : s.index = t.index :=
    Fin.ext (Hex.column_inj s.index.isLt t.index.isLt hrest)
  have haddress : s.address = t.address :=
    Fin.ext (Hex.column_inj s.address.isLt t.address.isLt haddress)
  have hvalues : s.values = t.values := values_eq_of_columns hcolumns
  cases s
  cases t
  congr

end Snapshot
end Chip8
