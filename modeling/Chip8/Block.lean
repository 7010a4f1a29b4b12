/-!
# Blocks of a fixed array

A block is a run of consecutive entries.  Reading one gives a list, and writing one
replaces entry after entry and leaves all others alone.
-/

namespace Chip8
namespace Block

variable {α : Type} {n : Nat}

def read (v : Vector α n) (start count : Nat) (h : start + count ≤ n) : List α :=
  List.ofFn (fun i : Fin count ↦ v.get ⟨start + i.val, by omega⟩)

@[simp] theorem length_read (v : Vector α n) (start count : Nat)
    (h : start + count ≤ n) : (read v start count h).length = count := by
  simp [read]

theorem getElem?_read (v : Vector α n) (start count : Nat) (h : start + count ≤ n)
    (i : Nat) (hi : i < count) : (read v start count h)[i]? = v[start + i]? := by
  have hin : start + i < n := by omega
  simp [read, Vector.get, hi, hin]

/-- The array with a list written from `start` on.  What would lie past the end is
dropped. -/
def write (v : Vector α n) (start : Nat) : List α → Vector α n
  | [] => v
  | a :: rest => write (v.setIfInBounds start a) (start + 1) rest

/-- An entry of the written array comes from the list inside the block and from the
old array outside of it. -/
theorem getElem_write (v : Vector α n) (start : Nat) (entries : List α)
    (i : Nat) (hi : i < n) :
    (write v start entries)[i] =
      if start ≤ i then entries[i - start]?.getD v[i] else v[i] := by
  induction entries generalizing v start with
  | nil => simp [write]
  | cons a rest ih =>
      rw [write, ih]
      by_cases hstart : start = i
      · subst hstart
        rw [if_neg (by omega), if_pos (Nat.le_refl start)]
        simp
      · by_cases hafter : start < i
        · have hindex : i - start = (i - (start + 1)) + 1 := by omega
          rw [if_pos (by omega), if_pos (by omega), hindex]
          simp [hstart]
        · rw [if_neg (by omega), if_neg (by omega)]
          simp [hstart]

theorem getElem_write_of_lt (v : Vector α n) {start : Nat} (entries : List α)
    {i : Nat} (hi : i < n) (h : i < start) :
    (write v start entries)[i] = v[i] := by
  rw [getElem_write, if_neg (by omega)]

theorem getElem_write_of_le (v : Vector α n) {start : Nat} (entries : List α)
    {i : Nat} (hi : i < n) (h : start + entries.length ≤ i) :
    (write v start entries)[i] = v[i] := by
  rw [getElem_write, if_pos (by omega), List.getElem?_eq_none (by omega)]
  rfl

end Block
end Chip8
