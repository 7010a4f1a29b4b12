import Chip8.Proofs.Decoding
import Mathlib.Data.List.Nodup

/-!
# Specificity of patterns

Only the patterns of the words `00E0` and `00EE` have a word in common with another pattern,
the one of the class of both words, and they fix more bits than it does.  So each word has at
most one most specific pattern, and a search finds it in any order of the table in which these
two patterns come before the third.
-/

namespace Chip8
namespace Pattern

variable {p q : Pattern} {w : Word}

/-- The pattern `p` fixes all bits that `q` fixes and at least one more. -/
def Specializes (p q : Pattern) : Prop := p.mask &&& q.mask = q.mask ∧ p.mask ≠ q.mask

instance (p q : Pattern) : Decidable (p.Specializes q) := inferInstanceAs (Decidable (_ ∧ _))

/-- The pattern `p` of one word is an exception from the pattern `q` of its class. -/
def Excepts (p q : Pattern) : Prop := p.mnemonic ∈ ["CLS", "RET"] ∧ q.mnemonic = "SYS addr"

instance (p q : Pattern) : Decidable (p.Excepts q) := inferInstanceAs (Decidable (_ ∧ _))

theorem Specializes.asymm (h : p.Specializes q) : ¬q.Specializes p := by
  rintro ⟨hback, -⟩
  obtain ⟨hmask, hne⟩ := h
  rw [UInt16.and_comm, hback] at hmask
  exact hne hmask

/-- An exception has no exceptions. -/
theorem Excepts.not_excepts {r : Pattern} (h : p.Excepts q) : ¬r.Excepts p := by
  rintro ⟨-, hclass⟩
  have hmem : "SYS addr" ∈ ["CLS", "RET"] := hclass ▸ h.1
  revert hmem
  decide

/-- Patterns with a common word expect the same on the bits that both of them fix. -/
theorem agree_of_matches (hp : p.Matches w) (hq : q.Matches w) :
    p.expected &&& q.mask = q.expected &&& p.mask := by
  rw [← hp, ← hq, UInt16.and_assoc, UInt16.and_assoc, UInt16.and_comm p.mask]

end Pattern

namespace Instruction
open Pattern

variable {patterns : List Pattern} {p q : Pattern} {w : Word}

/-! ## Overlaps in the table -/

theorem nodup_keys_table : (table.map (fun p ↦ (p.mask, p.expected))).Nodup := by
  decide +kernel

theorem nodup_table : table.Nodup := .of_map _ nodup_keys_table

theorem excepts_of_agree : ∀ p ∈ table, ∀ q ∈ table,
    p.expected &&& q.mask = q.expected &&& p.mask →
      (p.mask, p.expected) = (q.mask, q.expected) ∨
        p.Excepts q ∧ p.Specializes q ∨ q.Excepts p ∧ q.Specializes p := by
  decide +kernel

/-- Of two patterns of the table with a common word one is an exception from the other. -/
theorem excepts_of_matches (hp : p ∈ table) (hq : q ∈ table) (hne : p ≠ q)
    (hpw : p.Matches w) (hqw : q.Matches w) :
    p.Excepts q ∧ p.Specializes q ∨ q.Excepts p ∧ q.Specializes p := by
  rcases excepts_of_agree p hp q hq (agree_of_matches hpw hqw) with hkey | h
  · exact absurd (List.inj_on_of_nodup_map nodup_keys_table hp hq hkey) hne
  · exact h

/-! ## The first match -/

/-- No pattern of the list comes after one that it is an exception from. -/
def ExceptionsFirst (patterns : List Pattern) : Prop :=
  ∀ p ∈ patterns, ∀ q ∈ patterns, p.Excepts q → [p, q].Sublist patterns

/-- A pattern does not stand before another one that is found first. -/
theorem not_matches_of_sublist (hnodup : patterns.Nodup) (hne : p ≠ q)
    (hsub : [p, q].Sublist patterns) (hfirst : firstMatch patterns w = some q) :
    ¬p.Matches w := by
  obtain ⟨-, before, after, rfl, hnone⟩ := List.find?_eq_some_iff_append.mp hfirst
  have hq : q ∉ after := (List.nodup_cons.mp hnodup.of_append_right).1
  obtain ⟨first, second, hpair, hbefore, hlater⟩ := List.sublist_append_iff.mp hsub
  cases first with
  | nil =>
      -- Then both stand from `q` on, so `q` would occur once more after `p`.
      rw [List.nil_append] at hpair
      subst hpair
      have hagain : [p, q].Sublist after := by
        cases hlater with
        | cons _ h => exact h
        | cons_cons _ _ => exact absurd rfl hne
      exact absurd (hagain.subset (by simp)) hq
  | cons head tail =>
      obtain rfl : p = head := (List.cons.inj hpair).1
      have hmem : p ∈ before := hbefore.subset (by simp)
      simpa using hnone p hmem

/-- What is found in an order with the exceptions first specializes all else that matches. -/
theorem specializes_of_firstMatch (hperm : patterns.Perm table) (hfirst : ExceptionsFirst patterns)
    (hfound : firstMatch patterns w = some p) (hq : q ∈ table) (hqw : q.Matches w)
    (hne : q ≠ p) : p.Specializes q := by
  have hp : p ∈ table := hperm.subset (List.mem_of_find?_eq_some hfound)
  have hpw : p.Matches w := by simpa using List.find?_some hfound
  rcases excepts_of_matches hp hq hne.symm hpw hqw with ⟨-, hspecial⟩ | ⟨hexcepts, -⟩
  · exact hspecial
  · have hsub := hfirst q (hperm.symm.subset hq) p (hperm.symm.subset hp) hexcepts
    have hnodup := hperm.nodup_iff.mpr nodup_table
    exact absurd hqw (not_matches_of_sublist hnodup hne hsub hfound)

/-- An order of the table with the exceptions first finds the most specific match.  The right
side does not mention the order. -/
theorem firstMatch_eq_some_iff (hperm : patterns.Perm table)
    (hfirst : ExceptionsFirst patterns) :
    firstMatch patterns w = some p ↔
      p ∈ table ∧ p.Matches w ∧ ∀ q ∈ table, q.Matches w → q ≠ p → p.Specializes q := by
  constructor
  · intro hfound
    refine ⟨hperm.subset (List.mem_of_find?_eq_some hfound), ?_, fun q hq hqw hne ↦ ?_⟩
    · simpa using List.find?_some hfound
    · exact specializes_of_firstMatch hperm hfirst hfound hq hqw hne
  · rintro ⟨hp, hpw, hspecial⟩
    have hsome : firstMatch patterns w ≠ none := by
      intro hnone
      have hmiss := List.find?_eq_none.mp hnone p (hperm.symm.subset hp)
      exact hmiss (decide_eq_true hpw)
    obtain ⟨q, hfound⟩ := Option.ne_none_iff_exists'.mp hsome
    have hq : q ∈ table := hperm.subset (List.mem_of_find?_eq_some hfound)
    have hqw : q.Matches w := by simpa using List.find?_some hfound
    by_cases heq : q = p
    · rw [hfound, heq]
    · have hback := specializes_of_firstMatch hperm hfirst hfound hp hpw (Ne.symm heq)
      exact absurd hback (hspecial q hq hqw heq).asymm

/-- The patterns after those of the words `00E0` and `00EE` may come in any order. -/
theorem exceptionsFirst_append {rest : List Pattern}
    (h : rest.Perm (registerPatterns ++ pairPatterns ++ classPatterns)) :
    (wordPatterns ++ rest).Perm table ∧ ExceptionsFirst (wordPatterns ++ rest) := by
  have hlater : ∀ p ∈ registerPatterns ++ pairPatterns ++ classPatterns,
      p.mnemonic ∉ ["CLS", "RET"] := by decide
  have hwords : ∀ q ∈ wordPatterns, q.mnemonic ≠ "SYS addr" := by decide
  constructor
  · simpa [table] using h.append_left wordPatterns
  · rintro p hp q hq ⟨hspecial, hclass⟩
    have hpword : p ∈ wordPatterns :=
      (List.mem_append.mp hp).resolve_right (fun hmem ↦ hlater p (h.subset hmem) hspecial)
    have hqrest : q ∈ rest :=
      (List.mem_append.mp hq).resolve_left (fun hmem ↦ hwords q hmem hclass)
    exact (List.singleton_sublist.mpr hpword).append (List.singleton_sublist.mpr hqrest)

theorem exceptionsFirst_table : ExceptionsFirst table := by
  have h := (exceptionsFirst_append (.refl _)).2
  simpa [table] using h

/-- A word of an exception never gets to the pattern of its class. -/
theorem lookup_of_excepts (hp : p ∈ table) (hpw : p.Matches w) (h : p.Excepts q) :
    lookup w = some p := by
  refine (firstMatch_eq_some_iff (.refl table) exceptionsFirst_table).mpr
    ⟨hp, hpw, fun r hr hrw hne ↦ ?_⟩
  rcases excepts_of_matches hp hr hne.symm hpw hrw with ⟨-, hspecial⟩ | ⟨hexcepts, -⟩
  · exact hspecial
  · exact absurd hexcepts h.not_excepts

/-- The order of the table matters only between the pattern of a single word and that of its
class, and wherever two patterns overlap the one with the larger mask decides. -/
theorem lookup_is_most_specific :
    (∀ patterns : List Pattern, patterns.Perm table → ExceptionsFirst patterns →
      ∀ w, firstMatch patterns w = lookup w) ∧
      table.Nodup ∧
      ∀ p ∈ table, ∀ q ∈ table, p ≠ q → ∀ w, p.Matches w → q.Matches w →
        p.Specializes q ∧ lookup w = some p ∨ q.Specializes p ∧ lookup w = some q := by
  refine ⟨?_, nodup_table, ?_⟩
  · intro patterns hperm hfirst w
    apply Option.ext
    intro p
    rw [firstMatch_eq_some_iff hperm hfirst, lookup,
      firstMatch_eq_some_iff (.refl table) exceptionsFirst_table]
  · intro p hp q hq hne w hpw hqw
    rcases excepts_of_matches hp hq hne hpw hqw with ⟨hexcepts, hspecial⟩ | ⟨hexcepts, hspecial⟩
    · exact Or.inl ⟨hspecial, lookup_of_excepts hp hpw hexcepts⟩
    · exact Or.inr ⟨hspecial, lookup_of_excepts hq hqw hexcepts⟩

/-- The table with all but its first two patterns turned around, and a word of an overlap. -/
theorem lookup_is_most_specific_reversed :
    let patterns := wordPatterns ++ (registerPatterns ++ pairPatterns ++ classPatterns).reverse
    let cls : Pattern := ⟨0xFFFF, 0x00E0, "CLS", fun _ ↦ .clearScreen⟩
    let sys : Pattern := ⟨0xF000, 0x0000, "SYS addr", fun w ↦ .machineCode w⟩
    patterns.Perm table ∧ ExceptionsFirst patterns ∧
      firstMatch patterns 0x8AB6 = lookup 0x8AB6 ∧
      cls ∈ table ∧ sys ∈ table ∧ cls ≠ sys ∧ cls.Matches 0x00E0 ∧ sys.Matches 0x00E0 ∧
      cls.Specializes sys ∧ lookup 0x00E0 = some cls := by
  intro patterns cls sys
  obtain ⟨hperm, hfirst⟩ := exceptionsFirst_append (List.reverse_perm _)
  have hcls : cls ∈ table := by simp [table, wordPatterns, cls]
  have hsys : sys ∈ table := by simp [table, classPatterns, sys]
  have hne : cls ≠ sys := fun h ↦ absurd (congrArg Pattern.mask h) (by decide)
  obtain ⟨horder, -, hlarger⟩ := lookup_is_most_specific
  have hdecides := hlarger cls hcls sys hsys hne 0x00E0 (by decide) (by decide)
  have hmask : ¬sys.Specializes cls := by decide
  obtain ⟨hspecial, hlookup⟩ := hdecides.resolve_right (fun h ↦ hmask h.1)
  exact ⟨hperm, hfirst, horder patterns hperm hfirst 0x8AB6, hcls, hsys, hne, by decide,
    by decide, hspecial, hlookup⟩

/-- With the pattern of the class before it, the pattern of a word is never found. -/
example : (firstMatch table.reverse 0x00E0).map Pattern.mnemonic = some "SYS addr" := by
  decide

end Instruction
end Chip8
