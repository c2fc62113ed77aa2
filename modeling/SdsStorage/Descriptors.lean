/-
**The open files of a process.**

A file that is opened gets the lowest number that is free, whoever used it before.  A number that
was given back is therefore somebody else's after enough files were opened.

Main definitions:

* `Descriptors`, `Descriptors.get` — the open files, each under its number;
* `Descriptors.lowest`, `Descriptors.openFile`, `Descriptors.close` — the operations.

Main results:

* `Descriptors.lt_lowest_iff` — the lowest number that is free;
* `Descriptors.get_openFile`, `Descriptors.get_close` — what each operation changes, and that it
  changes nothing else;
* `Descriptors.exists_opens` — **every free number is taken after enough files were opened**.
-/

import Mathlib.Data.List.Basic

set_option relaxedAutoImplicit false
set_option autoImplicit false

universe u

/-- The open files, each at its number; nothing where a number is free. -/
structure Descriptors (α : Type u) where
  entries : List (Option α)

namespace Descriptors

variable {α : Type u}

/-- The file under a number. -/
def get (d : Descriptors α) (n : ℕ) : Option α := (d.entries[n]?).join

/-- The lowest number that is free. -/
def lowest (d : Descriptors α) : ℕ := d.entries.findIdx Option.isNone

/-- Another open file, and its number. -/
def openFile (d : Descriptors α) (a : α) : Descriptors α × ℕ :=
  (if d.lowest < d.entries.length then { entries := d.entries.set d.lowest (some a) }
    else { entries := d.entries ++ [some a] }, d.lowest)

/-- The files without one of them. -/
def close (d : Descriptors α) (n : ℕ) : Descriptors α := { entries := d.entries.set n none }

variable (d : Descriptors α) (a : α) {m n : ℕ}

theorem lowest_le_length : d.lowest ≤ d.entries.length := List.findIdx_le_length

/-- Every number below the lowest one that is free is taken. -/
theorem get_of_lt_lowest (h : n < d.lowest) : d.get n ≠ none := by
  have hlt : n < d.entries.length := Nat.lt_of_lt_of_le h d.lowest_le_length
  have htaken := List.not_of_lt_findIdx h
  rw [get, List.getElem?_eq_getElem hlt, Option.join_some]
  intro hnone
  rw [hnone] at htaken
  exact absurd htaken (by simp)

/-- The lowest number that is free is free. -/
theorem get_lowest : d.get d.lowest = none := by
  rw [get]
  rcases Nat.lt_or_ge d.lowest d.entries.length with hlt | hge
  · have hfree := List.findIdx_getElem (p := Option.isNone) (w := hlt)
    rw [List.getElem?_eq_getElem hlt, Option.join_some]
    exact Option.isNone_iff_eq_none.1 hfree
  · rw [List.getElem?_eq_none hge]
    rfl

theorem lt_lowest_iff : n < d.lowest ↔ ∀ m ≤ n, d.get m ≠ none := by
  constructor
  · intro h m hm
    exact d.get_of_lt_lowest (Nat.lt_of_le_of_lt hm h)
  · intro h
    by_contra hge
    exact h d.lowest (Nat.le_of_not_lt hge) d.get_lowest

/-- A free number is not below the lowest. -/
theorem lowest_le (h : d.get n = none) : d.lowest ≤ n := by
  by_contra hlt
  exact d.get_of_lt_lowest (Nat.lt_of_not_le hlt) h

/-! ### What the operations change -/

theorem get_openFile : (d.openFile a).1.get n = if n = d.lowest then some a else d.get n := by
  simp only [openFile, get]
  by_cases hlt : d.lowest < d.entries.length
  · rw [if_pos hlt]
    by_cases hn : n = d.lowest
    · rw [if_pos hn, hn, List.getElem?_set_self hlt, Option.join_some]
    · rw [if_neg hn, List.getElem?_set_ne (Ne.symm hn)]
  · have hlen : d.lowest = d.entries.length :=
      Nat.le_antisymm d.lowest_le_length (Nat.le_of_not_lt hlt)
    rw [if_neg hlt]
    by_cases hn : n = d.lowest
    · rw [if_pos hn, hn, hlen, List.getElem?_concat_length, Option.join_some]
    · rw [if_neg hn]
      rcases Nat.lt_or_ge n d.entries.length with hin | hout
      · rw [List.getElem?_append_left hin]
      · rw [List.getElem?_eq_none hout, List.getElem?_eq_none]
        rw [List.length_append, List.length_singleton]
        omega

/-- The number of a new file. -/
theorem get_openFile_self : (d.openFile a).1.get (d.openFile a).2 = some a := by
  rw [get_openFile]
  exact if_pos rfl

/-- A file that is open stays open. -/
theorem get_openFile_of_some {b : α} (h : d.get n = some b) : (d.openFile a).1.get n = some b := by
  rw [get_openFile, if_neg, h]
  rintro rfl
  rw [d.get_lowest] at h
  cases h

theorem get_close : (d.close m).get n = if n = m then none else d.get n := by
  simp only [close, get]
  by_cases hn : n = m
  · rw [if_pos hn, hn]
    rcases Nat.lt_or_ge m d.entries.length with hlt | hge
    · rw [List.getElem?_set_self hlt]
      rfl
    · rw [List.getElem?_eq_none (by rw [List.length_set]; exact hge)]
      rfl
  · rw [if_neg hn, List.getElem?_set_ne (Ne.symm hn)]

/-! ### Enough files -/

/-- The files after some more were opened. -/
def opens (d : Descriptors α) (a : α) : ℕ → Descriptors α
  | 0 => d
  | k + 1 => opens (d.openFile a).1 a k

/-- Opening a file takes the lowest number that is free. -/
theorem lowest_lt_openFile : d.lowest < (d.openFile a).1.lowest := by
  rw [lt_lowest_iff]
  intro m hm
  rw [get_openFile]
  split
  · exact Option.some_ne_none a
  · rename_i hne
    exact d.get_of_lt_lowest (Nat.lt_of_le_of_ne hm hne)

/-- **Every free number is taken after enough files were opened.** -/
theorem exists_opens (h : d.get n = none) : ∃ k, (d.opens a k).get n = some a := by
  induction hgap : n - d.lowest using Nat.strongRecOn generalizing d with
  | ind gap ih =>
      have hle := d.lowest_le h
      by_cases hn : n = d.lowest
      · refine ⟨1, ?_⟩
        rw [opens, opens, get_openFile, if_pos hn]
      · have hfree : (d.openFile a).1.get n = none := by
          rw [get_openFile, if_neg hn, h]
        have hmore := d.lowest_lt_openFile a
        obtain ⟨k, hk⟩ := ih (n - (d.openFile a).1.lowest) (by omega) (d.openFile a).1 hfree rfl
        exact ⟨k + 1, hk⟩

end Descriptors
