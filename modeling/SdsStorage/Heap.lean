/-
**Blocks of allocated memory.**

A heap remembers every block that was ever allocated, and what it holds until it is freed.  An
address is never used again, so that an access through a pointer to a freed block is always found
out: it is the fault `Fault.wild`, and so is freeing such a block.

Main definitions:

* `Heap`, `Heap.alloc`, `Heap.load`, `Heap.store`, `Heap.free` — a heap and its operations;
* `Heap.Holds`, `Heap.Freed` — what a block holds, and that it was freed;
* `Heap.live` — the number of blocks that were not freed.

Main results:

* `Heap.freed_alloc`, `Heap.freed_store`, `Heap.freed_free` — **a freed block stays freed**;
* `Heap.holds_alloc_iff`, `Heap.holds_store_iff`, `Heap.holds_free_iff` — what each operation
  changes, and that it changes nothing else;
* `Heap.live_alloc`, `Heap.live_free` — the blocks are accounted for.
-/

import SdsStorage.Outcome
import Mathlib.Data.List.Count

set_option relaxedAutoImplicit false
set_option autoImplicit false

universe u

/-- What the blocks hold, each at its address; nothing for a block that was freed. -/
structure Heap (α : Type u) where
  blocks : List (Option α)

namespace Heap

variable {α : Type u}

/-- A heap without blocks. -/
def empty : Heap α := { blocks := [] }

/-- A new block: the heap and its address. -/
def alloc (h : Heap α) (a : α) : Heap α × ℕ :=
  ({ blocks := h.blocks ++ [some a] }, h.blocks.length)

/-- What a block holds. -/
def load (h : Heap α) (p : ℕ) : Outcome α :=
  match h.blocks[p]? with
  | some (some a) => .ok a
  | _ => .error .wild

/-- The heap after a store to a block. -/
def store (h : Heap α) (p : ℕ) (a : α) : Outcome (Heap α) :=
  match h.blocks[p]? with
  | some (some _) => .ok { blocks := h.blocks.set p (some a) }
  | _ => .error .wild

/-- The heap without a block. -/
def free (h : Heap α) (p : ℕ) : Outcome (Heap α) :=
  match h.blocks[p]? with
  | some (some _) => .ok { blocks := h.blocks.set p none }
  | _ => .error .wild

/-- The block at `p` holds `a`. -/
def Holds (h : Heap α) (p : ℕ) (a : α) : Prop := h.blocks[p]? = some (some a)

/-- The block at `p` was freed. -/
def Freed (h : Heap α) (p : ℕ) : Prop := h.blocks[p]? = some none

/-- The number of blocks that were not freed. -/
def live (h : Heap α) : ℕ := h.blocks.countP Option.isSome

variable {h h' : Heap α} {p q : ℕ} {a b : α}

/-! ### Accesses -/

theorem Holds.lt_length (hp : h.Holds p a) : p < h.blocks.length :=
  (List.getElem?_eq_some_iff.1 hp).1

theorem Holds.unique (hp : h.Holds p a) (hp' : h.Holds p b) : a = b := by
  rw [Holds] at hp hp'
  rw [hp] at hp'
  exact Option.some.inj (Option.some.inj hp')

theorem Holds.not_freed (hp : h.Holds p a) : ¬ h.Freed p := by
  intro hf
  rw [Holds, hf] at hp
  cases hp

theorem load_eq_ok_iff : h.load p = .ok a ↔ h.Holds p a := by
  rw [load, Holds]
  cases h.blocks[p]? with
  | none => simp
  | some o => cases o <;> simp

theorem Holds.load (hp : h.Holds p a) : h.load p = .ok a := load_eq_ok_iff.2 hp

theorem Freed.load (hp : h.Freed p) : h.load p = .error .wild := by
  rw [Heap.load, hp]

theorem Holds.store (hp : h.Holds p a) (b : α) :
    h.store p b = .ok { blocks := h.blocks.set p (some b) } := by
  rw [Heap.store, hp]

theorem Freed.store (hp : h.Freed p) (b : α) : h.store p b = .error .wild := by
  rw [Heap.store, hp]

theorem Holds.free (hp : h.Holds p a) : h.free p = .ok { blocks := h.blocks.set p none } := by
  rw [Heap.free, hp]

/-- A store that returns was made to a block that was there. -/
theorem store_ok (hs : h.store p b = .ok h') :
    (∃ a, h.Holds p a) ∧ h' = { blocks := h.blocks.set p (some b) } := by
  rw [Heap.store] at hs
  split at hs
  · rename_i a hp
    cases hs
    exact ⟨⟨a, hp⟩, rfl⟩
  · cases hs

/-- A block that is freed was there. -/
theorem free_ok (hf : h.free p = .ok h') :
    (∃ a, h.Holds p a) ∧ h' = { blocks := h.blocks.set p none } := by
  rw [Heap.free] at hf
  split at hf
  · rename_i a hp
    cases hf
    exact ⟨⟨a, hp⟩, rfl⟩
  · cases hf

/-! ### What the operations change -/

theorem holds_alloc_self (h : Heap α) (a : α) : (h.alloc a).1.Holds (h.alloc a).2 a := by
  simp [Holds, alloc]

theorem holds_alloc_iff : (h.alloc a).1.Holds q b ↔
    h.Holds q b ∨ (q = (h.alloc a).2 ∧ b = a) := by
  simp only [Holds, alloc]
  rcases Nat.lt_trichotomy q h.blocks.length with hlt | rfl | hgt
  · rw [List.getElem?_append_left hlt]
    simp [Nat.ne_of_lt hlt]
  · rw [List.getElem?_concat_length]
    simp [eq_comm]
  · rw [List.getElem?_eq_none (by simp; omega), List.getElem?_eq_none (by omega)]
    simp [Nat.ne_of_gt hgt]

/-- A new block was nowhere before. -/
theorem Holds.ne_alloc (hq : h.Holds q b) (a : α) : q ≠ (h.alloc a).2 :=
  Nat.ne_of_lt hq.lt_length

theorem Holds.alloc (hq : h.Holds q b) (a : α) : (h.alloc a).1.Holds q b :=
  holds_alloc_iff.2 (Or.inl hq)

theorem holds_store_iff (hs : h.store p a = .ok h') :
    h'.Holds q b ↔ if q = p then b = a else h.Holds q b := by
  obtain ⟨⟨a', hp⟩, rfl⟩ := store_ok hs
  simp only [Holds]
  split
  · rename_i hq
    rw [hq, List.getElem?_set_self hp.lt_length]
    simp [eq_comm]
  · rename_i hq
    rw [List.getElem?_set_ne (Ne.symm hq)]

theorem holds_free_iff (hf : h.free p = .ok h') : h'.Holds q b ↔ q ≠ p ∧ h.Holds q b := by
  obtain ⟨⟨a', hp⟩, rfl⟩ := free_ok hf
  simp only [Holds]
  by_cases hq : q = p
  · rw [hq, List.getElem?_set_self hp.lt_length]
    simp
  · rw [List.getElem?_set_ne (Ne.symm hq)]
    simp [hq]

theorem freed_free_self (hf : h.free p = .ok h') : h'.Freed p := by
  obtain ⟨⟨a, hp⟩, rfl⟩ := free_ok hf
  exact List.getElem?_set_self hp.lt_length

/-! ### A freed block stays freed -/

theorem freed_alloc (hp : h.Freed p) (a : α) : (h.alloc a).1.Freed p := by
  have hlt : p < h.blocks.length := (List.getElem?_eq_some_iff.1 hp).1
  rw [Freed, alloc, List.getElem?_append_left hlt]
  exact hp

theorem freed_store (hp : h.Freed p) (hs : h.store q a = .ok h') : h'.Freed p := by
  obtain ⟨⟨b, hq⟩, rfl⟩ := store_ok hs
  have hne : q ≠ p := by
    rintro rfl
    exact hq.not_freed hp
  rw [Freed, List.getElem?_set_ne hne]
  exact hp

theorem freed_free (hp : h.Freed p) (hf : h.free q = .ok h') : h'.Freed p := by
  obtain ⟨⟨b, hq⟩, rfl⟩ := free_ok hf
  have hne : q ≠ p := by
    rintro rfl
    exact hq.not_freed hp
  rw [Freed, List.getElem?_set_ne hne]
  exact hp

/-! ### The blocks are accounted for -/

theorem live_alloc (h : Heap α) (a : α) : (h.alloc a).1.live = h.live + 1 := by
  simp [live, alloc]

theorem countP_set_isSome {l : List (Option α)} {p : ℕ} {o : Option α} {a : α}
    (hp : l[p]? = some (some a)) :
    (l.set p o).countP Option.isSome + 1 =
      l.countP Option.isSome + (if o.isSome then 1 else 0) := by
  induction l generalizing p with
  | nil => cases hp
  | cons x l ih =>
      cases p with
      | zero =>
          have hx : x = some a := by simpa using hp
          subst hx
          simp only [List.set_cons_zero, List.countP_cons, Option.isSome_some, if_true]
          omega
      | succ p =>
          have hrest := ih (by simpa using hp)
          simp only [List.set_cons_succ, List.countP_cons]
          omega

theorem live_store (hs : h.store p a = .ok h') : h'.live = h.live := by
  obtain ⟨⟨b, hp⟩, rfl⟩ := store_ok hs
  have hcount := countP_set_isSome (o := some a) hp
  simp only [live]
  simpa using hcount

theorem live_free (hf : h.free p = .ok h') : h'.live + 1 = h.live := by
  obtain ⟨⟨a, hp⟩, rfl⟩ := free_ok hf
  have hcount := countP_set_isSome (o := none) hp
  simpa [live] using hcount

end Heap
