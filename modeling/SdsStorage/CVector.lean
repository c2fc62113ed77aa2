/-
**Growable tables of pointers.**

A `vector` is a table of `cap` pointers of which the first `size` are visible.  `vector_push_back`
makes the next slot visible and `vector_insert` stores into a slot of the caller's choice without
making it visible; both double the table when it is full, and neither compares the index with the
capacity before it stores.

Main definitions:

* `CVector` — the structure, with the length of its table and the bound on its size;
* `vectorInit`, `vectorExpand`, `vectorInsert`, `vectorPushBack`, `vectorAt` — the operations; a
  store past the table is the fault `Fault.outOfBounds`.

Main results:

* `vectorInsert_of_lt`, `vectorInsert_outOfBounds` — what an insertion into a vector that is not
  full does, and when it stores past the table;
* `vectorPushBack_ok` — **a push that returns leaves every visible slot alone**;
* `vectorPushBack_isOk` — a push onto a vector of positive capacity returns.
-/

import SdsStorage.Outcome
import Mathlib.Algebra.Order.Ring.Int
import Mathlib.Tactic.Common

set_option relaxedAutoImplicit false
set_option autoImplicit false

universe u

/-- A request for `n` pointers is one `calloc` can serve; a request for none is. -/
def callocServes (n : ℕ) : Prop := n * 8 < 2 ^ 64

instance (n : ℕ) : Decidable (callocServes n) := inferInstanceAs (Decidable (_ < _))

/-- `vector`: a table of `cap` pointers, null where nothing was stored, of which `size` are
visible. -/
structure CVector (α : Type u) where
  size : ℕ
  cap : ℕ
  tables : List (Option α)
  /-- The table has `cap` slots. -/
  length_eq : tables.length = cap
  /-- The visible slots are slots of the table. -/
  size_le : size ≤ cap
  /-- The table was allocated. -/
  serves : callocServes cap

variable {α : Type u}

/-- `vector_init`; a table that cannot be allocated fails the assertion. -/
def vectorInit (cap : ℕ) : Outcome (CVector α) :=
  if h : callocServes cap then
    .ok { size := 0, cap := cap, tables := List.replicate cap none,
          length_eq := List.length_replicate, size_le := Nat.zero_le cap, serves := h }
  else .error .abort

/-- `vector_expand`: null when the new table cannot be allocated. -/
def vectorExpand (vec : CVector α) : Outcome (Option (CVector α)) :=
  if hserves : callocServes (vec.cap * 2 % 2 ^ 64) then
    if h : vec.size ≤ vec.cap * 2 % 2 ^ 64 then
      .ok (some
        { size := vec.size
          cap := vec.cap * 2 % 2 ^ 64
          tables := vec.tables.take vec.size ++
            List.replicate (vec.cap * 2 % 2 ^ 64 - vec.size) none
          length_eq := by
            have := vec.size_le
            have := vec.length_eq
            simp only [List.length_append, List.length_take, List.length_replicate]
            omega
          size_le := h
          serves := hserves })
    else .error .outOfBounds
  else .ok none

/-- The expansion both insertions start with. -/
def vectorGrow (vec : CVector α) : Outcome (Option (CVector α)) :=
  if vec.size = vec.cap then vectorExpand vec else .ok (some vec)

/-- `vector_insert`: the vector and the status. -/
def vectorInsert (vec : CVector α) (index : ℕ) (data : Option α) : Outcome (CVector α × ℤ) :=
  match data with
  | none => .ok (vec, -1)
  | some d => do
      match ← vectorGrow vec with
      | none => .ok (vec, -1)
      | some vec =>
          if index < vec.cap then
            .ok ({ vec with
              tables := vec.tables.set index (some d)
              length_eq := by rw [List.length_set, vec.length_eq] }, 0)
          else .error .outOfBounds

/-- `vector_push_back`: the vector and the status. -/
def vectorPushBack (vec : CVector α) (data : Option α) : Outcome (CVector α × ℤ) :=
  match data with
  | none => .ok (vec, -1)
  | some d => do
      match ← vectorGrow vec with
      | none => .ok (vec, -1)
      | some vec =>
          if h : vec.size < vec.cap then
            .ok ({ vec with
              size := vec.size + 1
              tables := vec.tables.set vec.size (some d)
              length_eq := by rw [List.length_set, vec.length_eq]
              size_le := h }, 0)
          else .error .outOfBounds

/-- `vector_at`: null for a slot that is not visible. -/
def vectorAt (vec : CVector α) (index : ℕ) : Option α :=
  if h : index < vec.size then
    vec.tables.get ⟨index, by have := vec.size_le; have := vec.length_eq; omega⟩
  else none

/-! ### Slots that are not visible -/

theorem vectorAt_of_size_le {vec : CVector α} {index : ℕ} (h : vec.size ≤ index) :
    vectorAt vec index = none := by
  rw [vectorAt, dif_neg (by omega)]

/-- Nothing is visible in an empty vector, whatever was inserted into it. -/
theorem vectorAt_of_size_eq_zero {vec : CVector α} (h : vec.size = 0) (index : ℕ) :
    vectorAt vec index = none :=
  vectorAt_of_size_le (by omega)

theorem lt_size_of_vectorAt {vec : CVector α} {index : ℕ} {d : α}
    (h : vectorAt vec index = some d) : index < vec.size := by
  by_contra hge
  rw [vectorAt_of_size_le (by omega)] at h
  cases h

theorem vectorAt_eq_getElem? {vec : CVector α} {index : ℕ} (h : index < vec.size) :
    vectorAt vec index = (vec.tables[index]?).join := by
  have hlt : index < vec.tables.length := by
    have := vec.size_le
    have := vec.length_eq
    omega
  rw [vectorAt, dif_pos h, List.getElem?_eq_getElem hlt]
  rfl

/-! ### `vector_init` -/

theorem vectorInit_ok {cap : ℕ} {vec : CVector α} (h : vectorInit cap = .ok vec) :
    vec.size = 0 ∧ vec.cap = cap ∧ callocServes cap := by
  rw [vectorInit] at h
  split at h
  · rename_i hcap
    cases h
    exact ⟨rfl, rfl, hcap⟩
  · cases h

theorem vectorInit_tables {cap : ℕ} {vec : CVector α} (h : vectorInit cap = .ok vec) :
    vec.tables = List.replicate cap none := by
  rw [vectorInit] at h
  split at h
  · cases h
    rfl
  · cases h

theorem vectorInit_isOk {cap : ℕ} (h : callocServes cap) :
    ∃ vec : CVector α, vectorInit cap = .ok vec := by
  rw [vectorInit, dif_pos h]
  exact ⟨_, rfl⟩

/-! ### `vector_insert` -/

theorem vectorGrow_of_lt {vec : CVector α} (h : vec.size < vec.cap) :
    vectorGrow vec = .ok (some vec) := by
  rw [vectorGrow, if_neg (by omega)]

/-- An insertion into a vector that is not full stores, and shows nothing new. -/
theorem vectorInsert_of_lt {vec : CVector α} (h : vec.size < vec.cap) {index : ℕ}
    (hi : index < vec.cap) (d : α) :
    ∃ vec', vectorInsert vec index (some d) = .ok (vec', 0) ∧ vec'.size = vec.size ∧
      vec'.cap = vec.cap := by
  refine ⟨{ vec with
    tables := vec.tables.set index (some d)
    length_eq := by rw [List.length_set, vec.length_eq] }, ?_, rfl, rfl⟩
  simp only [vectorInsert, vectorGrow_of_lt h, Outcome.ok_bind, if_pos hi]

/-- An insertion past the capacity of a vector that is not full stores outside the table. -/
theorem vectorInsert_outOfBounds {vec : CVector α} (h : vec.size < vec.cap) {index : ℕ}
    (hi : vec.cap ≤ index) (d : α) :
    vectorInsert vec index (some d) = .error .outOfBounds := by
  simp only [vectorInsert, vectorGrow_of_lt h, Outcome.ok_bind, if_neg (Nat.not_lt.2 hi)]

/-- A vector of capacity zero has no slot to insert into: doubling the capacity leaves it zero. -/
theorem vectorInsert_of_cap_eq_zero {vec : CVector α} (h : vec.cap = 0) (index : ℕ) (d : α) :
    vectorInsert vec index (some d) = .error .outOfBounds := by
  have hsize : vec.size = 0 := by
    have := vec.size_le
    omega
  simp [vectorInsert, vectorGrow, vectorExpand, callocServes, h, hsize]

/-- What an insertion into a vector that is not full leaves in the table. -/
theorem vectorInsert_tables {vec vec' : CVector α} (hroom : vec.size < vec.cap) {index : ℕ} {d : α}
    {r : ℤ} (h : vectorInsert vec index (some d) = .ok (vec', r)) :
    vec'.tables = vec.tables.set index (some d) := by
  simp only [vectorInsert, vectorGrow_of_lt hroom, Outcome.ok_bind] at h
  split at h
  · cases h
    rfl
  · cases h

/-! ### `vector_push_back` -/

/-- Growing a vector shows the same slots. -/
theorem vectorGrow_ok {vec vec' : CVector α} (h : vectorGrow vec = .ok (some vec')) :
    vec'.size = vec.size ∧ vec.cap ≤ vec'.cap ∧ ∀ i, vectorAt vec' i = vectorAt vec i := by
  rw [vectorGrow] at h
  split at h
  · rw [vectorExpand] at h
    split at h
    · split at h
      · cases h
        refine ⟨rfl, by dsimp only; omega, ?_⟩
        intro i
        rcases Nat.lt_or_ge i vec.size with hlt | hge
        · have hlen : i < (vec.tables.take vec.size).length := by
            have := vec.size_le
            have := vec.length_eq
            rw [List.length_take]
            omega
          rw [vectorAt_eq_getElem? hlt, vectorAt_eq_getElem? (by exact hlt),
            List.getElem?_append_left hlen, List.getElem?_take_of_lt hlt]
        · rw [vectorAt_of_size_le hge, vectorAt_of_size_le (by exact hge)]
      · cases h
    · cases h
  · cases h
    exact ⟨rfl, Nat.le_refl _, fun _ => rfl⟩

/-- **A push that returns leaves every visible slot alone**, and shows the new pointer behind them
unless the table could not be expanded. -/
theorem vectorPushBack_ok {vec vec' : CVector α} {d : α} {r : ℤ}
    (h : vectorPushBack vec (some d) = .ok (vec', r)) :
    (vec' = vec ∧ r = -1) ∨
      (r = 0 ∧ vec'.size = vec.size + 1 ∧ vec.cap ≤ vec'.cap ∧ vectorAt vec' vec.size = some d ∧
        ∀ i < vec.size, vectorAt vec' i = vectorAt vec i) := by
  simp only [vectorPushBack, Outcome.bind_eq_ok] at h
  obtain ⟨grown, hgrow, h⟩ := h
  cases grown with
  | none =>
      cases h
      exact Or.inl ⟨rfl, rfl⟩
  | some w =>
      obtain ⟨hsize, hcap, hat⟩ := vectorGrow_ok hgrow
      dsimp only at h
      split at h
      · rename_i hlt
        cases h
        refine Or.inr ⟨rfl, by dsimp only; omega, hcap, ?_, fun i hi => ?_⟩
        · rw [vectorAt_eq_getElem? (by dsimp only; omega)]
          dsimp only
          have hlen : w.size < w.tables.length := by
            have := w.length_eq
            omega
          rw [← hsize, List.getElem?_set_self hlen]
          rfl
        · rw [vectorAt_eq_getElem? (by dsimp only; omega), ← hat i,
            vectorAt_eq_getElem? (by omega)]
          dsimp only
          rw [List.getElem?_set_ne (by omega)]
      · cases h

/-- A push onto a vector that is not full stores the pointer. -/
theorem vectorPushBack_of_lt {vec : CVector α} (h : vec.size < vec.cap) (d : α) :
    ∃ vec', vectorPushBack vec (some d) = .ok (vec', 0) ∧ vec'.size = vec.size + 1 ∧
      vec'.cap = vec.cap := by
  simp only [vectorPushBack, vectorGrow_of_lt h, Outcome.ok_bind, dif_pos h]
  exact ⟨_, rfl, rfl, rfl⟩

/-- A vector of positive capacity has room for one more pointer after it has grown. -/
theorem vectorGrow_isOk {vec : CVector α} (hcap : 0 < vec.cap) :
    (∃ w, vectorGrow vec = .ok (some w) ∧ w.size < w.cap) ∨
      (vectorGrow vec = .ok none ∧ 2 ^ 60 ≤ vec.size) := by
  have hserves := vec.serves
  rw [callocServes] at hserves
  have hle := vec.size_le
  rw [vectorGrow]
  split
  · rename_i hfull
    have hmod : vec.cap * 2 % 2 ^ 64 = vec.cap * 2 := Nat.mod_eq_of_lt (by omega)
    rw [vectorExpand]
    split
    · have hroom : vec.size ≤ vec.cap * 2 % 2 ^ 64 := by omega
      rw [dif_pos hroom]
      exact Or.inl ⟨_, rfl, by dsimp only; omega⟩
    · rename_i hfail
      rw [callocServes] at hfail
      exact Or.inr ⟨rfl, by omega⟩
  · exact Or.inl ⟨vec, rfl, by omega⟩

/-- A push onto a vector of positive capacity returns. -/
theorem vectorPushBack_isOk {vec : CVector α} (hcap : 0 < vec.cap) (d : α) :
    ∃ p, vectorPushBack vec (some d) = .ok p := by
  rcases vectorGrow_isOk hcap with ⟨w, hw, hlt⟩ | ⟨hnone, -⟩
  · simp only [vectorPushBack, hw, Outcome.ok_bind, dif_pos hlt]
    exact ⟨_, rfl⟩
  · simp only [vectorPushBack, hnone, Outcome.ok_bind]
    exact ⟨_, rfl⟩

/-- A push onto a vector of positive capacity that is not enormous stores the pointer. -/
theorem vectorPushBack_status {vec vec' : CVector α} (hcap : 0 < vec.cap)
    (hsize : vec.size < 2 ^ 60) {d : α} {r : ℤ}
    (h : vectorPushBack vec (some d) = .ok (vec', r)) : r = 0 := by
  rcases vectorGrow_isOk hcap with ⟨w, hw, hlt⟩ | ⟨-, hbig⟩
  · simp only [vectorPushBack, hw, Outcome.ok_bind, dif_pos hlt] at h
    cases h
    rfl
  · omega

theorem vectorGrow_cap {vec vec' : CVector α} (h : vectorGrow vec = .ok (some vec')) :
    vec'.cap = vec.cap ∨ vec'.cap = vec.cap * 2 := by
  have hserves := vec.serves
  rw [callocServes] at hserves
  rw [vectorGrow, vectorExpand] at h
  split at h
  · split at h
    · split at h
      · cases h
        exact Or.inr (Nat.mod_eq_of_lt (by omega))
      · cases h
    · cases h
  · cases h
    exact Or.inl rfl

/-- A push keeps the capacity or doubles it. -/
theorem vectorPushBack_cap {vec vec' : CVector α} {d : α} {r : ℤ}
    (h : vectorPushBack vec (some d) = .ok (vec', r)) :
    vec'.cap = vec.cap ∨ vec'.cap = vec.cap * 2 := by
  simp only [vectorPushBack, Outcome.bind_eq_ok] at h
  obtain ⟨grown, hgrow, h⟩ := h
  cases grown with
  | none =>
      cases h
      exact Or.inl rfl
  | some w =>
      have hcap := vectorGrow_cap hgrow
      dsimp only at h
      split at h
      · cases h
        exact hcap
      · cases h

/-- A vector whose capacity is a power of two takes `2 ^ 60` pointers, and no more. -/
theorem vectorPushBack_full {vec vec' : CVector α} {k : ℕ} (hcap : vec.cap = 2 ^ k)
    (hsize : 2 ^ 60 ≤ vec.size) {d : α} {r : ℤ}
    (h : vectorPushBack vec (some d) = .ok (vec', r)) : vec' = vec := by
  have hserves := vec.serves
  have hle := vec.size_le
  rw [callocServes] at hserves
  have hk : k ≤ 60 := by
    by_contra hk
    have := Nat.pow_le_pow_right (n := 2) (by omega) (Nat.lt_of_not_le hk)
    omega
  have hpow := Nat.pow_le_pow_right (n := 2) (by omega) hk
  have hfull : vec.size = vec.cap := by omega
  have hno : ¬ callocServes (vec.cap * 2 % 2 ^ 64) := by
    have hmod : vec.cap * 2 % 2 ^ 64 = 2 ^ 61 := by omega
    rw [hmod]
    decide
  simp only [vectorPushBack, vectorGrow, if_pos hfull, vectorExpand, dif_neg hno,
    Outcome.ok_bind] at h
  cases h
  rfl
