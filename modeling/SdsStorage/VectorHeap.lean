/-
**Vectors in memory: from `vector_create` to `vector_destroy`.**

A vector owns its table: `vector_expand` allocates another one, copies the visible slots and frees
the old one, and `vector_deinit` hands every visible slot to the callback and frees the table.  A
vector that `vector_create` made is a block of its own, which `vector_destroy` frees as well; one
that lies within another structure is no block, and must not be destroyed.

Here the table is a block of a heap; `CVector` is what it looks like from outside.

Main definitions:

* `VBlock`, `HVector`, `VecMem` — the blocks, the structure, and the structure with its memory;
* `copyTable`, `VecMem.grow`, `VecMem.pushBack`, `VecMem.insert` — the operations that store;
* `VecMem.deinit`, `VecMem.destroy`, `vecCreate` — the life of a vector;
* `VecCall`, `vecMemStep`, `VecLedger`, `vecLedgerStep` — calls, and what they come to;
* `VecRoom`, `vecRoomStep` — the size and the capacity alone.

Main results:

* `vecMem_step` — **in memory a call does what it does to a `CVector`**;
* `vecMem_defined_iff` — **a run is defined when it finds room for what it stores**;
* `vecMem_lifecycle` — **a run leaves no memory behind**, and the callback sees every visible slot;
* `VecShows.destroy_within` — a vector within another structure is no block, and cannot be
  destroyed.
-/

import SdsStorage.Heap
import SdsStorage.LinkedList
import SdsStorage.VectorRun

set_option relaxedAutoImplicit false
set_option autoImplicit false

universe u

variable {α : Type u}

/-! ### Vectors in memory -/

/-- What a block holds: a table, or a vector that `vector_create` made. -/
inductive VBlock (α : Type u) where
  | table (slots : List (Option α))
  | vector

/-- `vector`; its mutex is released by every call that takes it. -/
structure HVector where
  size : ℕ
  cap : ℕ
  tables : Option Addr
  cb : Bool

/-- A vector: the heap, the block it is, if it is one, what it holds, and the pointers its callback
was called with. -/
structure VecMem (α : Type u) where
  heap : Heap (VBlock α)
  place : Option Addr
  vec : HVector
  released : List (Option α)

/-- The loop of `vector_expand`. -/
def copyTable (old new : List (Option α)) (size : ℕ) : Outcome (List (Option α)) :=
  (List.range size).foldlM (fun t i =>
    match old[i]? with
    | none => .error .overread
    | some v => if i < t.length then .ok (t.set i v) else .error .outOfBounds) new

namespace VecMem

/-- The slots of the table; there are none behind a null pointer. -/
def slots (m : VecMem α) : Outcome (List (Option α)) :=
  match m.vec.tables with
  | none => .ok []
  | some p => (m.heap.load p).bind fun b =>
      match b with
      | .table l => .ok l
      | .vector => .error .wild

/-- `free(vec->tables)`. -/
def freeTables (m : VecMem α) : Outcome (VecMem α) :=
  match m.vec.tables with
  | none => .ok m
  | some p => (m.heap.free p).bind fun h => .ok { m with heap := h }

/-- `vector_expand`: nothing when the new table cannot be allocated. -/
def expand (m : VecMem α) : Outcome (Option (VecMem α)) :=
  let cap := m.vec.cap * 2 % 2 ^ 64
  if callocServes cap then do
    let made := m.heap.alloc (.table (List.replicate cap none))
    let m := { m with heap := made.1 }
    let old ← m.slots
    let new ← copyTable old (List.replicate cap none) m.vec.size
    let h ← m.heap.store made.2 (.table new)
    let m ← freeTables { m with heap := h }
    .ok (some { m with vec := { m.vec with tables := some made.2, cap := cap } })
  else .ok none

/-- The expansion both insertions start with. -/
def grow (m : VecMem α) : Outcome (Option (VecMem α)) :=
  if m.vec.size = m.vec.cap then m.expand else .ok (some m)

/-- `vec->tables[index] = data`. -/
def storeSlot (m : VecMem α) (index : ℕ) (data : α) : Outcome (VecMem α) :=
  match m.vec.tables with
  | none => .error .nullDeref
  | some p => do
      let l ← m.slots
      if index < l.length then do
        let h ← m.heap.store p (.table (l.set index (some data)))
        .ok { m with heap := h }
      else .error .outOfBounds

/-- `vector_insert`. -/
def insert (m : VecMem α) (index : ℕ) : Option α → Outcome (VecMem α × ℤ)
  | none => .ok (m, -1)
  | some d => do
      match ← m.grow with
      | none => .ok (m, -1)
      | some m => do
          let m ← m.storeSlot index d
          .ok (m, 0)

/-- `vector_push_back`. -/
def pushBack (m : VecMem α) : Option α → Outcome (VecMem α × ℤ)
  | none => .ok (m, -1)
  | some d => do
      match ← m.grow with
      | none => .ok (m, -1)
      | some m => do
          let m ← m.storeSlot m.vec.size d
          .ok ({ m with vec := { m.vec with size := m.vec.size + 1 } }, 0)

/-- `vector_deinit`. -/
def deinit (m : VecMem α) : Outcome (VecMem α) := do
  let l ← m.slots
  -- the callback is called with the visible slots, in order
  let seen := if m.vec.cb then l.take m.vec.size else []
  let m ← m.freeTables
  .ok { m with vec := { m.vec with tables := none, size := 0, cap := 0 },
               released := m.released ++ seen }

/-- `vector_destroy`: `free` takes the addresses of blocks only. -/
def destroy (m : VecMem α) : Outcome (VecMem α) := do
  let m ← m.deinit
  match m.place with
  | none => .error .wild
  | some p => (m.heap.free p).bind fun h => .ok { m with heap := h }

end VecMem

/-- `vector_init` of a vector at the given place: a table that cannot be allocated fails the
assertion. -/
def vecInit (h : Heap (VBlock α)) (place : Option Addr) (cap : ℕ) (cb : Bool) :
    Outcome (VecMem α) :=
  if callocServes cap then
    let made := h.alloc (.table (List.replicate cap none))
    .ok { heap := made.1, place := place, released := [],
          vec := { size := 0, cap := cap, tables := some made.2, cb := cb } }
  else .error .abort

/-- `vector_create`. -/
def vecCreate (h : Heap (VBlock α)) (cap : ℕ) (cb : Bool) : Outcome (VecMem α) :=
  let made := h.alloc .vector
  vecInit made.1 (some made.2) cap cb

/-! ### Calls, and what they come to -/

/-- A call on a vector. -/
inductive VecCall (α : Type u) where
  | store (call : VectorCall α)
  | deinit

/-- A call in memory. -/
def vecMemStep (m : VecMem α) : VecCall α → Outcome (VecMem α)
  | .store (.pushBack data) => do
      let r ← m.pushBack data
      .ok r.1
  | .store (.insert index data) => do
      let r ← m.insert index data
      .ok r.1
  | .deinit => m.deinit

/-- A vector without slots. -/
def CVector.nothing : CVector α where
  size := 0
  cap := 0
  tables := []
  length_eq := rfl
  size_le := Nat.le_refl 0
  serves := by decide

/-- A vector from outside: what it holds, whether it has a table, and the pointers its callback was
called with. -/
structure VecLedger (α : Type u) where
  vec : CVector α
  owns : Bool
  released : List (Option α)

/-- What a call comes to; there is nothing where it stores outside the table. -/
def vecLedgerStep (cb : Bool) (l : VecLedger α) : VecCall α → Option (VecLedger α)
  | .store call =>
      match vectorStep l.vec call with
      | .ok vec => some { l with vec := vec }
      | .error _ => none
  | .deinit =>
      some { vec := CVector.nothing, owns := false,
             released := l.released ++ if cb then l.vec.tables.take l.vec.size else [] }

/-- The memory is as the ledger says: the table is one block more than those of `base`, which are as
they were. -/
structure VecShows (base : Heap (VBlock α)) (place : Option Addr) (cb : Bool) (m : VecMem α)
    (l : VecLedger α) : Prop where
  place_eq : m.place = place
  cb_eq : m.vec.cb = cb
  size_eq : m.vec.size = l.vec.size
  cap_eq : m.vec.cap = l.vec.cap
  released_eq : m.released = l.released
  owned : l.owns = true → ∃ p, m.vec.tables = some p ∧ m.heap.Holds p (.table l.vec.tables) ∧
    ∀ b, ¬ base.Holds p b
  gone : l.owns = false → m.vec.tables = none ∧ l.vec = CVector.nothing
  live_eq : m.heap.live = base.live + if l.owns then 1 else 0
  kept : ∀ q b, base.Holds q b → m.heap.Holds q b

/-! ### The table -/

/-- The loop of `vector_expand` copies the visible slots, and leaves the others as they were. -/
theorem copyTable_eq {old new : List (Option α)} {size : ℕ} (hold : size ≤ old.length)
    (hnew : size ≤ new.length) : copyTable old new size = .ok (old.take size ++ new.drop size) := by
  induction size with
  | zero => rfl
  | succ size ih =>
      have hlt : size < (old.take size ++ new.drop size).length := by
        rw [List.length_append, List.length_take, List.length_drop]
        omega
      have htake : (old.take size).length = size := by
        rw [List.length_take]
        omega
      have hset : (old.take size ++ new.drop size).set size old[size] =
          old.take (size + 1) ++ new.drop (size + 1) := by
        rw [List.set_append_right _ _ (Nat.le_of_eq htake), htake, Nat.sub_self,
          List.drop_eq_getElem_cons hnew, List.set_cons_zero, List.take_succ_eq_append_getElem hold,
          List.append_assoc]
        rfl
      rw [copyTable, List.range_succ, List.foldlM_append]
      have hrest := ih (by omega) (by omega)
      rw [copyTable] at hrest
      rw [hrest, Outcome.ok_bind, List.foldlM_cons, List.getElem?_eq_getElem hold]
      dsimp only
      rw [if_pos hlt, hset]
      rfl

section

variable {base : Heap (VBlock α)} {place : Option Addr} {cb : Bool} {m : VecMem α} {l : VecLedger α}

theorem VecShows.slots_eq (h : VecShows base place cb m l) : m.slots = .ok l.vec.tables := by
  cases howns : l.owns with
  | true =>
      obtain ⟨p, htables, hp, -⟩ := h.owned howns
      rw [VecMem.slots, htables]
      simp only [hp.load, Except.bind]
  | false =>
      obtain ⟨htables, hvec⟩ := h.gone howns
      rw [VecMem.slots, htables, hvec]
      rfl

/-- The memory without the table. -/
theorem VecShows.freeTables (h : VecShows base place cb m l) :
    ∃ h', m.freeTables = .ok { m with heap := h' } ∧ h'.live = base.live ∧
      ∀ q b, base.Holds q b → h'.Holds q b := by
  have hlive := h.live_eq
  cases howns : l.owns with
  | true =>
      obtain ⟨p, htables, hp, hfresh⟩ := h.owned howns
      obtain ⟨h', hf⟩ : ∃ h', m.heap.free p = .ok h' := ⟨_, hp.free⟩
      have hfree := Heap.live_free hf
      rw [howns] at hlive
      refine ⟨h', ?_, ?_, ?_⟩
      · rw [VecMem.freeTables, htables]
        simp only [hf, Except.bind]
      · simp only [if_true] at hlive
        omega
      · intro q b hq
        refine (Heap.holds_free_iff hf).2 ⟨?_, h.kept q b hq⟩
        rintro rfl
        exact hfresh b hq
  | false =>
      obtain ⟨htables, -⟩ := h.gone howns
      rw [howns] at hlive
      refine ⟨m.heap, ?_, hlive, h.kept⟩
      rw [VecMem.freeTables, htables]

/-- A new block is none of the old ones. -/
theorem VecShows.fresh (h : VecShows base place cb m l) (b : VBlock α) (b' : VBlock α) :
    ¬ base.Holds (m.heap.alloc b).2 b' := fun hb => (h.kept _ _ hb).ne_alloc b rfl

/-- **`vector_expand`** leaves one table, with the visible slots in it. -/
theorem VecShows.expand (h : VecShows base place cb m l)
    (hserves : callocServes (l.vec.cap * 2 % 2 ^ 64)) :
    ∃ m', m.expand = .ok (some m') ∧
      ∀ w : CVector α, w.size = l.vec.size → w.cap = l.vec.cap * 2 % 2 ^ 64 →
        w.tables = l.vec.tables.take l.vec.size ++
          List.replicate (l.vec.cap * 2 % 2 ^ 64 - l.vec.size) none →
        VecShows base place cb m' { l with vec := w, owns := true } := by
  have hold : l.vec.size ≤ l.vec.tables.length := by
    have := l.vec.size_le
    have := l.vec.length_eq
    omega
  have hroom : l.vec.size ≤ l.vec.cap * 2 % 2 ^ 64 := by
    have hs := l.vec.serves
    have hle := l.vec.size_le
    rw [callocServes] at hs
    omega
  generalize hcap : l.vec.cap * 2 % 2 ^ 64 = cap at hserves hroom ⊢
  -- the new table is allocated beside the old one
  generalize hmade : m.heap.alloc (.table (List.replicate cap none)) = made
  have hmadeHeld : made.1.Holds made.2 (.table (List.replicate cap none)) := by
    rw [← hmade]
    exact Heap.holds_alloc_self _ _
  have hne : ∀ q b, m.heap.Holds q b → made.1.Holds q b ∧ q ≠ made.2 := by
    intro q b hq
    rw [← hmade]
    exact ⟨hq.alloc _, hq.ne_alloc _⟩
  have hnotBase : ∀ b, ¬ base.Holds made.2 b := by
    rw [← hmade]
    exact h.fresh _
  have hmadeLive : made.1.live = m.heap.live + 1 := by
    rw [← hmade]
    exact Heap.live_alloc _ _
  have hslots : ({ m with heap := made.1 } : VecMem α).slots = .ok l.vec.tables := by
    cases howns : l.owns with
    | true =>
        obtain ⟨p, htables, hp, -⟩ := h.owned howns
        rw [VecMem.slots]
        simp only [htables, (hne p _ hp).1.load, Except.bind]
    | false =>
        obtain ⟨htables, hvec⟩ := h.gone howns
        rw [VecMem.slots, hvec]
        simp only [htables]
        rfl
  have hcopy : copyTable l.vec.tables (List.replicate cap none) l.vec.size =
      .ok (l.vec.tables.take l.vec.size ++ List.replicate (cap - l.vec.size) none) := by
    rw [copyTable_eq hold (by rwa [List.length_replicate]), List.drop_replicate]
  generalize htab : l.vec.tables.take l.vec.size ++ List.replicate (cap - l.vec.size) none = new
    at hcopy ⊢
  obtain ⟨h₁, hs⟩ : ∃ h₁, made.1.store made.2 (.table new) = .ok h₁ := ⟨_, hmadeHeld.store _⟩
  have hnewHeld : h₁.Holds made.2 (.table new) := by
    rw [Heap.holds_store_iff hs, if_pos rfl]
  have hkept₁ : ∀ q b, m.heap.Holds q b → h₁.Holds q b := by
    intro q b hq
    rw [Heap.holds_store_iff hs, if_neg (hne q b hq).2]
    exact (hne q b hq).1
  have hlive₁ : h₁.live = m.heap.live + 1 := by
    rw [Heap.live_store hs, hmadeLive]
  -- the old table is freed
  have hfreed : ∃ h₂, VecMem.freeTables { m with heap := h₁ } = .ok { m with heap := h₂ } ∧
      h₂.Holds made.2 (.table new) ∧ h₂.live = base.live + 1 ∧
      ∀ q b, base.Holds q b → h₂.Holds q b := by
    have hlive := h.live_eq
    cases howns : l.owns with
    | true =>
        obtain ⟨p, htables, hp, hfresh⟩ := h.owned howns
        obtain ⟨h₂, hf⟩ : ∃ h₂, h₁.free p = .ok h₂ := ⟨_, (hkept₁ p _ hp).free⟩
        have hfree := Heap.live_free hf
        rw [howns] at hlive
        refine ⟨h₂, ?_, ?_, ?_, ?_⟩
        · rw [VecMem.freeTables]
          simp only [htables, hf, Except.bind]
        · exact (Heap.holds_free_iff hf).2 ⟨(hne p _ hp).2.symm, hnewHeld⟩
        · simp only [if_true] at hlive
          omega
        · intro q b hq
          refine (Heap.holds_free_iff hf).2 ⟨?_, hkept₁ q b (h.kept q b hq)⟩
          rintro rfl
          exact hfresh b hq
    | false =>
        obtain ⟨htables, -⟩ := h.gone howns
        rw [howns] at hlive
        refine ⟨h₁, ?_, hnewHeld, ?_, fun q b hq => hkept₁ q b (h.kept q b hq)⟩
        · rw [VecMem.freeTables]
          simp only [htables]
        · simp only [Bool.false_eq_true, if_false] at hlive
          omega
  obtain ⟨h₂, hfree, hnew₂, hlive₂, hkept₂⟩ := hfreed
  refine ⟨{ heap := h₂, place := m.place, released := m.released,
            vec := { m.vec with tables := some made.2, cap := cap } }, ?_, ?_⟩
  · rw [VecMem.expand]
    simp only [h.cap_eq, h.size_eq, hcap, if_pos hserves, hmade, hslots, hcopy, hs, hfree,
      Outcome.ok_bind]
  · intro w hwsize hwcap hwtables
    exact { place_eq := h.place_eq, cb_eq := h.cb_eq, size_eq := h.size_eq.trans hwsize.symm,
            cap_eq := hwcap.symm, released_eq := h.released_eq,
            owned := fun _ => ⟨made.2, rfl, hwtables ▸ hnew₂, hnotBase⟩,
            gone := fun hno => (by cases hno),
            live_eq := hlive₂, kept := hkept₂ }

/-- The expansion in memory is the expansion of the `CVector`. -/
theorem VecShows.grow (h : VecShows base place cb m l) :
    (vectorGrow l.vec = .ok none → m.grow = .ok none) ∧
      ∀ w, vectorGrow l.vec = .ok (some w) → ∃ m', m.grow = .ok (some m') ∧
        VecShows base place cb m' { l with vec := w, owns := true } := by
  by_cases hfull : l.vec.size = l.vec.cap
  · have hgrow : m.grow = m.expand := by
      rw [VecMem.grow, h.size_eq, h.cap_eq, if_pos hfull]
    rw [hgrow, vectorGrow, if_pos hfull, vectorExpand]
    by_cases hserves : callocServes (l.vec.cap * 2 % 2 ^ 64)
    · obtain ⟨m', hexpand, hshows⟩ := h.expand hserves
      have hroom : l.vec.size ≤ l.vec.cap * 2 % 2 ^ 64 := by
        have hs := l.vec.serves
        rw [callocServes] at hs
        omega
      rw [dif_pos hserves, dif_pos hroom]
      constructor
      · rintro ⟨⟩
      · rintro w ⟨⟩
        exact ⟨m', hexpand, hshows _ rfl rfl rfl⟩
    · rw [dif_neg hserves, VecMem.expand, h.cap_eq, if_neg hserves]
      constructor
      · exact fun _ => rfl
      · rintro w ⟨⟩
  · have howns : l.owns = true := by
      by_contra hno
      obtain ⟨-, hvec⟩ := h.gone (Bool.not_eq_true _ ▸ hno)
      exact hfull (by rw [hvec]; rfl)
    have hgrow : m.grow = .ok (some m) := by
      rw [VecMem.grow, h.size_eq, h.cap_eq, if_neg hfull]
    rw [hgrow, vectorGrow, if_neg hfull]
    constructor
    · rintro ⟨⟩
    · rintro w ⟨⟩
      refine ⟨m, rfl, ?_⟩
      rw [← howns]
      exact h

/-- A store into the table. -/
theorem VecShows.storeSlot (h : VecShows base place cb m l) (howns : l.owns = true) (index : ℕ)
    (d : α) :
    (¬ index < l.vec.cap → m.storeSlot index d = .error .outOfBounds) ∧
      (index < l.vec.cap → ∃ h', m.storeSlot index d = .ok { m with heap := h' } ∧
        ∀ (w : CVector α) (size : ℕ), w.size = size → w.cap = l.vec.cap →
          w.tables = l.vec.tables.set index (some d) →
          VecShows base place cb { m with heap := h', vec := { m.vec with size := size } }
            { l with vec := w }) := by
  obtain ⟨p, htables, hp, hfresh⟩ := h.owned howns
  have hlen : l.vec.tables.length = l.vec.cap := l.vec.length_eq
  have hslots := h.slots_eq
  constructor
  · intro hout
    rw [VecMem.storeSlot, htables]
    simp only [hslots, Outcome.ok_bind, hlen, if_neg hout]
  · intro hin
    obtain ⟨h', hs⟩ : ∃ h', m.heap.store p (.table (l.vec.tables.set index (some d))) = .ok h' :=
      ⟨_, hp.store _⟩
    refine ⟨h', ?_, ?_⟩
    · rw [VecMem.storeSlot, htables]
      simp only [hslots, Outcome.ok_bind, hlen, if_pos hin, hs]
    · intro w size hsize hcap hwtables
      refine { place_eq := h.place_eq, cb_eq := h.cb_eq, size_eq := hsize.symm,
               cap_eq := h.cap_eq.trans hcap.symm, released_eq := h.released_eq,
               owned := fun _ => ⟨p, htables, ?_, hfresh⟩, gone := ?_, live_eq := ?_, kept := ?_ }
      · rw [Heap.holds_store_iff hs, if_pos rfl, hwtables]
      · intro hno
        rw [howns] at hno
        cases hno
      · rw [← h.live_eq]
        exact Heap.live_store hs
      · intro q b hq
        have hne : q ≠ p := by
          rintro rfl
          exact hfresh b hq
        rw [Heap.holds_store_iff hs, if_neg hne]
        exact h.kept q b hq

/-- A call that stores nothing is made of a null pointer, or finds no room to expand into. -/
theorem VecShows.store (h : VecShows base place cb m l) (call : VectorCall α) :
    (∀ vec, vectorStep l.vec call = .ok vec →
      ∃ m', vecMemStep m (.store call) = .ok m' ∧
        VecShows base place cb m' { l with vec := vec }) ∧
    (∀ f, vectorStep l.vec call = .error f →
      vecMemStep m (.store call) = .error .outOfBounds) := by
  obtain ⟨hnone, hsome⟩ := h.grow
  have hcases := vectorGrow_cases l.vec
  -- without a table there is no slot to store into
  have hgone : ∀ w, vectorGrow l.vec = .ok (some w) → l.owns = false → w.cap = 0 := by
    intro w hw hno
    obtain ⟨-, hvec⟩ := h.gone hno
    rw [hvec] at hw
    cases hw
    rfl
  cases call with
  | pushBack data =>
      cases data with
      | none =>
          refine ⟨?_, ?_⟩
          · rintro vec ⟨⟩
            exact ⟨m, rfl, h⟩
          · rintro f ⟨⟩
      | some d =>
          rcases hcases with ⟨hgrow, -⟩ | ⟨⟨w, hgrow⟩, -⟩
          · simp only [vectorStep, vectorPushBack, hgrow, Outcome.ok_bind, vecMemStep,
              VecMem.pushBack, hnone hgrow]
            refine ⟨?_, ?_⟩
            · rintro vec ⟨⟩
              exact ⟨m, rfl, h⟩
            · rintro f ⟨⟩
          · obtain ⟨m₁, hmem, h₁⟩ := hsome w hgrow
            obtain ⟨hout, hin⟩ := h₁.storeSlot rfl w.size d
            have hsize : m₁.vec.size = w.size := h₁.size_eq
            simp only [vectorStep, vectorPushBack, hgrow, Outcome.ok_bind, vecMemStep,
              VecMem.pushBack, hmem, hsize]
            by_cases hlt : w.size < w.cap
            · obtain ⟨h', hstore, hshows⟩ := hin hlt
              have howns : l.owns = true := by
                by_contra hno
                have hcap := hgone w hgrow (Bool.not_eq_true _ ▸ hno)
                omega
              rw [dif_pos hlt, hstore]
              refine ⟨?_, ?_⟩
              · rintro vec ⟨⟩
                refine ⟨_, rfl, ?_⟩
                rw [howns]
                simp only [hsize]
                exact hshows _ _ rfl rfl rfl
              · rintro f ⟨⟩
            · rw [dif_neg hlt, hout hlt]
              refine ⟨?_, fun _ _ => rfl⟩
              rintro vec ⟨⟩
  | insert index data =>
      cases data with
      | none =>
          refine ⟨?_, ?_⟩
          · rintro vec ⟨⟩
            exact ⟨m, rfl, h⟩
          · rintro f ⟨⟩
      | some d =>
          rcases hcases with ⟨hgrow, -⟩ | ⟨⟨w, hgrow⟩, -⟩
          · simp only [vectorStep, vectorInsert, hgrow, Outcome.ok_bind, vecMemStep,
              VecMem.insert, hnone hgrow]
            refine ⟨?_, ?_⟩
            · rintro vec ⟨⟩
              exact ⟨m, rfl, h⟩
            · rintro f ⟨⟩
          · obtain ⟨m₁, hmem, h₁⟩ := hsome w hgrow
            obtain ⟨hout, hin⟩ := h₁.storeSlot rfl index d
            simp only [vectorStep, vectorInsert, hgrow, Outcome.ok_bind, vecMemStep,
              VecMem.insert, hmem]
            by_cases hlt : index < w.cap
            · obtain ⟨h', hstore, hshows⟩ := hin hlt
              have howns : l.owns = true := by
                by_contra hno
                have hcap := hgone w hgrow (Bool.not_eq_true _ ▸ hno)
                omega
              rw [if_pos hlt, hstore]
              refine ⟨?_, ?_⟩
              · rintro vec ⟨⟩
                refine ⟨_, rfl, ?_⟩
                rw [howns]
                exact hshows _ _ h₁.size_eq.symm rfl rfl
              · rintro f ⟨⟩
            · rw [if_neg hlt, hout hlt]
              refine ⟨?_, fun _ _ => rfl⟩
              rintro vec ⟨⟩

/-- **`vector_deinit`** frees the table, if there is one, when its visible slots were handed to the
callback. -/
theorem VecShows.deinit (h : VecShows base place cb m l) :
    ∃ m', m.deinit = .ok m' ∧ VecShows base place cb m'
      { vec := CVector.nothing, owns := false,
        released := l.released ++ if cb then l.vec.tables.take l.vec.size else [] } := by
  obtain ⟨h', hfree, hlive, hkept⟩ := h.freeTables
  refine ⟨{ heap := h', place := m.place,
            vec := { m.vec with tables := none, size := 0, cap := 0 },
            released := m.released ++ if m.vec.cb then l.vec.tables.take m.vec.size else [] },
    ?_, ?_⟩
  · rw [VecMem.deinit]
    simp only [h.slots_eq, hfree, Outcome.ok_bind]
  · exact { place_eq := h.place_eq, cb_eq := h.cb_eq, size_eq := rfl, cap_eq := rfl,
            released_eq := by simp only [h.released_eq, h.cb_eq, h.size_eq],
            owned := (by rintro ⟨⟩), gone := fun _ => ⟨rfl, rfl⟩, live_eq := hlive,
            kept := hkept }

end

/-- **In memory a call does what it does to a `CVector`.** -/
theorem vecMem_step (base : Heap (VBlock α)) (place : Option Addr) (cb : Bool) :
    Outcome.Metered (VecShows base place cb) vecMemStep (vecLedgerStep cb) := by
  intro m l call h
  cases call with
  | store call =>
      obtain ⟨hok, herr⟩ := h.store call
      rw [vecLedgerStep]
      cases hstep : vectorStep l.vec call with
      | ok vec =>
          refine ⟨?_, ?_⟩
          · rintro l' ⟨⟩
            exact hok vec hstep
          · rintro ⟨⟩
      | error f =>
          refine ⟨?_, fun _ => ⟨.outOfBounds, herr f hstep, trivial⟩⟩
          rintro l' ⟨⟩
  | deinit =>
      refine ⟨?_, ?_⟩
      · rintro l' ⟨⟩
        exact h.deinit
      · rintro ⟨⟩


/-! ### Runs -/

/-- The size and the capacity of a vector. -/
structure VecRoom where
  size : ℕ
  cap : ℕ

/-- The room for one more pointer; none when there is no table of twice the slots. -/
def VecRoom.grown (r : VecRoom) : Option VecRoom :=
  if r.size = r.cap then
    if callocServes (r.cap * 2) then some { r with cap := r.cap * 2 } else none
  else some r

/-- What a call does to the room; there is nothing where it stores outside the table. -/
def vecRoomStep (r : VecRoom) : VecCall α → Option VecRoom
  | .store (.pushBack (some _)) =>
      match r.grown with
      | none => some r
      | some r => if r.size < r.cap then some { r with size := r.size + 1 } else none
  | .store (.insert index (some _)) =>
      match r.grown with
      | none => some r
      | some r => if index < r.cap then some r else none
  | .store _ => some r
  | .deinit => some { size := 0, cap := 0 }

/-- The room of a vector. -/
def CVector.room (vec : CVector α) : VecRoom := { size := vec.size, cap := vec.cap }

theorem vectorGrow_room (vec : CVector α) :
    ∃ o, vectorGrow vec = .ok o ∧ o.map CVector.room = vec.room.grown := by
  have hserves := vec.serves
  have hle := vec.size_le
  rw [callocServes] at hserves
  have hmod : vec.cap * 2 % 2 ^ 64 = vec.cap * 2 := Nat.mod_eq_of_lt (by omega)
  by_cases hfull : vec.size = vec.cap
  · have hfull' : vec.room.size = vec.room.cap := hfull
    rw [vectorGrow, if_pos hfull, vectorExpand, VecRoom.grown, if_pos hfull']
    by_cases hdouble : callocServes (vec.cap * 2)
    · have hdouble' : callocServes (vec.room.cap * 2) := hdouble
      rw [dif_pos ((callocServes_double_iff vec).2 hdouble), dif_pos (by omega), if_pos hdouble']
      exact ⟨_, rfl, congrArg (fun c => some { size := vec.size, cap := c : VecRoom }) hmod⟩
    · have hdouble' : ¬ callocServes (vec.room.cap * 2) := hdouble
      rw [dif_neg fun hyes => hdouble ((callocServes_double_iff vec).1 hyes), if_neg hdouble']
      exact ⟨none, rfl, rfl⟩
  · have hfull' : ¬ vec.room.size = vec.room.cap := hfull
    rw [vectorGrow, if_neg hfull, VecRoom.grown, if_neg hfull']
    exact ⟨some vec, rfl, rfl⟩

/-- The room that a call leaves depends on the room it finds. -/
theorem vecLedgerStep_room (cb : Bool) (l : VecLedger α) (call : VecCall α) :
    (vecLedgerStep cb l call).map (fun l => l.vec.room) = vecRoomStep l.vec.room call := by
  obtain ⟨o, hgrow, hroom⟩ := vectorGrow_room l.vec
  cases call with
  | deinit => rfl
  | store call =>
      cases call with
      | pushBack data =>
          cases data with
          | none => rfl
          | some d =>
              cases o with
              | none =>
                  simp only [vecRoomStep, ← hroom, vecLedgerStep, vectorStep, vectorPushBack, hgrow,
                    Outcome.ok_bind, Option.map_none, Option.map_some]
              | some w =>
                  simp only [vecRoomStep, ← hroom, vecLedgerStep, vectorStep, vectorPushBack, hgrow,
                    Outcome.ok_bind, Option.map_some]
                  by_cases hlt : w.size < w.cap
                  · have hlt' : w.room.size < w.room.cap := hlt
                    rw [dif_pos hlt, if_pos hlt']
                    rfl
                  · have hlt' : ¬ w.room.size < w.room.cap := hlt
                    rw [dif_neg hlt, if_neg hlt']
                    rfl
      | insert index data =>
          cases data with
          | none => rfl
          | some d =>
              cases o with
              | none =>
                  simp only [vecRoomStep, ← hroom, vecLedgerStep, vectorStep, vectorInsert, hgrow,
                    Outcome.ok_bind, Option.map_none, Option.map_some]
              | some w =>
                  simp only [vecRoomStep, ← hroom, vecLedgerStep, vectorStep, vectorInsert, hgrow,
                    Outcome.ok_bind, Option.map_some]
                  by_cases hlt : index < w.cap
                  · have hlt' : index < w.room.cap := hlt
                    rw [if_pos hlt, if_pos hlt']
                    rfl
                  · have hlt' : ¬ index < w.room.cap := hlt
                    rw [if_neg hlt, if_neg hlt']
                    rfl

/-- The account of a run leaves the room that the run of its rooms leaves. -/
theorem foldlM_vecLedgerStep_room (cb : Bool) (calls : List (VecCall α)) (l : VecLedger α) :
    (calls.foldlM (vecLedgerStep cb) l).map (fun l => l.vec.room) =
      calls.foldlM vecRoomStep l.vec.room := by
  induction calls generalizing l with
  | nil => rfl
  | cons call calls ih =>
      rw [List.foldlM_cons, List.foldlM_cons, ← vecLedgerStep_room cb l call]
      cases vecLedgerStep cb l call with
      | none => rfl
      | some l' => exact ih l'

/-- A vector that was made holds nothing, in a table of its own. -/
theorem vecCreate_shows (h : Heap (VBlock α)) {cap : ℕ} (hserves : callocServes cap) (cb : Bool) :
    ∃ m vec, vecCreate h cap cb = .ok m ∧ vectorInit cap = .ok vec ∧
      VecShows (h.alloc .vector).1 (some (h.alloc .vector).2) cb m
        { vec := vec, owns := true, released := [] } := by
  generalize hmade : (h.alloc VBlock.vector).1.alloc (.table (List.replicate cap none)) = made
  have hheld : made.1.Holds made.2 (.table (List.replicate cap none)) := by
    rw [← hmade]
    exact Heap.holds_alloc_self _ _
  refine ⟨{ heap := made.1, place := some (h.alloc .vector).2, released := [],
            vec := { size := 0, cap := cap, tables := some made.2, cb := cb } },
    { size := 0, cap := cap, tables := List.replicate cap none, length_eq := List.length_replicate,
      size_le := Nat.zero_le cap, serves := hserves }, ?_, dif_pos hserves, ?_⟩
  · rw [vecCreate, vecInit, if_pos hserves]
    simp only [hmade]
  · refine { place_eq := rfl, cb_eq := rfl, size_eq := rfl, cap_eq := rfl, released_eq := rfl,
             owned := fun _ => ⟨made.2, rfl, hheld, ?_⟩, gone := ?_, live_eq := ?_, kept := ?_ }
    · intro b hb
      rw [← hmade] at hb
      exact hb.ne_alloc _ rfl
    · rintro ⟨⟩
    · rw [← hmade]
      exact Heap.live_alloc _ _
    · intro q b hq
      rw [← hmade]
      exact hq.alloc _

/-- **Which runs are defined**: those that find room for every pointer they store.  A vector with no
room, as it is made for none and as `vector_deinit` leaves it, gets no room by being expanded. -/
theorem vecMem_defined_iff (h : Heap (VBlock α)) (cap : ℕ) (cb : Bool) (calls : List (VecCall α)) :
    Outcome.Holds (fun _ => True) (vecCreate h cap cb >>= fun m => calls.foldlM vecMemStep m) ↔
      (callocServes cap → ∃ r, calls.foldlM vecRoomStep { size := 0, cap := cap } = some r) := by
  by_cases hserves : callocServes cap
  · obtain ⟨m, vec, hmade, hvec, hshows⟩ := vecCreate_shows h hserves cb
    obtain ⟨hsize, hcap, -⟩ := vectorInit_ok hvec
    have hroom : vec.room = { size := 0, cap := cap } := by
      rw [CVector.room, hsize, hcap]
    have hrooms := foldlM_vecLedgerStep_room cb calls { vec := vec, owns := true, released := [] }
    simp only [hroom] at hrooms
    rw [hmade, Outcome.ok_bind, (vecMem_step _ _ cb).holds_iff hshows, ← hrooms]
    constructor
    · rintro ⟨l, hl⟩ -
      exact ⟨l.vec.room, by rw [hl]; rfl⟩
    · intro hdefined
      obtain ⟨r, hr⟩ := hdefined hserves
      obtain ⟨l, hl, -⟩ := Option.map_eq_some_iff.1 hr
      exact ⟨l, hl⟩
  · have hmade : vecCreate h cap cb = .error .abort := by
      rw [vecCreate, vecInit, if_neg hserves]
    rw [hmade, Outcome.error_bind]
    exact ⟨fun _ hs => absurd hs hserves, fun _ hundef => hundef⟩

/-- The last calls of a run: the vector is destroyed. -/
theorem VecShows.destroy {base : Heap (VBlock α)} {p : ℕ} {b : VBlock α} {cb : Bool} {m : VecMem α}
    {l : VecLedger α} (h : VecShows base (some p) cb m l) (hp : base.Holds p b) :
    ∃ m', m.destroy = .ok m' ∧ m'.heap.live + 1 = base.live ∧
      (∀ q c, q ≠ p → base.Holds q c → m'.heap.Holds q c) ∧
      m'.released = l.released ++ if cb then l.vec.tables.take l.vec.size else [] := by
  obtain ⟨m₁, hdeinit, h₁⟩ := h.deinit
  obtain ⟨h', hf⟩ : ∃ h', m₁.heap.free p = .ok h' := ⟨_, (h₁.kept p b hp).free⟩
  refine ⟨{ m₁ with heap := h' }, ?_, ?_, ?_, h₁.released_eq⟩
  · have hplace := h₁.place_eq
    simp only [VecMem.destroy, hdeinit, Outcome.ok_bind, hplace, hf, Except.bind]
  · have hlive := h₁.live_eq
    simp only [Bool.false_eq_true, if_false] at hlive
    rw [Heap.live_free hf, hlive, Nat.add_zero]
  · intro q c hne hq
    exact (Heap.holds_free_iff hf).2 ⟨hne, h₁.kept q c hq⟩

/-- A vector within another structure is not a block that can be freed. -/
theorem VecShows.destroy_within {base : Heap (VBlock α)} {cb : Bool} {m : VecMem α}
    {l : VecLedger α} (h : VecShows base none cb m l) : m.destroy = .error .wild := by
  obtain ⟨m₁, hdeinit, h₁⟩ := h.deinit
  have hplace := h₁.place_eq
  simp only [VecMem.destroy, hdeinit, Outcome.ok_bind, hplace]

/-- **A run leaves no memory behind.**  A vector that `vector_create` made, after any calls that
return, is destroyed without a fault; the blocks are those that were there before it was made, as
they were, and the callback was called with what was visible at each `vector_deinit` and at the end,
in order. -/
theorem vecMem_lifecycle {h : Heap (VBlock α)} {cap : ℕ} {cb : Bool} {calls : List (VecCall α)}
    {m m' : VecMem α} (hcreate : vecCreate h cap cb = .ok m)
    (hrun : calls.foldlM vecMemStep m = .ok m') :
    ∃ m'' vec l, m'.destroy = .ok m'' ∧ m''.heap.live = h.live ∧
      (∀ q b, h.Holds q b → m''.heap.Holds q b) ∧ vectorInit cap = .ok vec ∧
      calls.foldlM (vecLedgerStep cb) { vec := vec, owns := true, released := [] } = some l ∧
      m''.released = l.released ++ if cb then l.vec.tables.take l.vec.size else [] := by
  have hserves : callocServes cap := by
    by_contra hno
    rw [vecCreate, vecInit, if_neg hno] at hcreate
    cases hcreate
  obtain ⟨m₀, vec, hmade, hvec, hshows⟩ := vecCreate_shows h hserves cb
  rw [hcreate] at hmade
  cases hmade
  obtain ⟨l, hl, h'⟩ := (vecMem_step _ _ cb).of_ok hshows hrun
  obtain ⟨m'', hdestroy, hlive, hkept, hreleased⟩ := h'.destroy (Heap.holds_alloc_self h .vector)
  rw [Heap.live_alloc] at hlive
  refine ⟨m'', vec, l, hdestroy, by omega, ?_, hvec, hl, hreleased⟩
  intro q b hq
  exact hkept q b (hq.ne_alloc _) (hq.alloc _)

/-- Pushes onto a vector for one pointer, which is made and destroyed. -/
def pushesOfTwo : List (VecCall ℕ) :=
  [.store (.pushBack (some 7)), .store (.pushBack (some 8)), .store (.insert 0 (some 9))]

/-- The result applied to them: the callback is called with what was inserted, and not with what it
took the place of. -/
theorem vecMem_lifecycle_pushesOfTwo :
    ∃ m m', vecCreate Heap.empty 1 true = .ok m ∧ pushesOfTwo.foldlM vecMemStep m = .ok m' ∧
      ∃ m'' vec l, m'.destroy = .ok m'' ∧ m''.heap.live = (Heap.empty : Heap (VBlock ℕ)).live ∧
        (∀ q b, (Heap.empty : Heap (VBlock ℕ)).Holds q b → m''.heap.Holds q b) ∧
        vectorInit 1 = .ok vec ∧ pushesOfTwo.foldlM (vecLedgerStep true)
          { vec := vec, owns := true, released := [] } = some l ∧
        m''.released = l.released ++ if true then l.vec.tables.take l.vec.size else [] := by
  obtain ⟨m, hm⟩ : ∃ m, vecCreate (Heap.empty : Heap (VBlock ℕ)) 1 true = .ok m := ⟨_, rfl⟩
  obtain ⟨m', hm'⟩ : ∃ m', pushesOfTwo.foldlM vecMemStep m = .ok m' := by
    cases hm
    exact ⟨_, rfl⟩
  exact ⟨m, m', hm, hm', vecMem_lifecycle hm hm'⟩
