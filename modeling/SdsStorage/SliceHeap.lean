/-
**Slices and the blocks they own.**

A string that does not fit into its slice lies in a block of its own, which only `slice_deinit`
frees.  `slice_init` and `slice_copy` write over whatever the slice held, the address of such a
block included, and they clear the pointer before they read the string they are given, which may be
the value of the slice itself.  Here the blocks are in a heap, the value of a slice is a pointer
into the slice or to its block, and the calls are made on any slices, with the values of any.

Main definitions:

* `HData`, `HSlice`, `SliceMem` — the union, the structure, and the slices with their heap;
* `SlicePtr`, `SliceMem.deref` — the pointers `slice_value` returns, and what they lead to;
* `SliceMem.init`, `SliceMem.deinit`, `SliceMem.repaceValue`, `SliceMem.copy` — the operations;
* `Ledger`, `ledgerStep` — the strings, and how many blocks were lost.

Main results:

* `sliceMem_step` — **one call does what the ledger says**;
* `sliceMem_defined_iff` — **which runs are defined**;
* `sliceMem_accounts` — **every block is owned by one slice, or lost**.
-/

import SdsStorage.Heap
import SdsStorage.SliceRun
import Mathlib.Algebra.BigOperators.Group.Finset.Basic
import Mathlib.Data.Fintype.Basic

set_option relaxedAutoImplicit false
set_option autoImplicit false

/-! ### Slices in memory -/

/-- The union of a `slice`: sixteen bytes, or the address of a block and what lies behind it. -/
inductive HData where
  | buf (bytes : Bytes)
  | ptr (p : ℕ) (rest : Bytes)

/-- The bytes of the union behind its pointer. -/
def HData.rest : HData → Bytes
  | .buf bytes => bytes.drop 8
  | .ptr _ rest => rest

@[simp] theorem HData.rest_buf (bytes : Bytes) : (HData.buf bytes).rest = bytes.drop 8 := rfl

@[simp] theorem HData.rest_ptr (p : ℕ) (rest : Bytes) : (HData.ptr p rest).rest = rest := rfl

/-- The union after `data.ptr = NULL`. -/
def HData.clear (d : HData) : HData := .buf (List.replicate 8 0 ++ d.rest)

/-- `slice`. -/
structure HSlice where
  data : HData
  sz : ℕ

/-- The slice `calloc` leaves. -/
def HSlice.zero : HSlice := { data := .buf (List.replicate sliceInternalSz 0), sz := 0 }

/-- The slices of a program, and the heap with the strings they own. -/
structure SliceMem (ι : Type) where
  heap : Heap Bytes
  slices : ι → HSlice

/-- A pointer to a string: to some other part of the memory, to the buffer of a slice, or to a
block. -/
inductive SlicePtr (ι : Type) where
  | null
  | text (mem : Bytes)
  | inside (i : ι)
  | block (p : ℕ)

/-- Where the string of a call comes from: nowhere, from some other part of the memory, or from the
value of a slice. -/
inductive SliceSource (ι : Type) where
  | null
  | text (src : SourceString)
  | value (j : ι)

namespace SliceMem

variable {ι : Type} [DecidableEq ι]

/-- Nothing was stored in any slice. -/
def start : SliceMem ι := { heap := Heap.empty, slices := fun _ => HSlice.zero }

/-- The memory with one slice replaced. -/
def set (m : SliceMem ι) (i : ι) (se : HSlice) : SliceMem ι :=
  { m with slices := Function.update m.slices i se }

/-- The bytes a pointer leads to. -/
def deref (m : SliceMem ι) : SlicePtr ι → Outcome Bytes
  | .null => .error .nullDeref
  | .text mem => .ok mem
  | .inside i =>
      match (m.slices i).data with
      | .buf bytes => .ok bytes
      | .ptr _ _ => .error .wild
  | .block p => m.heap.load p

/-- `slice_value`. -/
def value (m : SliceMem ι) (i : ι) : Outcome (SlicePtr ι) :=
  let se := m.slices i
  if 0 < se.sz ∧ se.sz < sliceInternalSz then .ok (.inside i)
  else if 0 < se.sz ∧ sliceInternalSz ≤ se.sz then
    match se.data with
    | .buf _ => .error .wild
    | .ptr p _ => .ok (.block p)
  else .ok .null

/-- The argument of a call. -/
def source (m : SliceMem ι) : SliceSource ι → Outcome (SlicePtr ι)
  | .null => .ok .null
  | .text src => .ok (.text (src.s ++ 0 :: src.rest))
  | .value j => m.value j

/-- The slice with a string of fewer than sixteen bytes copied into its buffer. -/
def fillInline (d : HData) (s : Bytes) : HSlice :=
  { data := .buf (s ++ 0 :: (List.replicate 8 0 ++ d.rest).drop (s.length + 1)), sz := s.length }

/-- `slice_init`: the status and the memory. -/
def init (m : SliceMem ι) (i : ι) (value : SlicePtr ι) : Outcome (ℤ × SliceMem ι) :=
  -- the slice is cleared before the string is looked at
  let old := (m.slices i).data
  let m := m.set i { data := old.clear, sz := 0 }
  match value with
  | .null => .ok (-1, m)
  | value => do
      let mem ← m.deref value
      let valueSz ← CString.strlen mem
      if valueSz < sliceInternalSz then .ok (0, m.set i (fillInline old (mem.take valueSz)))
      else
        -- `strdup`
        let dup := m.heap.alloc (mem.take valueSz ++ [0])
        .ok (0, { m with heap := dup.1 }.set i { data := .ptr dup.2 old.rest, sz := valueSz })

/-- `slice_deinit`: the pointer stays where it is. -/
def deinit (m : SliceMem ι) (i : ι) : Outcome (SliceMem ι) :=
  let se := m.slices i
  if 0 < se.sz then
    if sliceInternalSz ≤ se.sz then
      match se.data with
      | .buf _ => .error .wild
      | .ptr p _ => do
          let h ← m.heap.free p
          .ok ({ m with heap := h }.set i { se with sz := 0 })
    else .ok m
  else .ok m

/-- `slice_repace_value`. -/
def repaceValue (m : SliceMem ι) (i : ι) (value : SlicePtr ι) : Outcome (ℤ × SliceMem ι) := do
  let m ← m.deinit i
  m.init i value

/-- `slice_copy`. -/
def copy (m : SliceMem ι) (dest src : ι) : Outcome (ℤ × SliceMem ι) := do
  let value ← m.value src
  m.init dest value

end SliceMem

/-! ### Calls, and what they come to -/

/-- A call on the slices of a run. -/
inductive HCall (ι : Type) where
  | init (i : ι) (src : SliceSource ι)
  | repaceValue (i : ι) (src : SliceSource ι)
  | copy (dest src : ι)
  | deinit (i : ι)

section

variable {ι : Type} [DecidableEq ι]

/-- A call: its argument is looked up first. -/
def sliceMemStep (m : SliceMem ι) : HCall ι → Outcome (SliceMem ι)
  | .init i src => do
      let value ← m.source src
      let r ← m.init i value
      .ok r.2
  | .repaceValue i src => do
      let value ← m.source src
      let r ← m.repaceValue i value
      .ok r.2
  | .copy dest src => do
      let r ← m.copy dest src
      .ok r.2
  | .deinit i => m.deinit i

/-- The string in each slice, and how many blocks no slice leads to any more. -/
structure Ledger (ι : Type) where
  vals : ι → Bytes
  lost : ℕ

/-- Nothing was stored in any slice. -/
def Ledger.start : Ledger ι := { vals := fun _ => [], lost := 0 }

/-- The string of a source. -/
def Ledger.source (l : Ledger ι) : SliceSource ι → Bytes
  | .null => []
  | .text src => src.s
  | .value j => l.vals j

/-- The string is long enough for a block of its own. -/
def Long (v : Bytes) : Prop := sliceInternalSz ≤ v.length

instance (v : Bytes) : Decidable (Long v) := inferInstanceAs (Decidable (_ ≤ _))

theorem not_long_nil : ¬ Long [] := by decide

/-- The source is the value of the slice itself. -/
def IsSelf (i : ι) : SliceSource ι → Prop
  | .value j => j = i
  | _ => False

instance (i : ι) (src : SliceSource ι) : Decidable (IsSelf i src) := by
  cases src <;> unfold IsSelf <;> infer_instance

/-- What a slice holds after it was initialised: a short string that is its own is gone when it is
read. -/
def Ledger.stored (l : Ledger ι) (i : ι) (src : SliceSource ι) : Bytes :=
  if IsSelf i src ∧ ¬ Long (l.vals i) then [] else l.source src

/-- What initialising a slice comes to: the block it owned is lost. -/
def Ledger.init (l : Ledger ι) (i : ι) (src : SliceSource ι) : Ledger ι where
  vals := Function.update l.vals i (l.stored i src)
  lost := if Long (l.vals i) then l.lost + 1 else l.lost

/-- What a call comes to; there is nothing where the block of a slice is read after it was freed. -/
def ledgerStep (l : Ledger ι) : HCall ι → Option (Ledger ι)
  | .init i src => some (l.init i src)
  | .copy dest src => some (l.init dest (.value src))
  | .repaceValue i src =>
      if Long (l.vals i) then
        if IsSelf i src then none
        else some { l with vals := Function.update l.vals i (l.source src) }
      else some (l.init i src)
  | .deinit i =>
      if Long (l.vals i) then some { l with vals := Function.update l.vals i [] } else some l

/-! ### What a slice holds -/

/-- A slice holds a string: in its buffer, or in a block of the heap. -/
structure SliceAt (h : Heap Bytes) (se : HSlice) (v : Bytes) : Prop where
  noNul : CString.NoNul v
  size_eq : se.sz = v.length
  rest_length : se.data.rest.length = 8
  short : v ≠ [] → ¬ Long v → ∃ t, se.data = .buf (v ++ 0 :: t)
  long : Long v → ∃ p rest, se.data = .ptr p rest ∧ h.Holds p (v ++ [0])

/-- An initialised or released slice holds the empty string. -/
theorem SliceAt.of_nil (h : Heap Bytes) {d : HData} (hd : d.rest.length = 8) :
    SliceAt h { data := d, sz := 0 } [] where
  noNul := CString.noNul_nil
  size_eq := rfl
  rest_length := hd
  short hne := absurd rfl hne
  long hl := absurd hl not_long_nil

theorem SliceAt.mono {h h' : Heap Bytes} {se : HSlice} {v : Bytes} (hs : SliceAt h se v)
    (hk : ∀ p rest, se.data = .ptr p rest → h.Holds p (v ++ [0]) → h'.Holds p (v ++ [0])) :
    SliceAt h' se v where
  noNul := hs.noNul
  size_eq := hs.size_eq
  rest_length := hs.rest_length
  short := hs.short
  long hl := by
    obtain ⟨p, rest, hdata, hp⟩ := hs.long hl
    exact ⟨p, rest, hdata, hk p rest hdata hp⟩

theorem length_rest_clear {d : HData} (hd : d.rest.length = 8) : d.clear.rest.length = 8 := by
  simp [HData.clear, hd]

/-- A short string copied into a buffer. -/
theorem sliceAt_fillInline (h : Heap Bytes) {d : HData} (hd : d.rest.length = 8) {s : Bytes}
    (hs : CString.NoNul s) (hshort : ¬ Long s) : SliceAt h (SliceMem.fillInline d s) s where
  noNul := hs
  size_eq := rfl
  rest_length := by
    have hlen : s.length < 16 := Nat.not_le.1 hshort
    simp only [SliceMem.fillInline, HData.rest_buf, List.length_drop, List.length_append,
      List.length_cons, List.length_replicate, hd]
    omega
  short _ _ := ⟨_, rfl⟩
  long hl := absurd hl hshort

/-- The pointer leads to the string, or is null for the empty one. -/
def LeadsTo (m : SliceMem ι) (p : SlicePtr ι) (s : Bytes) : Prop :=
  CString.NoNul s ∧ ((p = .null ∧ s = []) ∨ (p ≠ .null ∧ ∃ t, m.deref p = .ok (s ++ 0 :: t)))

omit [DecidableEq ι] in
/-- What `slice_value` returns leads to the string of the slice. -/
theorem SliceAt.value {m : SliceMem ι} {j : ι} {v : Bytes}
    (hs : SliceAt m.heap (m.slices j) v) :
    ∃ p, m.value j = .ok p ∧ LeadsTo m p v ∧
      (p = .null ↔ v = []) ∧ (p = .inside j ↔ v ≠ [] ∧ ¬ Long v) ∧
      (Long v → ∃ a rest, p = .block a ∧ (m.slices j).data = .ptr a rest) := by
  have hsz := hs.size_eq
  rcases Nat.eq_zero_or_pos v.length with hzero | hpos
  · have hnil : v = [] := List.length_eq_zero_iff.1 hzero
    subst hnil
    refine ⟨.null, ?_, ⟨hs.noNul, Or.inl ⟨rfl, rfl⟩⟩, by simp, by simp,
      fun hl => absurd hl not_long_nil⟩
    simp only [SliceMem.value, hsz, List.length_nil, Nat.lt_irrefl, false_and, if_false]
  · have hne : v ≠ [] := List.ne_nil_of_length_pos hpos
    by_cases hl : Long v
    · obtain ⟨a, rest, hdata, ha⟩ := hs.long hl
      have hge : sliceInternalSz ≤ v.length := hl
      refine ⟨.block a, ?_, ⟨hs.noNul, Or.inr ⟨by simp, [], ?_⟩⟩, by simp [hne], by simp [hl],
        fun _ => ⟨a, rest, rfl, hdata⟩⟩
      · simp only [SliceMem.value, hsz]
        rw [if_neg (by omega), if_pos ⟨hpos, hge⟩, hdata]
      · exact ha.load
    · obtain ⟨t, hdata⟩ := hs.short hne hl
      have hlt : v.length < sliceInternalSz := Nat.not_le.1 hl
      refine ⟨.inside j, ?_, ⟨hs.noNul, Or.inr ⟨by simp, t, ?_⟩⟩, by simp [hne], by simp [hne, hl],
        fun h => absurd h hl⟩
      · simp only [SliceMem.value, hsz]
        rw [if_pos ⟨hpos, hlt⟩]
      · simp only [SliceMem.deref, hdata]

/-! ### The whole memory -/

variable [Fintype ι]

/-- The number of strings that have a block of their own. -/
def longCount (vals : ι → Bytes) : ℕ := ∑ i, if Long (vals i) then 1 else 0

/-- Storing another string changes the number by the two strings. -/
theorem longCount_update (vals : ι → Bytes) (i : ι) (v : Bytes) :
    longCount (Function.update vals i v) + (if Long (vals i) then 1 else 0) =
      longCount vals + (if Long v then 1 else 0) := by
  have hrest : ∑ j ∈ Finset.univ.erase i, (if Long (Function.update vals i v j) then 1 else 0) =
      ∑ j ∈ Finset.univ.erase i, (if Long (vals j) then 1 else 0) := by
    refine Finset.sum_congr rfl ?_
    intro j hj
    rw [Function.update_of_ne (Finset.ne_of_mem_erase hj)]
  rw [longCount, longCount, ← Finset.add_sum_erase _ _ (Finset.mem_univ i),
    ← Finset.add_sum_erase Finset.univ (fun j => if Long (vals j) then 1 else 0)
      (Finset.mem_univ i), hrest, Function.update_self]
  omega

omit [Fintype ι] in
/-- A slice that was given a short string is none of those with a long one. -/
theorem ne_of_long_update {vals : ι → Bytes} {i j : ι} {v : Bytes} (hv : ¬ Long v)
    (hj : Long (Function.update vals i v j)) : j ≠ i := by
  rintro rfl
  rw [Function.update_self] at hj
  exact hv hj

/-- The memory is as the ledger says: every slice holds its string, no two share a block, and every
block is owned or lost. -/
structure LedgerShows (m : SliceMem ι) (l : Ledger ι) : Prop where
  at_slice : ∀ i, SliceAt m.heap (m.slices i) (l.vals i)
  owners : ∀ i j p r r', Long (l.vals i) → Long (l.vals j) → (m.slices i).data = .ptr p r →
    (m.slices j).data = .ptr p r' → i = j
  live_eq : m.heap.live = longCount l.vals + l.lost

omit [DecidableEq ι] in
theorem ledgerShows_start : LedgerShows (SliceMem.start : SliceMem ι) Ledger.start where
  at_slice i := by
    refine SliceAt.of_nil _ ?_
    simp [sliceInternalSz]
  owners i j p r r' hi := absurd hi not_long_nil
  live_eq := by
    simp [longCount, Ledger.start, SliceMem.start, Heap.empty, Heap.live, not_long_nil]

variable {m : SliceMem ι} {l : Ledger ι}

/-- What is left of the memory when the string of one slice is forgotten: the block it owned, if
any, is lost. -/
theorem LedgerShows.forget (h : LedgerShows m l) (i : ι) :
    LedgerShows (m.set i { data := (m.slices i).data.clear, sz := 0 })
      { vals := Function.update l.vals i []
        lost := if Long (l.vals i) then l.lost + 1 else l.lost } where
  at_slice j := by
    by_cases hj : j = i
    · subst hj
      simp only [SliceMem.set, Function.update_self]
      exact SliceAt.of_nil _ (length_rest_clear (h.at_slice j).rest_length)
    · simp only [SliceMem.set, Function.update_of_ne hj]
      exact h.at_slice j
  owners j k p r r' hj hk hpj hpk := by
    have hji := ne_of_long_update not_long_nil hj
    have hki := ne_of_long_update not_long_nil hk
    simp only [SliceMem.set, Function.update_of_ne hji, Function.update_of_ne hki] at *
    exact h.owners j k p r r' hj hk hpj hpk
  live_eq := by
    have hcount := longCount_update l.vals i []
    have hlive := h.live_eq
    simp only [SliceMem.set, if_neg not_long_nil] at *
    split at hcount <;> rename_i hl
    · rw [if_pos hl]
      omega
    · rw [if_neg hl]
      omega

/-- A slice that holds nothing is given a string: a long one gets a new block. -/
theorem LedgerShows.fill (h : LedgerShows m l) {i : ι} (hnil : l.vals i = []) {s : Bytes}
    (hs : CString.NoNul s) {d : HData} (hd : d.rest.length = 8) :
    (¬ Long s → LedgerShows (m.set i (SliceMem.fillInline d s))
      { l with vals := Function.update l.vals i s }) ∧
    (Long s → LedgerShows
      ({ m with heap := (m.heap.alloc (s ++ [0])).1 }.set i
        { data := .ptr (m.heap.alloc (s ++ [0])).2 d.rest, sz := s.length })
      { l with vals := Function.update l.vals i s }) := by
  have hcount := longCount_update l.vals i s
  have hlive := h.live_eq
  rw [hnil, if_neg not_long_nil] at hcount
  constructor
  · intro hl
    rw [if_neg hl] at hcount
    refine ⟨?_, ?_, ?_⟩
    · intro j
      by_cases hj : j = i
      · subst hj
        simp only [SliceMem.set, Function.update_self]
        exact sliceAt_fillInline _ hd hs hl
      · simp only [SliceMem.set, Function.update_of_ne hj]
        exact h.at_slice j
    · intro j k p r r' hj hk hpj hpk
      have hji := ne_of_long_update hl hj
      have hki := ne_of_long_update hl hk
      simp only [SliceMem.set, Function.update_of_ne hji, Function.update_of_ne hki] at *
      exact h.owners j k p r r' hj hk hpj hpk
    · simp only [SliceMem.set]
      omega
  · intro hl
    rw [if_pos hl] at hcount
    have hold : ∀ j p rest, Long (l.vals j) → (m.slices j).data = .ptr p rest →
        p ≠ (m.heap.alloc (s ++ [0])).2 := by
      intro j p rest hj hdata
      obtain ⟨p', rest', hdata', hp⟩ := (h.at_slice j).long hj
      rw [hdata] at hdata'
      cases hdata'
      exact hp.ne_alloc _
    refine ⟨?_, ?_, ?_⟩
    · intro j
      by_cases hj : j = i
      · subst hj
        simp only [SliceMem.set, Function.update_self]
        refine ⟨hs, rfl, hd, fun _ hn => absurd hl hn, fun _ => ⟨_, _, rfl, ?_⟩⟩
        exact Heap.holds_alloc_self _ _
      · simp only [SliceMem.set, Function.update_of_ne hj]
        exact (h.at_slice j).mono fun p rest _ hp => hp.alloc _
    · intro j k p r r' hj hk hpj hpk
      by_cases hji : j = i <;> by_cases hki : k = i
      · rw [hji, hki]
      · subst hji
        simp only [SliceMem.set, Function.update_self, Function.update_of_ne hki] at hpj hpk hk
        cases hpj
        exact absurd rfl (hold k _ _ hk hpk)
      · subst hki
        simp only [SliceMem.set, Function.update_self, Function.update_of_ne hji] at hpj hpk hj
        cases hpk
        exact absurd rfl (hold j _ _ hj hpj)
      · simp only [SliceMem.set, Function.update_of_ne hji, Function.update_of_ne hki] at *
        exact h.owners j k p r r' hj hk hpj hpk
    · have halloc := Heap.live_alloc m.heap (s ++ [0])
      simp only [SliceMem.set]
      omega

/-! ### Calls -/

/-- The slice with its pointer cleared. -/
def HSlice.cleared (se : HSlice) : HSlice := { data := se.data.clear, sz := 0 }

omit [Fintype ι] in
/-- `slice_init` of a string that is there. -/
theorem SliceMem.init_of_deref (m : SliceMem ι) (i : ι) {p : SlicePtr ι} (hne : p ≠ .null)
    {s t : Bytes} (hs : CString.NoNul s)
    (hp : (m.set i (m.slices i).cleared).deref p = .ok (s ++ 0 :: t)) :
    m.init i p = if s.length < sliceInternalSz then
        .ok (0, (m.set i (m.slices i).cleared).set i (fillInline (m.slices i).data s))
      else
        .ok (0, { m.set i (m.slices i).cleared with heap := (m.heap.alloc (s ++ [0])).1 }.set i
          { data := .ptr (m.heap.alloc (s ++ [0])).2 (m.slices i).data.rest, sz := s.length }) := by
  have htake : (s ++ 0 :: t).take s.length = s := List.take_left
  cases p with
  | null => exact absurd rfl hne
  | text mem | inside j | block a =>
      simp only [init]
      simp only [HSlice.cleared] at hp
      simp only [hp, Outcome.ok_bind, CString.strlen_append hs, htake]
      rfl

/-- **`slice_init`** stores the string its argument leads to once the slice was cleared; the block
that the slice owned is lost. -/
theorem LedgerShows.init (h : LedgerShows m l) (i : ι) {p : SlicePtr ι} {s : Bytes}
    (hp : LeadsTo (m.set i (m.slices i).cleared) p s) :
    ∃ r m', m.init i p = .ok (r, m') ∧ LedgerShows m'
      { vals := Function.update l.vals i s,
        lost := if Long (l.vals i) then l.lost + 1 else l.lost } := by
  have hforget := h.forget i
  obtain ⟨hs, ⟨rfl, rfl⟩ | ⟨hne, t, hderef⟩⟩ := hp
  · exact ⟨-1, _, rfl, hforget⟩
  · have hrest := (h.at_slice i).rest_length
    obtain ⟨hshort, hlong⟩ := hforget.fill (i := i) (Function.update_self ..) hs hrest
    simp only [Function.update_idem] at hshort hlong
    rw [m.init_of_deref i hne hs hderef]
    by_cases hl : Long s
    · rw [if_neg (Nat.not_lt.2 hl)]
      exact ⟨0, _, rfl, hlong hl⟩
    · rw [if_pos (Nat.not_le.1 hl)]
      exact ⟨0, _, rfl, hshort hl⟩

/-- **`slice_deinit`** frees the block of a long string, and leaves a short one where it is. -/
theorem LedgerShows.deinit (h : LedgerShows m l) (i : ι) :
    ∃ m', m.deinit i = .ok m' ∧
      LedgerShows m'
        (if Long (l.vals i) then { l with vals := Function.update l.vals i [] } else l) ∧
      (∀ j, j ≠ i → m'.slices j = m.slices j) ∧
      (¬ Long (l.vals i) → m' = m) ∧
      (Long (l.vals i) → ∃ a rest, (m.slices i).data = .ptr a rest ∧ m'.heap.Freed a) := by
  have hsz := (h.at_slice i).size_eq
  by_cases hl : Long (l.vals i)
  · have hge : sliceInternalSz ≤ (l.vals i).length := hl
    have hpos : 0 < (l.vals i).length := Nat.lt_of_lt_of_le (by decide) hge
    obtain ⟨a, rest, hdata, ha⟩ := (h.at_slice i).long hl
    obtain ⟨h', hf⟩ : ∃ h', m.heap.free a = .ok h' := ⟨_, ha.free⟩
    have hdeinit : m.deinit i =
        .ok ({ m with heap := h' }.set i { (m.slices i) with sz := 0 }) := by
      simp only [SliceMem.deinit, hsz, if_pos hpos, if_pos hge, hdata, hf, Outcome.ok_bind]
    have hcount := longCount_update l.vals i []
    rw [if_pos hl, if_neg not_long_nil] at hcount
    have hlive := h.live_eq
    have hfree := Heap.live_free hf
    rw [if_pos hl]
    refine ⟨_, hdeinit, ⟨?_, ?_, ?_⟩, ?_, fun hn => absurd hl hn,
      fun _ => ⟨a, rest, hdata, Heap.freed_free_self hf⟩⟩
    · intro j
      by_cases hj : j = i
      · subst hj
        simp only [SliceMem.set, Function.update_self]
        exact SliceAt.of_nil _ (h.at_slice j).rest_length
      · simp only [SliceMem.set, Function.update_of_ne hj]
        refine (h.at_slice j).mono ?_
        intro p r hdataj hp
        refine (Heap.holds_free_iff hf).2 ⟨?_, hp⟩
        rintro rfl
        -- two slices would share the block
        have hlj : Long (l.vals j) := by
          by_contra hshort
          by_cases hnil : l.vals j = []
          · rw [hnil] at hp
            have hsame := hp.unique ha
            have hlen := congrArg List.length hsame
            rw [List.length_append, List.length_append] at hlen
            simp only [List.length_nil, List.length_singleton] at hlen
            omega
          · obtain ⟨t, hbuf⟩ := (h.at_slice j).short hnil hshort
            rw [hdataj] at hbuf
            cases hbuf
        exact hj (h.owners j i p r rest hlj hl hdataj hdata)
    · intro j k p r r' hj hk hpj hpk
      have hji := ne_of_long_update not_long_nil hj
      have hki := ne_of_long_update not_long_nil hk
      simp only [SliceMem.set, Function.update_of_ne hji, Function.update_of_ne hki] at *
      exact h.owners j k p r r' hj hk hpj hpk
    · simp only [SliceMem.set]
      omega
    · intro j hj
      simp only [SliceMem.set, Function.update_of_ne hj]
  · have hlt : (l.vals i).length < sliceInternalSz := Nat.not_le.1 hl
    have hdeinit : m.deinit i = .ok m := by
      simp only [SliceMem.deinit, hsz]
      split
      · rw [if_neg (by omega)]
      · rfl
    rw [if_neg hl]
    exact ⟨m, hdeinit, h, fun _ _ => rfl, fun _ => rfl, fun hn => absurd hn hl⟩

omit [Fintype ι] in
/-- What a pointer to the value of another slice leads to does not depend on the slice that is
cleared. -/
theorem LeadsTo.clear {i j : ι} (hj : j ≠ i) {p : SlicePtr ι} {v : Bytes} (se : HSlice)
    (hp : LeadsTo m p v) (hcase : p = .null ∨ p = .inside j ∨ ∃ a, p = .block a) :
    LeadsTo (m.set i se) p v := by
  obtain ⟨hv, hnull | ⟨hne, t, ht⟩⟩ := hp
  · exact ⟨hv, Or.inl hnull⟩
  · refine ⟨hv, Or.inr ⟨hne, t, ?_⟩⟩
    rw [← ht]
    rcases hcase with rfl | rfl | ⟨a, rfl⟩
    · rfl
    · simp only [SliceMem.deref, SliceMem.set, Function.update_of_ne hj]
    · rfl

/-- **What the argument of a call leads to** when the slice was cleared: a string that the slice
held in its own buffer is gone. -/
theorem LedgerShows.source (h : LedgerShows m l) (i : ι) (src : SliceSource ι) :
    ∃ p, m.source src = .ok p ∧ LeadsTo (m.set i (m.slices i).cleared) p (l.stored i src) := by
  cases src with
  | null => exact ⟨.null, rfl, CString.noNul_nil, Or.inl ⟨rfl, rfl⟩⟩
  | text src =>
      refine ⟨_, rfl, src.noNul, Or.inr ⟨?_, src.rest, rfl⟩⟩
      rintro ⟨⟩
  | value j =>
      obtain ⟨p, hp, hleads, hnull, hinside, hblock⟩ := (h.at_slice j).value
      refine ⟨p, hp, ?_⟩
      by_cases hji : j = i
      · subst hji
        by_cases hl : Long (l.vals j)
        · obtain ⟨a, rest, rfl, -⟩ := hblock hl
          have hstored : l.stored j (.value j) = l.vals j := if_neg fun hno => hno.2 hl
          rw [hstored]
          obtain ⟨hv, hno | ⟨hne, t, ht⟩⟩ := hleads
          · cases hno.1
          · exact ⟨hv, Or.inr ⟨hne, t, ht⟩⟩
        · have hstored : l.stored j (.value j) = [] := if_pos ⟨rfl, hl⟩
          rw [hstored]
          by_cases hnil : l.vals j = []
          · exact ⟨CString.noNul_nil, Or.inl ⟨hnull.2 hnil, rfl⟩⟩
          · have hpj := hinside.2 ⟨hnil, hl⟩
            subst hpj
            refine ⟨CString.noNul_nil, Or.inr ⟨?_, ?_⟩⟩
            · rintro ⟨⟩
            refine ⟨List.replicate 7 0 ++ (m.slices j).data.rest, ?_⟩
            simp only [SliceMem.deref, SliceMem.set, Function.update_self, HSlice.cleared,
              HData.clear]
            rfl
      · have hstored : l.stored i (.value j) = l.vals j := if_neg fun hno => hji hno.1
        rw [hstored]
        refine hleads.clear hji _ ?_
        by_cases hnil : l.vals j = []
        · exact Or.inl (hnull.2 hnil)
        · by_cases hl : Long (l.vals j)
          · obtain ⟨a, rest, ha, -⟩ := hblock hl
            exact Or.inr (Or.inr ⟨a, ha⟩)
          · exact Or.inr (Or.inl (hinside.2 ⟨hnil, hl⟩))

omit [DecidableEq ι] [Fintype ι] in
/-- The argument of a call depends on the slice whose value it is. -/
theorem SliceMem.source_congr {m' : SliceMem ι} {i : ι} {src : SliceSource ι}
    (hsrc : ¬ IsSelf i src) (hslices : ∀ j, j ≠ i → m'.slices j = m.slices j) :
    m'.source src = m.source src := by
  cases src with
  | null => rfl
  | text src => rfl
  | value j =>
      have hj : m'.slices j = m.slices j := hslices j hsrc
      simp only [SliceMem.source, SliceMem.value, hj]

/-- **`slice_repace_value`** of a slice with a block: the block is freed, and is read again where
the new string is the old one. -/
theorem LedgerShows.repaceValue_long (h : LedgerShows m l) {i : ι} (hl : Long (l.vals i))
    (src : SliceSource ι) :
    (¬ IsSelf i src → ∃ m', sliceMemStep m (.repaceValue i src) = .ok m' ∧
      LedgerShows m' { l with vals := Function.update l.vals i (l.source src) }) ∧
    (IsSelf i src → sliceMemStep m (.repaceValue i src) = .error .wild) := by
  obtain ⟨m₁, hdeinit, h₁, hsame, -, hfreed⟩ := h.deinit i
  rw [if_pos hl] at h₁
  constructor
  · intro hself
    obtain ⟨p, hp, hleads⟩ := h₁.source i src
    rw [SliceMem.source_congr hself hsame] at hp
    obtain ⟨r, m', hinit, h'⟩ := h₁.init i hleads
    have hstored : Ledger.stored { l with vals := Function.update l.vals i [] } i src =
        l.source src := by
      rw [Ledger.stored, if_neg fun hno => hself hno.1]
      cases src with
      | null => rfl
      | text src => rfl
      | value j => exact Function.update_of_ne hself _ _
    simp only [hstored, Function.update_idem, Function.update_self, if_neg not_long_nil] at h'
    refine ⟨m', ?_, h'⟩
    simp only [sliceMemStep, hp, SliceMem.repaceValue, hdeinit, hinit, Outcome.ok_bind]
  · intro hself
    cases src with
    | null => exact hself.elim
    | text src => exact hself.elim
    | value j =>
        have hji : j = i := hself
        subst hji
        obtain ⟨p, hp, -, -, -, hblock⟩ := (h.at_slice j).value
        obtain ⟨a, rest, rfl, hdata⟩ := hblock hl
        obtain ⟨a', rest', hdata', ha'⟩ := hfreed hl
        rw [hdata] at hdata'
        cases hdata'
        have hsource : m.source (.value j) = .ok (.block a) := hp
        have hload : (m₁.set j { data := (m₁.slices j).data.clear, sz := 0 }).deref (.block a) =
            .error .wild := ha'.load
        simp only [sliceMemStep, hsource, SliceMem.repaceValue, hdeinit, Outcome.ok_bind,
          SliceMem.init, hload, Outcome.error_bind]

/-- **One call does what the ledger says.** -/
theorem sliceMem_step :
    Outcome.Metered (fun (m : SliceMem ι) l => LedgerShows m l) sliceMemStep ledgerStep := by
  intro m l call h
  cases call with
  | init i src =>
      obtain ⟨p, hp, hleads⟩ := h.source i src
      obtain ⟨r, m', hinit, h'⟩ := h.init i hleads
      refine ⟨?_, ?_⟩
      · rintro l' ⟨⟩
        refine ⟨m', ?_, h'⟩
        simp only [sliceMemStep, hp, hinit, Outcome.ok_bind]
      · rintro ⟨⟩
  | copy dest src =>
      obtain ⟨p, hp, hleads⟩ := h.source dest (.value src)
      obtain ⟨r, m', hinit, h'⟩ := h.init dest hleads
      have hvalue : m.value src = .ok p := hp
      refine ⟨?_, ?_⟩
      · rintro l' ⟨⟩
        refine ⟨m', ?_, h'⟩
        simp only [sliceMemStep, SliceMem.copy, hvalue, hinit, Outcome.ok_bind]
      · rintro ⟨⟩
  | deinit i =>
      obtain ⟨m', hdeinit, h', -⟩ := h.deinit i
      simp only [ledgerStep, sliceMemStep]
      by_cases hl : Long (l.vals i)
      · rw [if_pos hl] at h' ⊢
        refine ⟨?_, ?_⟩
        · rintro l' ⟨⟩
          exact ⟨m', hdeinit, h'⟩
        · rintro ⟨⟩
      · rw [if_neg hl] at h' ⊢
        refine ⟨?_, ?_⟩
        · rintro l' ⟨⟩
          exact ⟨m', hdeinit, h'⟩
        · rintro ⟨⟩
  | repaceValue i src =>
      by_cases hl : Long (l.vals i)
      · obtain ⟨hother, hself⟩ := h.repaceValue_long hl src
        simp only [ledgerStep, if_pos hl]
        by_cases hs : IsSelf i src
        · rw [if_pos hs]
          refine ⟨?_, fun _ => ⟨.wild, hself hs, trivial⟩⟩
          rintro l' ⟨⟩
        · rw [if_neg hs]
          refine ⟨?_, ?_⟩
          · rintro l' ⟨⟩
            exact hother hs
          · rintro ⟨⟩
      · obtain ⟨m₁, hdeinit, -, -, hsame, -⟩ := h.deinit i
        obtain rfl := hsame hl
        obtain ⟨p, hp, hleads⟩ := h.source i src
        obtain ⟨r, m', hinit, h'⟩ := h.init i hleads
        simp only [ledgerStep, if_neg hl]
        refine ⟨?_, ?_⟩
        · rintro l' ⟨⟩
          refine ⟨m', ?_, h'⟩
          simp only [sliceMemStep, hp, SliceMem.repaceValue, hdeinit, hinit, Outcome.ok_bind]
        · rintro ⟨⟩

/-! ### Runs -/

/-- **Which runs are defined.**  For every sequence of calls on any slices, with the values of any
as arguments: nothing undefined happens exactly when the ledger goes on to the end, that is, when no
slice whose string has a block of its own is given that string by `slice_repace_value`. -/
theorem sliceMem_defined_iff (calls : List (HCall ι)) :
    Outcome.Holds (fun _ => True) (calls.foldlM sliceMemStep SliceMem.start) ↔
      ∃ l, calls.foldlM ledgerStep Ledger.start = some l :=
  sliceMem_step.holds_iff ledgerShows_start

/-- **Every block is owned by one slice, or lost.**  In every state that a run of calls goes
through: each slice reads back as the string of the ledger, as a null pointer where that is empty,
and the blocks in memory are those of the strings of sixteen bytes or more, with one for each call
that wrote over the address of another. -/
theorem sliceMem_accounts {calls : List (HCall ι)} {m : SliceMem ι}
    (hrun : calls.foldlM sliceMemStep SliceMem.start = .ok m) :
    ∃ l, calls.foldlM ledgerStep Ledger.start = some l ∧
      (∀ i, ∃ p, m.value i = .ok p ∧ LeadsTo m p (l.vals i)) ∧
      m.heap.live = (Finset.univ.filter fun i => sliceInternalSz ≤ (l.vals i).length).card +
        l.lost := by
  obtain ⟨l, hl, h⟩ := sliceMem_step.of_ok ledgerShows_start hrun
  refine ⟨l, hl, ?_, ?_⟩
  · intro i
    obtain ⟨p, hp, hleads, -⟩ := (h.at_slice i).value
    exact ⟨p, hp, hleads⟩
  · rw [h.live_eq, longCount, Finset.card_eq_sum_ones, Finset.sum_filter]
    rfl

end

/-- A string of sixteen bytes. -/
def sixteen : SourceString where
  s := List.replicate 16 97
  rest := []
  noNul := by decide

/-- Two slices: a long string is stored in the first, copied to the second, and written over in the
first by its own value. -/
def selfCopies : List (HCall Bool) :=
  [.init true (.text sixteen), .copy false true, .copy true true, .deinit false]

/-- The result applied to two slices, one of which is copied onto itself: its block is lost. -/
theorem sliceMem_accounts_selfCopies :
    ∃ m, selfCopies.foldlM sliceMemStep SliceMem.start = .ok m ∧
      ∃ l, selfCopies.foldlM ledgerStep Ledger.start = some l ∧ l.lost = 1 ∧
        (∀ i, ∃ p, m.value i = .ok p ∧ LeadsTo m p (l.vals i)) ∧
        m.heap.live = (Finset.univ.filter fun i => sliceInternalSz ≤ (l.vals i).length).card +
          l.lost := by
  have hledger : ∃ l, selfCopies.foldlM ledgerStep Ledger.start = some l ∧ l.lost = 1 :=
    ⟨_, rfl, rfl⟩
  obtain ⟨l, hl, hlost⟩ := hledger
  obtain ⟨m, hm, -⟩ := (sliceMem_step.run ledgerShows_start).1 l hl
  obtain ⟨l', hl', hvals, hlive⟩ := sliceMem_accounts hm
  rw [hl] at hl'
  cases hl'
  exact ⟨m, hm, l, hl, hlost, hvals, hlive⟩

/-- A long slice that is given its own value has no account. -/
example : [HCall.init true (.text sixteen), .repaceValue true (.value true)].foldlM ledgerStep
    Ledger.start = none :=
  rfl
