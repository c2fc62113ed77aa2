/-
**Runs of calls on slices.**

Which of its two forms a slice is in is not recorded: the length tells, and every function works it
out again.  They agree on every string but the empty one, which is stored inline, read back as a
null pointer, and refused when it is copied.  `slice_strncpy` does not agree with the others: it
chooses the form by the length of its argument and records the length of what it copies.

Main definitions:

* `SourceString`, `SliceCall`, `sliceStep` — the calls of a run and what they do to its slices;
* `ReadsBack`, `CallReadsBack` — a slice holds a string, in the form its length asks for;
* `StoresPrefix` — what `slice_strncpy` is to leave.

Main results:

* `sliceStep_inv` — every slice of a run represents the last string stored in it;
* `slices_readBack_iff` — **a call reads back exactly when its source is not empty**;
* `sliceStrncpy_storesPrefix_iff` — **a prefix is stored exactly when the string is short, not
  empty, and at most its terminator is asked for as well**.
-/

import SdsStorage.Slice

set_option relaxedAutoImplicit false
set_option autoImplicit false

/-! ### The calls of a run -/

/-- A string in memory: its bytes, and what follows its terminator. -/
structure SourceString where
  s : Bytes
  rest : Bytes
  noNul : CString.NoNul s

/-- The pointer to a string. -/
def SourceString.ptr (src : SourceString) : CharPtr := .mem (src.s ++ 0 :: src.rest)

/-- A slice of a run: nothing was stored in it yet, or the string last stored in it, or it was
released. -/
inductive SliceSlot where
  | fresh
  | holds (se : Slice) (v : Bytes)
  | released (se : Slice)

/-- A call on the slices of a run. -/
inductive SliceCall where
  | init (i : ℕ) (src : SourceString)
  | repaceValue (i : ℕ) (src : SourceString)
  | copy (dest src : ℕ)
  | deinit (i : ℕ)

/-- The slice in a slot that is not fresh. -/
def SliceSlot.slice? : SliceSlot → Option Slice
  | .fresh => none
  | .holds se _ => some se
  | .released se => some se

/-- What a call does to the slices of a run.  A call that is not allowed is not made: a slice is
initialised and copied onto when it is fresh, copied from when it holds a string, and replaced and
released when it is not fresh. -/
def sliceStep (st : ℕ → SliceSlot) : SliceCall → Outcome (ℕ → SliceSlot)
  | .init i src =>
      match st i with
      | .fresh => do
          let r ← sliceInit src.ptr
          .ok (Function.update st i (.holds r.2 src.s))
      | _ => .error .abort
  | .repaceValue i src =>
      match (st i).slice? with
      | some se => do
          let r ← sliceRepaceValue se src.ptr
          .ok (Function.update st i (.holds r.2 src.s))
      | none => .error .abort
  | .copy dest src =>
      match st dest, st src with
      | .fresh, .holds se v => do
          let r ← sliceCopy se
          .ok (Function.update st dest (.holds r.2 v))
      | _, _ => .error .abort
  | .deinit i =>
      match (st i).slice? with
      | some se => do
          let r ← sliceDeinit se
          .ok (Function.update st i (.released r.1))
      | none => .error .abort

/-- The slice reads back as the string `v`, from the form that its length asks for. -/
structure ReadsBack (se : Slice) (v : Bytes) : Prop where
  size_eq : sliceSize se = v.length
  value_eq : ∃ t, sliceValue se = .mem (v ++ 0 :: t)
  form : if v.length < sliceInternalSz then ∃ bytes, se.data = .buf bytes
    else ∃ bytes, se.data = .ptr (.mem bytes)

/-- The outcome of a call that is to store `v`: it returns 0, and the slice reads back. -/
def StoresString (r : Outcome (ℤ × Slice)) (v : Bytes) : Prop :=
  ∃ se, r = .ok (0, se) ∧ ReadsBack se v

/-- A call that is allowed stores its source, or releases the slice. -/
def CallReadsBack (st : ℕ → SliceSlot) : SliceCall → Prop
  | .init i src => st i = .fresh → StoresString (sliceInit src.ptr) src.s
  | .repaceValue i src =>
      ∀ se, (st i).slice? = some se → StoresString (sliceRepaceValue se src.ptr) src.s
  | .copy dest src =>
      st dest = .fresh → ∀ se v, st src = .holds se v → StoresString (sliceCopy se) v
  | .deinit i => ∀ se, (st i).slice? = some se → ∃ r, sliceDeinit se = .ok r

/-- The source of a call that is allowed is not empty. -/
def SourceNonempty (st : ℕ → SliceSlot) : SliceCall → Prop
  | .init i src => st i = .fresh → src.s ≠ []
  | .repaceValue i src => st i ≠ .fresh → src.s ≠ []
  | .copy dest src => st dest = .fresh → ∀ se v, st src = .holds se v → v ≠ []
  | .deinit _ => True

/-! ### One call -/

/-- What represents a string that is not empty reads back as it. -/
theorem Slice.Represents.readsBack {se : Slice} {v : Bytes} (h : se.Represents v) (hne : v ≠ []) :
    ReadsBack se v := by
  have hval := h.value_eq
  have hsize : se.sz = v.length := h.size_eq
  have hpos : 0 < v.length := List.length_pos_of_ne_nil hne
  rw [if_neg hne] at hval
  refine ⟨h.size_eq, ⟨[], hval⟩, ?_⟩
  rw [sliceValue] at hval
  split
  · rename_i hshort
    rw [if_pos ⟨by omega, by omega⟩] at hval
    cases hdata : se.data with
    | buf bytes => exact ⟨bytes, rfl⟩
    | ptr block =>
        rw [hdata] at hval
        cases hval
  · rename_i hlong
    rw [if_neg (by omega), if_pos ⟨by omega, by omega⟩] at hval
    cases hdata : se.data with
    | buf bytes =>
        rw [hdata] at hval
        cases hval
    | ptr block =>
        rw [hdata] at hval
        have hblock : block = .mem (CString.cstr v) := hval
        exact ⟨CString.cstr v, by rw [hblock]⟩

/-- What represents the empty string does not read back as it. -/
theorem Slice.Represents.not_readsBack_nil {se : Slice} (h : se.Represents []) :
    ¬ ReadsBack se [] := by
  intro hread
  obtain ⟨t, ht⟩ := hread.value_eq
  rw [h.value_eq, if_pos rfl] at ht
  cases ht

/-- Storing a string succeeds exactly when it is not empty, if the slice represents it after. -/
theorem storesString_iff {r : Outcome (ℤ × Slice)} {se : Slice} {v : Bytes}
    (hr : r = .ok (0, se)) (hse : se.Represents v) : StoresString r v ↔ v ≠ [] := by
  constructor
  · rintro ⟨se', hr', hread⟩ rfl
    rw [hr] at hr'
    cases hr'
    exact hse.not_readsBack_nil hread
  · intro hne
    exact ⟨se, hr, hse.readsBack hne⟩

theorem sliceInit_storesString_iff (src : SourceString) :
    StoresString (sliceInit src.ptr) src.s ↔ src.s ≠ [] := by
  obtain ⟨se, hinit, hrep⟩ := sliceInit_cstr src.noNul src.rest
  exact storesString_iff hinit hrep

/-- A slice represents the empty string once a null pointer was stored in it. -/
theorem slice_zero_represents : Slice.zero.Represents [] where
  noNul := CString.noNul_nil
  size_eq := rfl
  value_eq := rfl

/-- What a copy leaves represents the same string; it fails for the empty one. -/
theorem sliceCopy_represents {se : Slice} {v : Bytes} (h : se.Represents v) :
    ∃ r se', sliceCopy se = .ok (r, se') ∧ se'.Represents v ∧ (r = 0 ↔ v ≠ []) := by
  rw [sliceCopy, h.value_eq]
  by_cases hne : v = []
  · subst hne
    exact ⟨-1, Slice.zero, rfl, slice_zero_represents, by decide⟩
  · rw [if_neg hne]
    obtain ⟨se', hinit, hrep⟩ := sliceInit_cstr h.noNul []
    exact ⟨0, se', hinit, hrep, by simp [hne]⟩

theorem sliceCopy_storesString_iff {se : Slice} {v : Bytes} (h : se.Represents v) :
    StoresString (sliceCopy se) v ↔ v ≠ [] := by
  obtain ⟨r, se', hcopy, hrep, hr⟩ := sliceCopy_represents h
  constructor
  · rintro ⟨se'', hcopy', -⟩
    rw [hcopy] at hcopy'
    cases hcopy'
    exact hr.1 rfl
  · intro hne
    have hzero := hr.2 hne
    subst hzero
    exact (storesString_iff hcopy hrep).2 hne

/-- Releasing a slice that represents a string leaves one that owns no block. -/
theorem sliceDeinit_represents {se : Slice} {v : Bytes} (h : se.Represents v) :
    ∃ r, sliceDeinit se = .ok r ∧ r.1.sz < sliceInternalSz := by
  have hsize : se.sz = v.length := h.size_eq
  rcases Nat.lt_or_ge se.sz sliceInternalSz with hshort | hlong
  · refine ⟨(se, none), ?_, hshort⟩
    rw [sliceDeinit]
    split
    · rw [if_neg (by omega)]
    · rfl
  · have hpos : 0 < se.sz := by
      rw [sliceInternalSz] at hlong
      omega
    have hne : v ≠ [] := List.ne_nil_of_length_pos (by omega)
    obtain ⟨bytes, hdata⟩ := by
      have hform := (h.readsBack hne).form
      rwa [if_neg (by omega)] at hform
    refine ⟨({ data := .ptr .wild, sz := 0 }, some (.mem bytes)), ?_, Nat.succ_pos 15⟩
    rw [sliceDeinit, if_pos hpos, if_pos hlong, hdata]

theorem sliceDeinit_of_lt {se : Slice} (h : se.sz < sliceInternalSz) :
    sliceDeinit se = .ok (se, none) := by
  rw [sliceDeinit]
  split
  · rw [if_neg (by omega)]
  · rfl

/-! ### Runs -/

/-- What a slot satisfies throughout a run. -/
def SliceSlot.Inv : SliceSlot → Prop
  | .fresh => True
  | .holds se v => se.Represents v
  | .released se => se.sz < sliceInternalSz

theorem SliceSlot.Inv.deinit {slot : SliceSlot} (h : slot.Inv) {se : Slice}
    (hse : slot.slice? = some se) : ∃ r, sliceDeinit se = .ok r ∧ r.1.sz < sliceInternalSz := by
  cases slot with
  | fresh => cases hse
  | holds se' v =>
      cases hse
      exact sliceDeinit_represents h
  | released se' =>
      cases hse
      exact ⟨(se, none), sliceDeinit_of_lt h, h⟩

/-- Replacing the string of a slice is initialising it. -/
theorem SliceSlot.Inv.repaceValue {slot : SliceSlot} (h : slot.Inv) {se : Slice}
    (hse : slot.slice? = some se) (value : CharPtr) :
    sliceRepaceValue se value = sliceInit value := by
  obtain ⟨r, hr, -⟩ := h.deinit hse
  simp only [sliceRepaceValue, hr, Outcome.ok_bind]

/-- A slot that is stored to keeps the invariant where what is stored does. -/
theorem inv_update {st : ℕ → SliceSlot} (h : ∀ i, (st i).Inv) {slot : SliceSlot}
    (hslot : slot.Inv) (i j : ℕ) : (Function.update st i slot j).Inv := by
  by_cases hij : j = i
  · rw [hij, Function.update_self]
    exact hslot
  · rw [Function.update_of_ne hij]
    exact h j

/-- **The step lemma**: every slice represents the last string stored in it. -/
theorem sliceStep_inv {st st' : ℕ → SliceSlot} {call : SliceCall} (h : ∀ i, (st i).Inv)
    (hstep : sliceStep st call = .ok st') : ∀ i, (st' i).Inv := by
  cases call with
  | init i src =>
      simp only [sliceStep] at hstep
      split at hstep
      · obtain ⟨se, hinit, hrep⟩ := sliceInit_cstr src.noNul src.rest
        rw [SourceString.ptr, hinit] at hstep
        cases hstep
        have hslot : (SliceSlot.holds se src.s).Inv := hrep
        exact inv_update h hslot i
      · cases hstep
  | repaceValue i src =>
      simp only [sliceStep] at hstep
      split at hstep
      · rename_i se hse
        obtain ⟨se', hinit, hrep⟩ := sliceInit_cstr src.noNul src.rest
        rw [(h i).repaceValue hse, SourceString.ptr, hinit] at hstep
        cases hstep
        have hslot : (SliceSlot.holds se' src.s).Inv := hrep
        exact inv_update h hslot i
      · cases hstep
  | copy dest src =>
      simp only [sliceStep] at hstep
      split at hstep
      · rename_i se v _ hsrc
        have hsrcInv := h src
        rw [hsrc] at hsrcInv
        obtain ⟨r, se', hcopy, hrep, -⟩ := sliceCopy_represents hsrcInv
        rw [hcopy] at hstep
        cases hstep
        have hslot : (SliceSlot.holds se' v).Inv := hrep
        exact inv_update h hslot dest
      · cases hstep
  | deinit i =>
      simp only [sliceStep] at hstep
      split at hstep
      · rename_i se hse
        obtain ⟨r, hr, hsz⟩ := (h i).deinit hse
        rw [hr] at hstep
        cases hstep
        have hslot : (SliceSlot.released r.1).Inv := hsz
        exact inv_update h hslot i
      · cases hstep

/-- In every state of a run, a call reads back exactly when its source is not empty. -/
theorem callReadsBack_iff {st : ℕ → SliceSlot} (h : ∀ i, (st i).Inv) (call : SliceCall) :
    CallReadsBack st call ↔ SourceNonempty st call := by
  cases call with
  | init i src =>
      simp only [CallReadsBack, SourceNonempty, sliceInit_storesString_iff]
  | repaceValue i src =>
      simp only [CallReadsBack, SourceNonempty]
      constructor
      · intro hall hne
        obtain ⟨se, hse⟩ : ∃ se, (st i).slice? = some se := by
          cases hst : st i with
          | fresh => exact absurd hst hne
          | holds se v => exact ⟨se, rfl⟩
          | released se => exact ⟨se, rfl⟩
        have hstores := hall se hse
        rw [(h i).repaceValue hse] at hstores
        exact (sliceInit_storesString_iff src).1 hstores
      · intro hne se hse
        rw [(h i).repaceValue hse]
        refine (sliceInit_storesString_iff src).2 (hne ?_)
        intro hfresh
        rw [hfresh] at hse
        cases hse
  | copy dest src =>
      simp only [CallReadsBack, SourceNonempty]
      have hcopy : ∀ se v, st src = .holds se v → (StoresString (sliceCopy se) v ↔ v ≠ []) := by
        intro se v hsrc
        have hsrcInv := h src
        rw [hsrc] at hsrcInv
        exact sliceCopy_storesString_iff hsrcInv
      constructor
      · intro hall hfresh se v hsrc
        exact (hcopy se v hsrc).1 (hall hfresh se v hsrc)
      · intro hall hfresh se v hsrc
        exact (hcopy se v hsrc).2 (hall hfresh se v hsrc)
  | deinit i =>
      simp only [CallReadsBack, SourceNonempty, iff_true]
      intro se hse
      obtain ⟨r, hr, -⟩ := (h i).deinit hse
      exact ⟨r, hr⟩

/-- **A call reads back exactly when its source is not empty**: this holds of each call of every
run on fresh slices. -/
theorem slices_readBack_iff (calls : List SliceCall) :
    Outcome.EachCall (fun st call => CallReadsBack st call ↔ SourceNonempty st call) sliceStep calls
      fun _ => .fresh := by
  intro l₁ call l₂ _ st hrun
  refine callReadsBack_iff ?_ call
  refine Outcome.foldlM_ok_inv (I := fun st => ∀ i, SliceSlot.Inv (st i)) hrun ?_ ?_
  · intro i
    trivial
  · intro s t c _ hstep hs
    exact sliceStep_inv hs hstep

/-- The empty string does not read back. -/
theorem sliceInit_empty_not_readsBack :
    ¬ CallReadsBack (fun _ => .fresh) (.init 0 { s := [], rest := [], noNul := by decide }) := by
  intro h
  obtain ⟨se, hinit, hread⟩ := h rfl
  obtain ⟨t, ht⟩ := hread.value_eq
  cases hinit
  cases ht

/-! ### `slice_strncpy` -/

/-- The status is 0, the slice reads back as the first `n` characters of `s` at most, and releasing
it frees the block that was allocated, if any; reading past the terminator of `s`, or writing
outside the buffer, is a fault. -/
def StoresPrefix (s : Bytes) (n : ℕ) (res : Outcome (ℤ × Slice × Option CharPtr)) : Prop :=
  ∃ se block, res = .ok (0, se, block) ∧ sliceSize se = min n s.length ∧
    (∃ t, sliceValue se = .mem (s.take (min n s.length) ++ 0 :: t)) ∧
    ∃ se', sliceDeinit se = .ok (se', block)

/-- A prefix of a string, and a zero behind it, in a buffer that held other bytes. -/
theorem set_take_append {s : Bytes} {n : ℕ} (hn : n ≤ s.length + 1) {junk : Bytes}
    (hjunk : s.length + 1 ≤ junk.length) :
    ∃ t, (((s ++ [0]).take n ++ junk.drop n).set (min n s.length) 0) =
      s.take (min n s.length) ++ 0 :: t := by
  rcases Nat.lt_or_ge s.length n with hlong | hshort
  · -- the terminator is copied as well
    have hlen : n = s.length + 1 := by omega
    subst hlen
    refine ⟨junk.drop (s.length + 1), ?_⟩
    have htake : (s ++ [0]).take (s.length + 1) = s ++ [0] :=
      List.take_of_length_le (by rw [List.length_append, List.length_singleton])
    rw [htake, Nat.min_eq_right (by omega), List.take_length, List.append_assoc,
      List.set_append_right _ _ (Nat.le_refl _), Nat.sub_self]
    rfl
  · have hdrop : junk.drop n = junk.get ⟨n, by omega⟩ :: junk.drop (n + 1) :=
      List.drop_eq_getElem_cons (by omega)
    refine ⟨junk.drop (n + 1), ?_⟩
    have hlen : (s.take n).length = n := by
      rw [List.length_take]
      omega
    rw [Nat.min_eq_left hshort, List.take_append_of_le_length hshort, hdrop,
      List.set_append_right _ _ (by omega), hlen, Nat.sub_self]
    rfl

/-- **A prefix is stored exactly when the string is short, not empty, and at most its terminator is
asked for as well.** -/
theorem sliceStrncpy_storesPrefix_iff (st : SliceStorage) (register : ℤ) {s : Bytes}
    (hs : CString.NoNul s) {n : ℕ} (hn : 1 ≤ n) :
    StoresPrefix s n (sliceStrncpy st register (.mem (CString.cstr s)) n) ↔
      1 ≤ s.length ∧ s.length < sliceInternalSz ∧ n ≤ s.length + 1 := by
  have hlen := CString.strlen_cstr hs
  have hsz : (if n > s.length then s.length else n) = min n s.length := by
    split <;> omega
  have hmem : (CString.cstr s).length = s.length + 1 := by simp [CString.cstr]
  simp only [sliceStrncpy, CharPtr.deref, Outcome.ok_bind, if_neg (by omega : ¬ n = 0), hlen, hsz,
    hmem]
  constructor
  · rintro ⟨se, block, hres, hsize, ⟨t, hvalue⟩, se', hdeinit⟩
    split at hres
    · rename_i hshort
      split at hres
      · cases hres
      · split at hres
        · cases hres
        · cases hres
          refine ⟨?_, hshort, by omega⟩
          -- a size of zero reads back as a null pointer
          rcases Nat.eq_zero_or_pos s.length with hzero | hpos
          · rw [sliceValue] at hvalue
            simp [hzero] at hvalue
          · exact hpos
    · rename_i hlong
      split at hres
      · cases hres
      · rename_i hfit
        cases hres
        -- the block is not the one that is released, whatever the size that was recorded
        rw [sliceDeinit] at hdeinit
        dsimp only at hdeinit
        split at hdeinit
        · split at hdeinit
          · cases hdeinit
          · cases hdeinit
        · cases hdeinit
  · rintro ⟨hpos, hshort, hle⟩
    have hroom : sliceInternalSz ≤ st.buf.length := Nat.le_of_eq st.buf_length.symm
    have hjunk : s.length + 1 ≤ st.buf.length := by omega
    obtain ⟨t, ht⟩ := set_take_append hle hjunk
    rw [if_pos hshort, if_neg (by omega), if_neg (by omega)]
    refine ⟨_, none, rfl, rfl, ⟨t, ?_⟩, ?_⟩
    · have hcond : 0 < min n s.length ∧ min n s.length < sliceInternalSz := by omega
      rw [CString.cstr, ht]
      simp only [sliceValue, if_pos hcond]
    · refine ⟨_, sliceDeinit_of_lt ?_⟩
      dsimp only
      omega

/-- A slice filled with zeros. -/
def zeroStorage : SliceStorage where
  buf := List.replicate 16 0
  sz := 0
  addr := [0, 16, 64, 86, 85, 85, 0, 0]
  buf_length := by decide
  addr_length := by decide

/-- A string of three characters is stored with its terminator. -/
theorem sliceStrncpy_storesPrefix_iff_three :
    StoresPrefix [97, 98, 99] 4 (sliceStrncpy zeroStorage 0 (.mem (CString.cstr [97, 98, 99])) 4) :=
  (sliceStrncpy_storesPrefix_iff zeroStorage 0 (by decide) (by decide)).2 (by decide)

/-- Two characters are not stored when four are asked for: the bytes behind their terminator are
read. -/
theorem sliceStrncpy_not_storesPrefix :
    ¬ StoresPrefix [97, 98] 4 (sliceStrncpy zeroStorage 0 (.mem (CString.cstr [97, 98])) 4) := by
  rintro ⟨se, block, hres, -⟩
  cases hres
