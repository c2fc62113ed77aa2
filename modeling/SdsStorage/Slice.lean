/-
**Strings with an inline buffer.**

A `slice` holds a string of fewer than sixteen bytes in its own storage and a longer one in a block
it allocates; which of the two is read is decided by the length alone.

Main definitions:

* `SliceData`, `Slice` — the union and the structure;
* `sliceInit`, `sliceValue`, `sliceSize` — `slice_init`, `slice_value` and `slice_size`;
* `sliceDeinit`, `sliceRepaceValue`, `sliceCopy` — `slice_deinit`, `slice_repace_value` and
  `slice_copy`;
* `sliceStrncpy` — `slice_strncpy`, which fills the storage of a slice as it finds it;
* `Slice.Represents` — the slice reads back as a given string.

Main results:

* `sliceInit_cstr` — **what `slice_init` stores is what `slice_value` reads back**, except that
  the empty string reads back as a null pointer.
-/

import SdsStorage.CString

set_option relaxedAutoImplicit false
set_option autoImplicit false

/-- `SLICE_INTERNAL_SZ`. -/
def sliceInternalSz : ℕ := 16

/-- The union of a `slice`: its inline buffer, or the block its pointer leads to. -/
inductive SliceData where
  | buf (bytes : Bytes)
  | ptr (block : CharPtr)
  deriving DecidableEq, Repr

/-- `slice`. -/
structure Slice where
  data : SliceData
  sz : ℕ
  deriving DecidableEq, Repr

namespace Slice

/-- The slice `calloc` leaves. -/
def zero : Slice := { data := .ptr .null, sz := 0 }

end Slice

/-- `slice_init`: the status and the slice. -/
def sliceInit (value : CharPtr) : Outcome (ℤ × Slice) :=
  match value with
  | .null => .ok (-1, Slice.zero)
  | value => do
      let mem ← value.deref
      let valueSz ← CString.strlen mem
      if valueSz < sliceInternalSz then
        .ok (0, { data := .buf (mem.take valueSz ++ [0]), sz := valueSz })
      else
        -- `strdup`
        .ok (0, { data := .ptr (.mem (mem.take valueSz ++ [0])), sz := valueSz })

/-- `slice_size`. -/
def sliceSize (se : Slice) : ℕ := se.sz

/-- `slice_value`: the length decides how the union is read. -/
def sliceValue (se : Slice) : CharPtr :=
  if 0 < se.sz ∧ se.sz < sliceInternalSz then
    match se.data with
    | .buf bytes => .mem bytes
    | .ptr _ => .wild
  else if 0 < se.sz ∧ sliceInternalSz ≤ se.sz then
    match se.data with
    | .buf _ => .wild
    | .ptr block => block
  else .null

/-- `slice_deinit`: the slice, and the block that is freed, if any.  A short slice is left as it
is. -/
def sliceDeinit (se : Slice) : Outcome (Slice × Option CharPtr) :=
  if 0 < se.sz then
    if sliceInternalSz ≤ se.sz then
      match se.data with
      | .ptr .null => .ok ({ se with sz := 0 }, none)
      | .ptr (.mem bytes) => .ok ({ data := .ptr .wild, sz := 0 }, some (.mem bytes))
      | _ => .error .wild
    else .ok (se, none)
  else .ok (se, none)

/-- `slice_repace_value`. -/
def sliceRepaceValue (se : Slice) (value : CharPtr) : Outcome (ℤ × Slice) := do
  let _ ← sliceDeinit se
  sliceInit value

/-- `slice_copy`, of which the destination is overwritten. -/
def sliceCopy (src : Slice) : Outcome (ℤ × Slice) := sliceInit (sliceValue src)

/-- What a slice holds that nothing was stored in yet, and the bytes of the pointer `calloc` is
going to return. -/
structure SliceStorage where
  buf : Bytes
  sz : ℕ
  addr : Bytes
  buf_length : buf.length = sliceInternalSz
  addr_length : addr.length = 8

/-- `slice_strncpy` of `n` bytes at most into a slice with this storage: the status, the slice, and
the block that is allocated, if any.  Without a string or with `n` zero it falls off its end, and
the status is what was in the register. -/
def sliceStrncpy (st : SliceStorage) (register : ℤ) (str : CharPtr) (n : ℕ) :
    Outcome (ℤ × Slice × Option CharPtr) :=
  match str with
  | .null => .ok (register, { data := .buf st.buf, sz := st.sz }, none)
  | str => do
      if n = 0 then .ok (register, { data := .buf st.buf, sz := st.sz }, none)
      else
        let mem ← str.deref
        let len ← CString.strlen mem
        let sz := if n > len then len else n
        if len < sliceInternalSz then
          -- all `n` bytes are copied, not `sz` of them
          if mem.length < n then .error .overread
          else if sliceInternalSz < n then .error .outOfBounds
          else .ok (0, { data := .buf ((mem.take n ++ st.buf.drop n).set sz 0), sz := sz }, none)
        else if sliceInternalSz < sz then .error .outOfBounds
        -- the copy goes over the pointer to the block
        else
          .ok (0, { data := .buf (mem.take sz ++ (st.addr ++ st.buf.drop 8).drop sz), sz := sz },
            some (.mem (List.replicate (sz + 1) 0)))

/-- The slice reads back as the string `s`. -/
structure Slice.Represents (se : Slice) (s : Bytes) : Prop where
  noNul : CString.NoNul s
  size_eq : sliceSize se = s.length
  value_eq : sliceValue se = if s = [] then .null else .mem (CString.cstr s)

/-- **What `slice_init` stores is what `slice_value` reads back**, whatever follows the terminator
in the memory of the argument. -/
theorem sliceInit_cstr {s : Bytes} (hs : CString.NoNul s) (t : Bytes) :
    ∃ se, sliceInit (.mem (s ++ 0 :: t)) = .ok (0, se) ∧ se.Represents s := by
  have hlen := CString.strlen_append (t := t) hs
  have htake : (s ++ 0 :: t).take s.length = s := by simp
  by_cases hshort : s.length < sliceInternalSz
  · refine ⟨{ data := .buf (s ++ [0]), sz := s.length }, ?_, ⟨hs, rfl, ?_⟩⟩
    · simp [sliceInit, CharPtr.deref, hlen, hshort]
    · cases s with
      | nil => rfl
      | cons b s =>
          have hcond : 0 < (b :: s).length ∧ (b :: s).length < sliceInternalSz :=
            ⟨Nat.succ_pos _, hshort⟩
          simp only [sliceValue, if_pos hcond, CString.cstr]
          rfl
  · refine ⟨{ data := .ptr (.mem (s ++ [0])), sz := s.length }, ?_, ⟨hs, rfl, ?_⟩⟩
    · simp [sliceInit, CharPtr.deref, hlen, hshort]
    · have hpos : 0 < s.length := by
        rw [sliceInternalSz] at hshort
        omega
      have hne : s ≠ [] := List.ne_nil_of_length_pos hpos
      have hcond : 0 < s.length ∧ sliceInternalSz ≤ s.length := ⟨hpos, Nat.le_of_not_lt hshort⟩
      have hinline : ¬ (0 < s.length ∧ s.length < sliceInternalSz) := fun h => hshort h.2
      simp only [sliceValue, if_neg hinline, if_pos hcond, if_neg hne, CString.cstr]

/-- A slice represents one string at most. -/
theorem Slice.Represents.unique {se : Slice} {s t : Bytes} (hs : se.Represents s)
    (ht : se.Represents t) : s = t := by
  have hlen : s.length = t.length := hs.size_eq.symm.trans ht.size_eq
  have hval := hs.value_eq.symm.trans ht.value_eq
  by_cases hnil : s = []
  · subst hnil
    exact (List.length_eq_zero_iff.1 hlen.symm).symm
  · have hnil' : t ≠ [] := by
      rintro rfl
      exact hnil (List.length_eq_zero_iff.1 hlen)
    rw [if_neg hnil, if_neg hnil'] at hval
    exact (List.append_inj (CharPtr.mem.inj hval) hlen).1

/-- **A name is compared with a request by its own length**: the comparison is the prefix test. -/
theorem Slice.Represents.strncmp {se : Slice} {s t : Bytes} (hs : se.Represents s)
    (ht : CString.NoNul t) (v : Bytes) :
    ∃ d, CString.strncmp (sliceValue se) (.mem (t ++ 0 :: v)) (sliceSize se) = .ok d ∧
      (d = 0 ↔ s <+: t) := by
  rw [hs.size_eq, hs.value_eq]
  by_cases hnil : s = []
  · subst hnil
    exact ⟨0, rfl, by simp⟩
  · rw [if_neg hnil]
    exact CString.strncmp_eq_zero_iff hs.noNul ht [0] v

/-- A name is copied by its own length: its bytes, without a terminator. -/
theorem Slice.Represents.strncpy {se : Slice} {s : Bytes} (hs : se.Represents s) {dst : Bytes}
    {off : ℕ} (hfit : off + s.length ≤ dst.length) :
    CString.strncpy dst off (sliceValue se) (sliceSize se) =
      .ok (dst.take off ++ s ++ dst.drop (off + s.length)) := by
  rw [hs.size_eq, hs.value_eq]
  by_cases hnil : s = []
  · subst hnil
    simp [CString.strncpy]
  · rw [if_neg hnil]
    exact CString.strncpy_strlen hs.noNul [0] dst off hfit
