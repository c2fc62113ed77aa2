/-
**The names of the sets of a server.**

A set gets its name from the structure of a request, which has 255 bytes, and only when the name
ends there.  So the name of every set of a server is shorter than the field it came in, and a
comparison with a field of a later request, which reads as many bytes of it as the name is long,
never leaves that field: the scan for a set returns for every request, terminated or not.

Main definitions:

* `ClientRequest.Sized` — the structure of a request has its size;
* `ShortNames` — what holds of the server between requests.

Main results:

* `run_shortNames` — **the sets of every server have short names**;
* `scanSets_returns` — the scan of such a server returns for every field;
* `ShortNames.handlePutBucketset_isOk`, `handlePutObject_of_none` — requests that are handled.
-/

import SdsStorage.Response

set_option relaxedAutoImplicit false
set_option autoImplicit false

/-! ### Strings in fields -/

namespace CString

theorem strlen_textOf {mem : Bytes} (h : (0 : UInt8) ∈ mem) :
    strlen mem = .ok (textOf mem).length := by
  obtain ⟨hs, t, ht⟩ := eq_append_of_mem h
  have hlen := strlen_append (t := t) hs
  rw [← ht] at hlen
  exact hlen

/-- **A scan stays within its field** exactly when there is a terminator in it. -/
theorem strlen_isOk_iff {mem : Bytes} : (∃ n, strlen mem = .ok n) ↔ (0 : UInt8) ∈ mem := by
  constructor
  · rintro ⟨n, hn⟩
    by_contra hnul
    rw [strlen_noNul hnul] at hn
    cases hn
  · intro h
    exact ⟨_, strlen_textOf h⟩

/-- A scan reads nothing behind the terminator. -/
theorem strlen_append_of_mem {p : Bytes} (h : (0 : UInt8) ∈ p) (t : Bytes) :
    strlen (p ++ t) = strlen p := by
  obtain ⟨hs, u, hu⟩ := eq_append_of_mem h
  rw [hu, strlen_append hs, List.append_assoc, List.cons_append, strlen_append hs]

/-- A comparison that returns has read nothing behind what it was given. -/
theorem strncmpMem_append {p : Bytes} (t : Bytes) : ∀ {n : ℕ} {s : Bytes} {d : ℤ},
    strncmpMem n s p = .ok d → strncmpMem n s (p ++ t) = .ok d := by
  induction p with
  | nil =>
      intro n s d h
      cases n with
      | zero => exact h
      | succ n => cases s <;> cases h
  | cons b p ih =>
      intro n s d h
      cases n with
      | zero => exact h
      | succ n =>
          cases s with
          | nil => cases h
          | cons a s =>
              rw [List.cons_append]
              rw [strncmpMem] at h ⊢
              split
              · rename_i hab
                rwa [if_pos hab] at h
              · rename_i hab
                rw [if_neg hab] at h
                split
                · rename_i hzero
                  rwa [if_pos hzero] at h
                · rename_i hzero
                  rw [if_neg hzero] at h
                  exact ih h

theorem strncmp_append {s : CharPtr} {p : Bytes} {n : ℕ} {d : ℤ}
    (h : strncmp s (.mem p) n = .ok d) (t : Bytes) : strncmp s (.mem (p ++ t)) n = .ok d := by
  rw [strncmp] at h ⊢
  split
  · rename_i hzero
    rwa [if_pos hzero] at h
  · rename_i hpos
    rw [if_neg hpos] at h
    simp only [CharPtr.deref, Outcome.ok_bind, Outcome.bind_eq_ok] at h ⊢
    obtain ⟨mem, hmem, h⟩ := h
    exact ⟨mem, hmem, strncmpMem_append t h⟩

/-- A comparison by the length of its first string reads no more of the second. -/
theorem strncmpMem_of_le {s field : Bytes} (hs : NoNul s) (hle : s.length ≤ field.length)
    (u : Bytes) : ∃ d, strncmpMem s.length (s ++ u) field = .ok d := by
  induction s generalizing field with
  | nil => exact ⟨0, rfl⟩
  | cons a s ih =>
      rw [noNul_cons] at hs
      cases field with
      | nil => cases hle
      | cons b field =>
          rw [List.length_cons, List.cons_append, strncmpMem]
          by_cases hab : a = b
          · rw [if_neg (not_not.2 hab), if_neg hs.1]
            exact ih hs.2 (Nat.le_of_succ_le_succ hle)
          · rw [if_pos hab]
            exact ⟨_, rfl⟩

end CString

/-- So does the comparison of a name. -/
theorem Slice.Represents.strncmp_isOk {se : Slice} {s field : Bytes} (hs : se.Represents s)
    (hle : s.length ≤ field.length) :
    ∃ d, CString.strncmp (sliceValue se) (.mem field) (sliceSize se) = .ok d := by
  rw [hs.size_eq, hs.value_eq]
  by_cases hnil : s = []
  · subst hnil
    exact ⟨0, rfl⟩
  · obtain ⟨d, hd⟩ := CString.strncmpMem_of_le hs.noNul hle [0]
    rw [if_neg hnil]
    rw [CString.strncmp, if_neg (mt List.length_eq_zero_iff.1 hnil)]
    exact ⟨d, hd⟩

/-- `slice_init` reads a string up to its terminator. -/
theorem mem_of_sliceInit {m : Bytes} {r : ℤ × Slice} (h : sliceInit (.mem m) = .ok r) :
    (0 : UInt8) ∈ m := by
  simp only [sliceInit, CharPtr.deref, Outcome.ok_bind] at h
  rw [Outcome.bind_eq_ok] at h
  obtain ⟨n, hn, -⟩ := h
  exact CString.strlen_isOk_iff.1 ⟨n, hn⟩

/-- What `slice_init` has made of a string can be copied. -/
theorem sliceInit_readBack {value : CharPtr} {r : ℤ × Slice} (h : sliceInit value = .ok r) :
    ∃ r', sliceInit (sliceValue r.2) = .ok r' := by
  cases value with
  | null =>
      cases h
      exact ⟨_, rfl⟩
  | wild => cases h
  | mem m =>
      obtain ⟨hs, t, ht⟩ := CString.eq_append_of_mem (mem_of_sliceInit h)
      obtain ⟨se, hse, hrep⟩ := sliceInit_cstr hs t
      rw [← ht, h] at hse
      cases hse
      rw [hrep.value_eq]
      split
      · exact ⟨_, rfl⟩
      · obtain ⟨se', hse', -⟩ := sliceInit_cstr hs []
        exact ⟨_, hse'⟩

/-- The directory of a configuration that was read can be copied. -/
theorem confCreate_dataDir {jsonLoads : Bytes → Option Json} {io : ConfIo} {cf : Conf}
    (h : confCreate jsonLoads io = .ok (some cf)) :
    ∃ r, sliceInit (sliceValue cf.dataDir) = .ok r := by
  rw [confCreate] at h
  split at h
  · rw [Outcome.bind_eq_ok] at h
    obtain ⟨n, -, h⟩ := h
    split at h
    · cases h
    · simp only [confFields, Outcome.bind_eq_ok] at h
      obtain ⟨cf', ⟨port, -, addr, -, addr', -, backlog, -, dir, -, dir', hdir, len, -, hcf⟩,
        h⟩ := h
      cases h
      cases hcf
      exact sliceInit_readBack hdir
  · split at h <;> cases h

/-! ### The invariant -/

/-- The structure of a request has its size. -/
def ClientRequest.Sized : ClientRequest → Prop
  | .putObject _ _ req => req.length = RequestPutObject.size
  | .putBucketset _ req => req.length = RequestPutBucketset.size

/-- What holds of the server between requests: no set has buckets, the directory can be copied, and
the names of the sets are short. -/
structure ShortNames (sv : Server) : Prop where
  noBuckets : NoBuckets sv
  ready : sv.st.cf.Ready
  named : ∃ names, StoreInv sv names ∧ ∀ s ∈ names, s.length < bucketBufferLength

theorem shortNames_start {jsonLoads : Bytes → Option Json} {io : ConfIo} {ss : SdsStore}
    (hinit : sdsStoreInit jsonLoads io = .ok ss) (fs : Fs) : ShortNames (Server.start fs ss) := by
  have hcf := (sdsStoreInit_ok hinit).2.2
  refine ⟨noBuckets_start hinit fs, ⟨(confCreate_ok hcf).1, ?_⟩, [], storeInv_start hinit fs, ?_⟩
  · exact confCreate_dataDir hcf
  · intro s hs
    cases hs

section

variable {sv sv' : Server} {chance : ℕ → FsChance} {req : Bytes}

/-- A request for a set that is handled changes nothing, or its name ends in its structure. -/
theorem handlePutBucketset_cases
    (hok : handlePutBucketset chance sv (fieldPtr req RequestPutBucketset.setName) = .ok sv') :
    sv' = sv ∨ ((0 : UInt8) ∈ req ∧ sv'.st.cf = sv.st.cf) := by
  rw [handlePutBucketset] at hok
  rw [Outcome.bind_eq_ok] at hok
  obtain ⟨sets, -, hok⟩ := hok
  split at hok
  · simp only [Outcome.bind_eq_ok] at hok
    obtain ⟨made, hmade, pushed, -, hok⟩ := hok
    cases hok
    obtain ⟨_, -, -, ⟨status, hname⟩, -⟩ := bucketsetCreate_ok hmade
    exact Or.inr ⟨mem_of_sliceInit hname, rfl⟩
  · cases hok
    exact Or.inl rfl

/-- A request with a name that ends in its structure. -/
theorem exists_putBucketset (hterm : (0 : UInt8) ∈ req) (chance : ℕ → FsChance) :
    ∃ rq : PutBucketset, rq.name = textOf req ∧ ∀ sv, putBucketset sv rq =
      handlePutBucketset chance sv (fieldPtr req RequestPutBucketset.setName) := by
  obtain ⟨hs, t, ht⟩ := CString.eq_append_of_mem hterm
  refine ⟨{ name := textOf req, rest := t, noNul := hs, chance := chance }, rfl, ?_⟩
  intro sv
  have hfield : (textOf req ++ 0 :: t : Bytes) = req := ht.symm
  rw [putBucketset, PutBucketset.field, hfield]
  rfl

/-- The text of a field with a terminator is shorter than the field. -/
theorem length_textOf_lt {mem : Bytes} (hterm : (0 : UInt8) ∈ mem) :
    (textOf mem).length < mem.length := CString.strlen_lt (CString.strlen_textOf hterm)

/-- One request keeps the names short. -/
theorem handle_shortNames (h : ShortNames sv) {rq : ClientRequest} (hsized : rq.Sized)
    (hok : sv.handle rq = .ok sv') : ShortNames sv' := by
  have hbuckets := handle_noBuckets h.noBuckets hok
  cases rq with
  | putObject io bucketIndex req =>
      rw [Server.handle] at hok
      rw [Outcome.bind_eq_ok] at hok
      obtain ⟨put, hput, hok⟩ := hok
      rw [handlePutObject_noBuckets h.noBuckets hput] at hok
      cases hok
      exact h
  | putBucketset chance req =>
      rcases handlePutBucketset_cases hok with rfl | ⟨hterm, hcf⟩
      · exact h
      · obtain ⟨rq, hname, hrq⟩ := exists_putBucketset hterm chance
        obtain ⟨names, hnamed, hshort⟩ := h.named
        have hstep : putBucketset sv rq = .ok sv' := (hrq sv).trans hok
        obtain ⟨hnamed', -⟩ := handlePutBucketset_named hnamed hstep
        refine ⟨hbuckets, hcf ▸ h.ready, _, hnamed', ?_⟩
        intro s hs
        rw [Cover.register] at hs
        split at hs
        · rcases List.mem_append.1 hs with hold | hnew
          · exact hshort s hold
          · rw [List.mem_singleton.1 hnew, hname]
            exact (length_textOf_lt hterm).trans_eq hsized
        · exact hshort s hs

/-- **The sets of every server have short names.** -/
theorem run_shortNames {rs : List ClientRequest} (h : ShortNames sv) (hsized : ∀ rq ∈ rs, rq.Sized)
    (hrun : rs.foldlM Server.handle sv = .ok sv') : ShortNames sv' := by
  induction rs generalizing sv with
  | nil =>
      have hsame : sv = sv' := by simpa using hrun
      exact hsame ▸ h
  | cons rq rs ih =>
      rw [List.foldlM_cons, Outcome.bind_eq_ok] at hrun
      obtain ⟨sv₁, hstep, hrest⟩ := hrun
      exact ih (handle_shortNames h (hsized rq List.mem_cons_self) hstep)
        (fun rq' hrq' => hsized rq' (List.mem_cons_of_mem rq hrq')) hrest

/-! ### What such a server does with a field -/

variable {field : Bytes}

/-- A comparison with the name of a set stays within the field. -/
theorem ShortNames.strncmp_isOk (h : ShortNames sv) (hlen : bucketBufferLength ≤ field.length)
    {i : ℕ} (hi : i < sv.st.sets.size) {bst : Bucketset}
    (hbst : sv.m.bucketset (vectorAt sv.st.sets i) = .ok bst) :
    ∃ d, CString.strncmp (sliceValue bst.setName) (.mem field) (sliceSize bst.setName) = .ok d := by
  obtain ⟨names, hnamed, hshort⟩ := h.named
  have hlt : i < names.length := hnamed.size_eq ▸ hi
  obtain ⟨a, bst', hat, hbst', hrep⟩ := hnamed.named i _ (List.getElem?_eq_getElem hlt)
  rw [hat, hbst'] at hbst
  cases hbst
  exact hrep.strncmp_isOk ((hshort _ (List.getElem_mem hlt)).le.trans hlen)

/-- **The scan returns for every field.** -/
theorem scanSets_returns (h : ShortNames sv) (hlen : bucketBufferLength ≤ field.length) :
    ∃ r, scanSets sv (.mem field) = .ok r := by
  have hn : sv.st.sets.size ≤ 2 ^ 64 - 2 ^ 31 := by
    have hserves := sv.st.sets.serves
    have hle := sv.st.sets.size_le
    rw [callocServes] at hserves
    omega
  rw [scanSets, Loop.forInt_eq_findSome? _ hn]
  cases hfind : (List.range (min sv.st.sets.size (2 ^ 31))).findSome?
      (scanTurn sv (.mem field)) with
  | none => exact ⟨none, rfl⟩
  | some r =>
      obtain ⟨i, hi, hturn⟩ := List.exists_of_findSome?_eq_some hfind
      have hlt : i < sv.st.sets.size := (List.mem_range.1 hi).trans_le (Nat.min_le_left _ _)
      obtain ⟨names, hnamed, -⟩ := h.named
      have hpos : i < names.length := hnamed.size_eq ▸ hlt
      obtain ⟨a, bst, hat, hbst, -⟩ := hnamed.named i _ (List.getElem?_eq_getElem hpos)
      rw [← hat] at hbst
      obtain ⟨d, hd⟩ := h.strncmp_isOk hlen hlt hbst
      rw [scanTurn, hbst] at hturn
      simp only [hd] at hturn
      split at hturn
      · cases hturn
        exact ⟨_, rfl⟩
      · cases hturn

/-- A request for a set whose name ends in its structure is handled. -/
theorem ShortNames.handlePutBucketset_isOk (h : ShortNames sv) (hterm : (0 : UInt8) ∈ req)
    (chance : ℕ → FsChance) :
    ∃ sv', handlePutBucketset chance sv (fieldPtr req RequestPutBucketset.setName) = .ok sv' := by
  obtain ⟨names, hnamed, -⟩ := h.named
  obtain ⟨rq, -, hrq⟩ := exists_putBucketset hterm chance
  obtain ⟨sv', hok, -⟩ := putBucketset_isOk hnamed h.ready rq
  exact ⟨sv', (hrq sv).symm.trans hok⟩

/-- So is one for a set that the scan finds. -/
theorem handlePutBucketset_of_found {name : CharPtr} {a : Addr}
    (hscan : scanSets sv name = .ok (some a)) (chance : ℕ → FsChance) :
    handlePutBucketset chance sv name = .ok sv := by
  have hsets : sv.st.sets.size ≠ 0 := by
    intro hzero
    rw [scanSets_of_size_eq_zero hzero] at hscan
    cases hscan
  rw [handlePutBucketset, hscan, Outcome.ok_bind, if_neg]
  rintro (hnone | hzero)
  · cases hnone
  · exact hsets hzero

/-- A request to put an object whose identifier ends is handled where no set is found. -/
theorem handlePutObject_of_none (huid : (0 : UInt8) ∈ req.drop RequestPutObject.uid)
    (hscan : scanSets sv (fieldPtr req RequestPutObject.setName) = .ok none) (io : PutIo)
    (bucketIndex : UInt64) :
    handlePutObject sv io bucketIndex req = .ok (sv, io.sock, some (-1)) := by
  have hlen := CString.strlen_textOf huid
  obtain ⟨hash, hhash⟩ := Hash.gfsHashfn_isOk (CString.strlen_lt hlen).le
  rw [handlePutObject, hlen, Outcome.ok_bind, fieldPtr, hhash, Outcome.ok_bind, hscan,
    Outcome.ok_bind]

/-- **A request to put an object that is handled found no set.** -/
theorem NoBuckets.scanSets_of_handled (h : NoBuckets sv) {io : PutIo} {bucketIndex : UInt64}
    {r : Server × Source × Option ℤ} (hok : handlePutObject sv io bucketIndex req = .ok r) :
    scanSets sv (fieldPtr req RequestPutObject.setName) = .ok none := by
  have hcalls := hok
  rw [handlePutObject] at hcalls
  simp only [Outcome.bind_eq_ok] at hcalls
  obtain ⟨len, hlen, hash, -, sets, hscan, -⟩ := hcalls
  cases sets with
  | none => exact hscan
  | some a =>
      rw [(h.not_hasBucket hscan hlen).2] at hok
      cases hok

end
