/-
**What the status of a put says.**

`write_bucket_object` reports whether an object was stored, and `bucket_put` passes a failure on.
The loop of the copy ends at the first read, which moves nothing, with the status of a success; it
is not entered at all for an object whose length is not positive as a signed number, and that is
the one failure there is.  By then `bucket_put` has already put a new list into the cache.

Main definitions:

* `CopyEnds`, `StoresExactly` — the copy comes to an end, and its status says what it did;
* `Bucket.Unchanged`, `FailureKeeps` — a put that fails leaves the bucket and its file alone;
* `NoneRefused` — the runs in which no put fails.

Main results:

* `writeBucketObject_storesExactly_iff` — **the status is wrong for every object but those that are
  too long or never arrive**;
* `bucketPut_slots` — a put leaves a new list in the cache, whatever comes of it;
* `puts_failureKeeps_iff` — **a failed put changes the bucket, so none may fail**.
-/

import SdsStorage.BucketRun

set_option relaxedAutoImplicit false
set_option autoImplicit false

/-! ### The status of the copy -/

/-- The loop of `write_bucket_object` comes to an end within the turns it is given. -/
def CopyEnds (sock : Source) (file : Sink) (dataLen : UInt64) : Prop :=
  (Loop.run (copyTurn (CInt.toInt64 dataLen.toNat)) ((CInt.toInt64 dataLen.toNat).toNat + 1)
    { readLen := 0, sock := sock, file := file }).isSome

/-- The copy returns 0 exactly when it took as many bytes from the socket as the object has, and
appended the same bytes to the file; it never takes more. -/
structure StoresExactly (sock : Source) (file : Sink) (dataLen : UInt64)
    (r : ℤ × Source × Sink) : Prop where
  status_iff : r.1 = 0 ↔ ∃ moved : Bytes, moved.length = dataLen.toNat ∧
    sock.bytes = moved ++ r.2.1.bytes ∧ r.2.2.sent = file.sent ++ moved
  bounded : ∃ taken : Bytes, taken.length ≤ dataLen.toNat ∧ sock.bytes = taken ++ r.2.1.bytes

section

variable {sock : Source} {file : Sink} {dataLen : UInt64}

/-- No turn of the copy goes round again. -/
theorem copyTurn_done (len : ℤ) (s : CopyState) : ∃ r, copyTurn len s = .done r := by
  by_cases hlt : s.readLen < len
  · cases hread : Utils.readN s.sock true (CInt.toUInt64 len) with
    | error f => exact ⟨_, copyTurn_of_blocked hlt hread⟩
    | ok rn =>
        -- there is no buffer, so whatever arrives the count stays 0
        have hrn : rn.readn = 0 := by
          by_cases hsilent : s.sock.Silent
          · by_cases hpos : 0 < CInt.toUInt64 len
            · rw [Utils.readN_silent hsilent true hpos] at hread
              cases hread
            · rw [Nat.not_lt, Nat.le_zero] at hpos
              rw [hpos] at hread
              cases hread
              rfl
          · obtain ⟨sock', hnull⟩ := Utils.readN_null hsilent (CInt.toUInt64 len)
            rw [hnull] at hread
            cases hread
            rfl
        exact ⟨_, copyTurn_of_nothing hlt hread hrn⟩
  · exact ⟨_, copyTurn_of_not_lt hlt⟩

theorem copyEnds (sock : Source) (file : Sink) (dataLen : UInt64) :
    CopyEnds sock file dataLen := by
  obtain ⟨r, hr⟩ := copyTurn_done (CInt.toInt64 dataLen.toNat)
    { readLen := 0, sock := sock, file := file }
  rw [CopyEnds, Loop.run_done hr]
  rfl

/-- An object of positive length leaves the bytes on the socket where they are. -/
theorem writeBucketObject_bytes {ret : ℤ} {sock' : Source} {file' : Sink} (hacc : Accepted dataLen)
    (h : writeBucketObject sock file dataLen = .ok (ret, sock', file')) :
    ret = 0 ∧ file' = file ∧ sock'.bytes = sock.bytes := by
  by_cases hsilent : sock.Silent
  · rw [writeBucketObject_silent file hacc hsilent] at h
    cases h
  · obtain ⟨sock₁, hread⟩ :=
      Utils.readN_null hsilent (CInt.toUInt64 (CInt.toInt64 dataLen.toNat))
    have hturn := copyTurn_of_nothing (s := { readLen := 0, sock := sock, file := file }) hacc
      hread rfl
    rw [writeBucketObject_of_done hturn, Except.bind] at h
    cases h
    exact ⟨rfl, rfl, Utils.readN_null_bytes hread⟩

/-- Nothing is taken from a socket that still has all its bytes. -/
theorem eq_nil_of_bytes {sock' : Source} {taken : Bytes} (hsame : sock'.bytes = sock.bytes)
    (h : sock.bytes = taken ++ sock'.bytes) : taken = [] := by
  rw [hsame] at h
  exact List.self_eq_append_left.1 h

/-- **The status is wrong for every object but those that are too long or never arrive.**  For every
length, socket and data file: the loop of the copy comes to an end, nothing undefined happens, and
what is returned stores the object exactly or says that it does not, exactly when the length is not
0, and either is too large for a signed number or nothing ever arrives on the socket. -/
theorem writeBucketObject_storesExactly_iff (sock : Source) (file : Sink) (dataLen : UInt64) :
    (CopyEnds sock file dataLen ∧ Outcome.Holds (StoresExactly sock file dataLen)
        (writeBucketObject sock file dataLen)) ↔
      dataLen ≠ 0 ∧ (Accepted dataLen → sock.Silent) := by
  rw [and_iff_right (copyEnds sock file dataLen)]
  by_cases hacc : Accepted dataLen
  · have hpos := ((accepted_iff dataLen).1 hacc).1
    have hne : dataLen ≠ 0 := UInt64.pos_iff_ne_zero.1 (UInt64.lt_iff_toNat_lt.2 hpos)
    by_cases hsilent : sock.Silent
    · rw [writeBucketObject_silent file hacc hsilent, Outcome.holds_error]
      exact iff_of_true (fun h => h) ⟨hne, fun _ => hsilent⟩
    · obtain ⟨sock', hwrite⟩ := writeBucketObject_accepted file hacc hsilent
      obtain ⟨-, -, hbytes⟩ := writeBucketObject_bytes hacc hwrite
      rw [hwrite, Outcome.holds_ok]
      refine iff_of_false ?_ fun h => hsilent (h.2 hacc)
      -- the status says that the object was moved, but nothing was
      intro h
      obtain ⟨moved, hlen, hmoved, -⟩ := h.status_iff.1 rfl
      rw [eq_nil_of_bytes hbytes hmoved, List.length_nil] at hlen
      omega
  · have hfail : (-1 : ℤ) ≠ 0 := by decide
    rw [writeBucketObject_refused sock file hacc, Outcome.holds_ok]
    by_cases hzero : dataLen = 0
    · refine iff_of_false ?_ fun h => h.1 hzero
      -- all the bytes of an empty object were moved, but the status is that of a failure
      intro h
      have hret := h.status_iff.2 ⟨[], by rw [hzero]; rfl, rfl, (List.append_nil _).symm⟩
      exact hfail hret
    · refine iff_of_true ⟨⟨fun h => absurd h hfail, ?_⟩, [], Nat.zero_le _, rfl⟩
        ⟨hzero, fun h => absurd h hacc⟩
      rintro ⟨moved, hlen, hmoved, -⟩
      rw [eq_nil_of_bytes rfl hmoved, List.length_nil] at hlen
      exact absurd (UInt64.toNat_inj.1 hlen.symm) hzero

end

/-- An object of one byte is reported stored, with the byte still on the socket; one of no bytes is
reported not to be. -/
theorem writeBucketObject_not_storesExactly :
    writeBucketObject oneByteUpload.io.sock { answers := [], sent := [] } 1 =
        .ok (0, oneByteUpload.io.sock, { answers := [], sent := [] }) ∧
      ¬ Outcome.Holds (StoresExactly oneByteUpload.io.sock { answers := [], sent := [] } 1)
        (writeBucketObject oneByteUpload.io.sock { answers := [], sent := [] } 1) ∧
      ¬ Outcome.Holds (StoresExactly oneByteUpload.io.sock { answers := [], sent := [] } 0)
        (writeBucketObject oneByteUpload.io.sock { answers := [], sent := [] } 0) := by
  have hone : writeBucketObject oneByteUpload.io.sock { answers := [], sent := [] } 1 =
      .ok (0, oneByteUpload.io.sock, { answers := [], sent := [] }) := rfl
  have hzero : writeBucketObject oneByteUpload.io.sock { answers := [], sent := [] } 0 =
      .ok (-1, oneByteUpload.io.sock, { answers := [], sent := [] }) := rfl
  refine ⟨hone, ?_, ?_⟩
  · rw [hone, Outcome.holds_ok]
    intro h
    obtain ⟨moved, hlen, hmoved, -⟩ := h.status_iff.1 rfl
    rw [eq_nil_of_bytes rfl hmoved] at hlen
    cases hlen
  · rw [hzero, Outcome.holds_ok]
    intro h
    exact absurd (h.status_iff.2 ⟨[], rfl, rfl, rfl⟩) (by decide)

/-! ### What a put leaves in the cache -/

/-- What a put leaves in the slots of the cache and in the memory of its lists, and what it leaves
alone besides what `Bucket.SameFile` says. -/
structure PutSlots (bt : Bucket) (obj : BucketObject) (bt' : Bucket) : Prop where
  tables : bt'.cache.tables = bt.cache.tables.set obj.objHash.toNat (some bt.lists.lists.length)
  lists : bt'.lists.lists.length = bt.lists.lists.length + 1
  index : bt'.index = bt.index
  lock : bt'.lock = bt.lock

/-- The list an object is added to is new, since the cache shows none. -/
theorem bucketList_slots {bt bt' : Bucket} {obj : BucketObject} {lt : Addr}
    (hsize : bt.cache.size = 0) (h : bucketList bt obj = .ok (bt', lt)) :
    PutSlots bt obj bt' := by
  rw [bucketList, vectorAt_of_size_eq_zero hsize] at h
  dsimp only at h
  cases hinsert : vectorInsert bt.cache obj.objHash.toNat (some (listCreate bt.lists).2) with
  | error f =>
      rw [hinsert] at h
      cases h
  | ok cache =>
      -- a cache without slots cannot have been stored into
      have hroom : bt.cache.size < bt.cache.cap := by
        by_contra hfull
        have hcap : bt.cache.cap = 0 := by omega
        rw [vectorInsert_of_cap_eq_zero hcap] at hinsert
        cases hinsert
      have htables := vectorInsert_tables hroom hinsert
      rw [hinsert] at h
      cases h
      exact ⟨htables, List.length_append, rfl, rfl⟩

/-- Recording an object changes no slot, and makes no list. -/
theorem bucketRecord_slots {bt bt₁ bt' : Bucket} {obj : BucketObject} {lt : Addr}
    (hslots : PutSlots bt obj bt₁) (h : bucketRecord bt₁ lt obj = .ok bt') :
    PutSlots bt obj bt' := by
  rw [bucketRecord] at h
  cases hadd : listAdd (listNodeCreate bt₁.lists obj).1 (some lt) (listNodeCreate bt₁.lists obj).2
    with
  | error f =>
      simp only [hadd] at h
      cases h
  | ok lists =>
      simp only [hadd] at h
      cases h
      have hlen := listAdd_length hadd
      exact ⟨hslots.tables, hlen.trans hslots.lists, hslots.index, hslots.lock⟩

/-- **A put leaves a new list in the cache, whatever comes of it.** -/
theorem bucketPut_slots {fs : Fs} {io : PutIo} {bt : Bucket} {obj : BucketObject}
    {r : ℤ × Bucket × Fs × Source} (hfull : bt.dataFileCurLength < bt.dataFileMaxLength)
    (hsize : bt.cache.size = 0) (h : bucketPut fs io bt obj = .ok r) :
    PutSlots bt obj r.2.1 := by
  have hne : ¬ (0 : ℤ) ≠ 0 := fun h => h rfl
  rw [bucketPut, bucketCheckDataFd, if_neg (UInt64.not_le.2 hfull), Outcome.ok_bind,
    if_neg hne] at h
  rw [Outcome.bind_eq_ok] at h
  obtain ⟨⟨bt₁, lt⟩, hlist, h⟩ := h
  rw [Outcome.bind_eq_ok] at h
  obtain ⟨written, -, h⟩ := h
  have hslots := bucketList_slots hsize hlist
  dsimp only at h
  split at h
  -- the copy failed: what was put into the cache is not taken out again
  · cases h
    exact hslots
  · rw [Outcome.bind_eq_ok] at h
    obtain ⟨bt', hrecord, h⟩ := h
    cases h
    exact bucketRecord_slots hslots hrecord

/-- The status of a put is that of the copy. -/
theorem bucketPut_status {fs : Fs} {io : PutIo} {bt : Bucket} {obj : BucketObject}
    {r : ℤ × Bucket × Fs × Source} (h : bucketPut fs io bt obj = .ok r) :
    r.1 = 0 ↔ Accepted obj.dataLen := by
  have hfail : (-1 : ℤ) ≠ 0 := by decide
  rw [bucketPut] at h
  rw [Outcome.bind_eq_ok] at h
  obtain ⟨checked, -, h⟩ := h
  split at h
  · cases h
  · rw [Outcome.bind_eq_ok] at h
    obtain ⟨listed, -, h⟩ := h
    rw [Outcome.bind_eq_ok] at h
    obtain ⟨⟨ret, sock', file'⟩, hwrite, h⟩ := h
    by_cases hacc : Accepted obj.dataLen
    · obtain ⟨rfl, -, -⟩ := writeBucketObject_bytes hacc hwrite
      simp only [ne_eq, not_true_eq_false, if_false, Outcome.bind_eq_ok] at h
      obtain ⟨bt', -, h⟩ := h
      cases h
      exact iff_of_true rfl hacc
    · rw [writeBucketObject_refused _ _ hacc] at hwrite
      cases hwrite
      rw [if_pos hfail] at h
      cases h
      exact iff_of_false hfail hacc

/-! ### Puts that fail -/

/-- The bucket, the lists its cache leads to and its data file are as before a put. -/
structure PutRun.Unchanged (s : PutRun) (bt' : Bucket) (fs' : Fs) : Prop where
  slots : bt'.cache.tables = s.bt.cache.tables
  lists : ∀ a, some a ∈ s.bt.cache.tables → listValues bt'.lists a = listValues s.bt.lists a
  currentOffset : bt'.currentOffset = s.bt.currentOffset
  curLength : bt'.dataFileCurLength = s.bt.dataFileCurLength
  index : bt'.index = s.bt.index
  fd : bt'.fd = s.bt.fd
  contents : fs'.contents bt'.fd = s.fs.contents s.bt.fd

/-- A put that fails leaves all of this alone. -/
def FailureKeeps (s : PutRun) (p : Put) : Prop :=
  Outcome.Holds (fun r => r.1 = -1 → s.Unchanged r.2.1 r.2.2.1) (bucketPut s.fs p.io s.bt p.obj)

/-- The runs in which no put fails: up to the first that waits for ever, every object has its hash
within a cache of `cap` slots, and a length that is positive as a signed number. -/
def NoneRefused (cap : ℕ) : List Put → Prop
  | [] => True
  | p :: ps =>
      p.obj.objHash.toNat < cap ∧ Accepted p.obj.dataLen ∧
        (p.io.sock.Silent ∨ NoneRefused cap ps)

/-- Every list the cache leads to was made. -/
def Bucket.ListsMade (bt : Bucket) : Prop :=
  ∀ a, some a ∈ bt.cache.tables → a < bt.lists.lists.length

theorem Bucket.ListsMade.put {bt bt' : Bucket} {obj : BucketObject} (h : bt.ListsMade)
    (hslots : PutSlots bt obj bt') : bt'.ListsMade := by
  intro a ha
  rw [hslots.tables] at ha
  rw [hslots.lists]
  rcases List.mem_or_eq_of_mem_set ha with hold | hnew
  · exact Nat.lt_succ_of_lt (h a hold)
  · cases hnew
    exact Nat.lt_succ_self _

/-- The slot a put stores into is another than before. -/
theorem PutSlots.tables_ne {bt bt' : Bucket} {obj : BucketObject} (h : bt.ListsMade)
    (hslots : PutSlots bt obj bt') (hcap : obj.objHash.toNat < bt.cache.cap) :
    bt'.cache.tables ≠ bt.cache.tables := by
  intro hsame
  have hlt : obj.objHash.toNat < bt.cache.tables.length := by
    rw [bt.cache.length_eq]
    exact hcap
  have hmem : some bt.lists.lists.length ∈ bt.cache.tables := by
    rw [← hsame, hslots.tables]
    exact List.mem_set hlt _
  exact absurd (h _ hmem) (Nat.lt_irrefl _)

/-- A put of an object whose length is not positive fails, and has changed the cache. -/
theorem bucketPut_refused {fs : Fs} {io : PutIo} {bt : Bucket} {obj : BucketObject}
    (hfull : bt.dataFileCurLength < bt.dataFileMaxLength) (hsize : bt.cache.size = 0)
    (hmade : bt.ListsMade) (hcap : obj.objHash.toNat < bt.cache.cap)
    (hlen : ¬ Accepted obj.dataLen) :
    ∃ bt' fs' sock', bucketPut fs io bt obj = .ok (-1, bt', fs', sock') ∧
      bt'.cache.tables ≠ bt.cache.tables := by
  have hslots : ∀ r, bucketPut fs io bt obj = .ok r → PutSlots bt obj r.2.1 :=
    fun r hr => bucketPut_slots hfull hsize hr
  have hresult := bucketPut_result fs io obj hfull hsize
  generalize bucketPut fs io bt obj = r at hresult hslots ⊢
  cases hresult with
  | outside hout => omega
  | refused bt' _ _ _ _ => exact ⟨bt', _, _, rfl, (hslots _ rfl).tables_ne hmade hcap⟩
  | blocked _ hacc _ => exact absurd hacc hlen
  | stored _ _ _ hacc _ _ _ => exact absurd hacc hlen

/-- **The run lemma**: from a bucket whose lists were all made, a run leaves the bucket alone where
a put fails exactly when none does. -/
theorem eachCall_failureKeeps_iff (ps : List Put) :
    ∀ {s : PutRun}, s.Open → s.bt.ListsMade →
      (Outcome.EachCall FailureKeeps putStep ps s ↔ NoneRefused s.bt.cache.cap ps) := by
  induction ps with
  | nil =>
      intro s _ _
      exact iff_of_true Outcome.eachCall_nil trivial
  | cons p ps ih =>
      intro s hs hmade
      rw [Outcome.eachCall_cons, NoneRefused, FailureKeeps, putStep, putObject]
      have hresult := bucketPut_result s.fs p.io p.obj hs.notFull hs.hidden
      have hslots : ∀ r, bucketPut s.fs p.io s.bt p.obj = .ok r → PutSlots s.bt p.obj r.2.1 :=
        fun r hr => bucketPut_slots hs.notFull hs.hidden hr
      generalize bucketPut s.fs p.io s.bt p.obj = r at hresult hslots ⊢
      cases hresult with
      | outside hcap => exact iff_of_false (fun h => h.1 trivial) fun h => absurd h.1 (by omega)
      | refused bt' hcap hlen hsame hoff =>
          -- a put that fails has stored into a slot
          refine iff_of_false ?_ fun h => hlen h.2.1
          intro h
          exact (hslots _ rfl).tables_ne hmade hcap (h.1 rfl).slots
      | blocked hcap hlen hsock =>
          -- the run ends here
          refine iff_of_true ⟨fun h => h, ?_⟩ ⟨hcap, hlen, Or.inl hsock⟩
          intro t ht
          cases ht
      | stored bt' sock' hcap hlen hsock hsame hoff =>
          -- a put that succeeds says nothing, and the bucket stays as the induction needs it
          have hopen : PutRun.Open (PutRun.mk (s.fs.append s.bt.fd []) bt'
              (s.stored ++ [(p.obj, objectData p.io p.obj)])) := hs.of_sameFile hsame
          have hrest := ih hopen (hmade.put (hslots _ rfl))
          dsimp only at hrest
          rw [hsame.cap] at hrest
          rw [and_iff_right hcap, and_iff_right hlen, or_iff_right hsock, ← hrest]
          constructor
          · intro h
            exact h.2 _ rfl
          · intro h
            have hret : (0 : ℤ) ≠ -1 := by decide
            refine ⟨fun h0 => absurd h0 hret, ?_⟩
            intro t ht
            cases ht
            exact h

/-- A bucket that was just made leads to no list. -/
theorem bucketCreate_listsMade {fs fs' : Fs} {chance : FsChance} {name : CharPtr}
    {maxLength start stop : UInt64} {bt : Bucket}
    (h : bucketCreate fs chance name maxLength start stop = .ok (some bt, fs')) :
    bt.ListsMade := by
  simp only [bucketCreate] at h
  split at h
  · cases h
  · simp only [Outcome.bind_eq_ok] at h
    obtain ⟨_, -, _, -, cache, hcache, h⟩ := h
    cases h
    intro a ha
    dsimp only at ha
    rw [vectorInit_tables hcache] at ha
    cases List.eq_of_mem_replicate ha

/-- **A failed put changes the bucket, so none may fail.**  For any bucket and any sequence of puts:
every put that returns -1 leaves the slots of the cache and their lists, the offset, the length,
the index, the descriptor and the data file as they were, with nothing undefined on the way,
exactly when the data file may not hold anything, so that the first put ends the process, or no put
of the run fails. -/
theorem puts_failureKeeps_iff {fs fs' : Fs} {chance : FsChance} {name : CharPtr}
    {maxLength start stop : UInt64} {bt : Bucket}
    (hcreate : bucketCreate fs chance name maxLength start stop = .ok (some bt, fs'))
    (ps : List Put) :
    Outcome.EachCall FailureKeeps putStep ps (PutRun.start fs' bt) ↔
      maxLength = 0 ∨ NoneRefused (stop - start).toNat ps := by
  obtain ⟨-, -, -, -, hmax, hcur, -, -, -, hsize, hcap⟩ := bucketCreate_ok hcreate
  by_cases hzero : maxLength = 0
  · subst hzero
    refine iff_of_true ?_ (Or.inl rfl)
    cases ps with
    | nil => exact Outcome.eachCall_nil
    | cons p ps =>
        have habort : bucketPut fs' p.io bt p.obj = .error .abort :=
          bucketPut_of_maxLength_eq_zero hcreate p.io p.obj
        rw [Outcome.eachCall_cons, FailureKeeps, putStep, putObject, PutRun.start, habort]
        refine ⟨fun h => h, ?_⟩
        intro t ht
        cases ht
  · have hopen : (PutRun.start fs' bt).Open := by
      refine ⟨?_, hsize⟩
      rw [PutRun.start, hcur, hmax]
      exact UInt64.pos_iff_ne_zero.2 hzero
    rw [eachCall_failureKeeps_iff ps hopen (bucketCreate_listsMade hcreate), or_iff_right hzero,
      PutRun.start, hcap]

/-- The put of an object without data. -/
def emptyPut : Put :=
  { io := oneByteUpload.io
    obj := bucketObjectInit 0 0 (List.replicate 32 48) 1 0 }

/-- The result applied to a bucket of 511 slots, and one put of an object without data. -/
theorem puts_failureKeeps_iff_empty :
    ∃ bt fs', bucketCreate Fs.empty { openFails := false, fallocateFails := false } (.mem [98, 0])
        4096 0 511 = .ok (some bt, fs') ∧
      (Outcome.EachCall FailureKeeps putStep [emptyPut] (PutRun.start fs' bt) ↔
        (4096 : UInt64) = 0 ∨ NoneRefused ((511 : UInt64) - 0).toNat [emptyPut]) := by
  obtain ⟨bt, fs', h⟩ := bucketCreate_b_isOk
  exact ⟨bt, fs', h, puts_failureKeeps_iff h _⟩

/-- A put of an object without data fails, and leaves a list in the cache. -/
theorem emptyPut_not_failureKeeps :
    ∃ bt fs', bucketCreate Fs.empty { openFails := false, fallocateFails := false } (.mem [98, 0])
        4096 0 511 = .ok (some bt, fs') ∧
      (∃ bt' fs'' sock', bucketPut fs' emptyPut.io bt emptyPut.obj = .ok (-1, bt', fs'', sock') ∧
        bt'.cache.tables ≠ bt.cache.tables) ∧
      ¬ Outcome.EachCall FailureKeeps putStep [emptyPut] (PutRun.start fs' bt) := by
  obtain ⟨bt, fs', h⟩ := bucketCreate_b_isOk
  have hs := (reserved_start h fun _ _ => rfl).isOpen
  have hmade := bucketCreate_listsMade h
  have hcap : bt.cache.cap = 511 := (bucketCreate_ok h).2.2.2.2.2.2.2.2.2.2
  have hhash : emptyPut.obj.objHash.toNat < bt.cache.cap := by
    rw [hcap]
    decide
  have hempty : ¬ Accepted emptyPut.obj.dataLen := by decide
  refine ⟨bt, fs', h, bucketPut_refused hs.notFull hs.hidden hmade hhash hempty, ?_⟩
  rw [eachCall_failureKeeps_iff _ hs hmade, NoneRefused]
  exact fun hnone => hempty hnone.2.1
