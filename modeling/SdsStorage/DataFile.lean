/-
**The data file of a bucket.**

A bucket switches to a new data file when the length it has counted reaches the limit, and keeps a
descriptor on the file it has open.  Nothing is ever appended and nothing is ever counted, so the
count is right and no file is ever left.  The new file would be made under the index of the old
one, which exists: a full bucket could not be switched, and the call that tries keeps the lock.
What does go wrong is the start: `bucket_create` takes a file that is there already for a failure,
and returns a bucket without a descriptor.

Main definitions:

* `FileRun`, `accountPut` — a run of puts, with what was appended to the data file since it was
  opened;
* `Accounted`, `Switched` — the count is right, and a put on a full bucket goes to a new file;
* `BucketCall`, `bucketCall` — the calls that use the data file;
* `OnFile`, `CheckTruthful`, `DescriptorSound` — the descriptor matches the name and the index.

Main results:

* `bucketCheckDataFd_full` — a check of a full bucket fails, and keeps the lock;
* `bucketPut_switched` — a put on a full bucket writes to a file that was not there before;
* `puts_accounted` — **the count of every run is right**;
* `descriptorSound_iff` — **the descriptor matches the file exactly when there was none**.
-/

import SdsStorage.PutStatus
import SdsStorage.DataFilePath

set_option relaxedAutoImplicit false
set_option autoImplicit false

/-! ### Switching -/

/-- What a call to `bucket_create_data_fd` that returns comes to. -/
theorem bucketCreateDataFd_ok {fs fs' : Fs} {chance : FsChance} {name : Slice}
    {index maxLength : UInt64} {fd : ℤ}
    (h : bucketCreateDataFd fs chance name index maxLength = .ok (fs', fd)) :
    ∃ file, dataFileName name index = .ok file ∧
      ((fs.files file ≠ none ∧ fd = -1 ∧ fs' = fs) ∨
        (fs.files file = none ∧ fs'.fileOf fd = some file ∧
          ∀ other, other ≠ file → fs'.files other = fs.files other)) := by
  rw [bucketCreateDataFd] at h
  rw [Outcome.bind_eq_ok] at h
  obtain ⟨file, hfile, h⟩ := h
  refine ⟨file, hfile, ?_⟩
  cases hold : fs.files file with
  | some content =>
      rw [hold] at h
      cases h
      exact Or.inl ⟨by simp, rfl, rfl⟩
  | none =>
      rw [hold] at h
      dsimp only at h
      split at h
      · cases h
      · rename_i hret
        cases h
        have hall : (fs.openAppend file chance.openFails).1.fallocate
            (fs.openAppend file chance.openFails).2 (CInt.toInt64 maxLength.toNat)
            chance.fallocateFails = (_, 0) := Prod.ext rfl (not_not.1 hret)
        obtain ⟨name', hopen, hafter, hother⟩ := Fs.fallocate_ok hall
        refine Or.inr ⟨rfl, ?_⟩
        cases hfails : chance.openFails with
        | true =>
            rw [hfails] at hopen
            simp [Fs.openAppend] at hopen
        | false =>
            rw [hfails] at hopen hafter hother
            rw [Fs.openAppend_fd] at hopen
            cases hopen
            refine ⟨hafter, ?_⟩
            intro other hne
            rw [hother other hne]
            exact Fs.setFile_files_ne fs _ hne

/-- A full bucket has nowhere to go: the file of its index is there already.  The check closes the
descriptor, fails, and keeps the lock. -/
theorem bucketCheckDataFd_full {fs : Fs} (chance : FsChance) {bt : Bucket} {file : Bytes}
    (hfull : bt.dataFileMaxLength ≤ bt.dataFileCurLength) (hlock : bt.lock = false)
    (hname : dataFileName bt.name bt.index = .ok file) (hexists : fs.files file ≠ none) :
    bucketCheckDataFd fs chance bt =
      .ok (-1, { bt with lock := true }, if bt.fd ≠ -1 then fs.close bt.fd else fs) := by
  have hfiles : (if bt.fd ≠ -1 then fs.close bt.fd else fs).files = fs.files := by
    split
    · exact Fs.close_files fs bt.fd
    · rfl
  obtain ⟨content, hcontent⟩ := Option.ne_none_iff_exists'.1 hexists
  have hmade : bucketCreateDataFd (if bt.fd ≠ -1 then fs.close bt.fd else fs) chance bt.name
      bt.index bt.dataFileMaxLength = .ok (if bt.fd ≠ -1 then fs.close bt.fd else fs, -1) := by
    rw [bucketCreateDataFd, hname, Outcome.ok_bind, hfiles, hcontent]
  rw [bucketCheckDataFd, if_pos hfull, hlock, if_neg Bool.false_ne_true]
  dsimp only
  rw [hmade]
  rfl

/-- A put left the data file for another, which was not there before: the index has moved, the
descriptor is open on the new file, and no other file has changed. -/
structure Switched (fs : Fs) (bt : Bucket) (fs' : Fs) (bt' : Bucket) : Prop where
  index : bt'.index = bt.index + 1
  opened : ∃ file, fs.files file = none ∧ fs'.fileOf bt'.fd = some file ∧
    ∀ other, other ≠ file → fs'.files other = fs.files other

/-- A check of a full bucket that succeeds has switched. -/
theorem bucketCheckDataFd_switched {fs fs' : Fs} {chance : FsChance} {bt bt' : Bucket}
    (hfull : bt.dataFileMaxLength ≤ bt.dataFileCurLength)
    (h : bucketCheckDataFd fs chance bt = .ok (0, bt', fs')) : Switched fs bt fs' bt' := by
  rw [bucketCheckDataFd, if_pos hfull] at h
  split at h
  · cases h
  · rw [Outcome.bind_eq_ok] at h
    obtain ⟨⟨fs₁, fd⟩, hmade, h⟩ := h
    have hfiles : (if bt.fd ≠ -1 then fs.close bt.fd else fs).files = fs.files := by
      split
      · exact Fs.close_files fs bt.fd
      · rfl
    obtain ⟨file, -, hcases⟩ := bucketCreateDataFd_ok hmade
    rw [hfiles] at hcases
    dsimp only at h
    by_cases hfd : fd = -1
    · rw [if_pos hfd] at h
      cases h
    · rw [if_neg hfd] at h
      cases h
      rcases hcases with ⟨-, hnone, -⟩ | hopened
      · exact absurd hnone hfd
      · exact ⟨rfl, file, hopened⟩

theorem bucketList_fd {bt bt' : Bucket} {obj : BucketObject} {lt : Addr}
    (h : bucketList bt obj = .ok (bt', lt)) : bt'.fd = bt.fd ∧ bt'.index = bt.index := by
  rw [bucketList] at h
  split at h
  · cases h
    exact ⟨rfl, rfl⟩
  · cases hinsert : vectorInsert bt.cache obj.objHash.toNat (some (listCreate bt.lists).2) with
    | error f =>
        rw [hinsert] at h
        cases h
    | ok cache =>
        rw [hinsert] at h
        cases h
        exact ⟨rfl, rfl⟩

theorem bucketRecord_fd {bt bt' : Bucket} {obj : BucketObject} {lt : Addr}
    (h : bucketRecord bt lt obj = .ok bt') : bt'.fd = bt.fd ∧ bt'.index = bt.index := by
  rw [bucketRecord] at h
  cases hadd : listAdd (listNodeCreate bt.lists obj).1 (some lt) (listNodeCreate bt.lists obj).2
    with
  | error f =>
      simp only [hadd] at h
      cases h
  | ok lists =>
      simp only [hadd] at h
      cases h
      exact ⟨rfl, rfl⟩

/-- A put that returns has checked the data file, and appended to the one it was given. -/
theorem bucketPut_ok {fs : Fs} {io : PutIo} {bt : Bucket} {obj : BucketObject}
    {r : ℤ × Bucket × Fs × Source} (h : bucketPut fs io bt obj = .ok r) :
    ∃ bt₀ fs₀ sent, bucketCheckDataFd fs io.chance bt = .ok (0, bt₀, fs₀) ∧
      r.2.2.1 = fs₀.append bt₀.fd sent ∧ r.2.1.fd = bt₀.fd ∧ r.2.1.index = bt₀.index := by
  rw [bucketPut] at h
  rw [Outcome.bind_eq_ok] at h
  obtain ⟨⟨status, bt₀, fs₀⟩, hcheck, h⟩ := h
  dsimp only at h
  split at h
  -- a check that fails ends the process
  · cases h
  · rename_i hstatus
    obtain rfl : status = 0 := not_not.1 hstatus
    rw [Outcome.bind_eq_ok] at h
    obtain ⟨⟨bt₁, lt⟩, hlist, h⟩ := h
    rw [Outcome.bind_eq_ok] at h
    obtain ⟨written, -, h⟩ := h
    obtain ⟨hfd, hindex⟩ := bucketList_fd hlist
    refine ⟨bt₀, fs₀, written.2.2.sent, hcheck, ?_⟩
    dsimp only at h
    split at h
    · cases h
      exact ⟨by rw [hfd], hfd, hindex⟩
    · rw [Outcome.bind_eq_ok] at h
      obtain ⟨bt₂, hrecord, h⟩ := h
      obtain ⟨hfd', hindex'⟩ := bucketRecord_fd hrecord
      cases h
      exact ⟨by rw [hfd], hfd'.trans hfd, hindex'.trans hindex⟩

/-- **A put on a full bucket writes to a file that was not there before**, whatever bucket it is. -/
theorem bucketPut_switched {fs : Fs} {io : PutIo} {bt : Bucket} {obj : BucketObject}
    {r : ℤ × Bucket × Fs × Source} (hfull : bt.dataFileMaxLength ≤ bt.dataFileCurLength)
    (h : bucketPut fs io bt obj = .ok r) : Switched fs bt r.2.2.1 r.2.1 := by
  obtain ⟨bt₀, fs₀, sent, hcheck, hfs, hfd, hindex⟩ := bucketPut_ok h
  obtain ⟨hmoved, file, hnone, hopen, hother⟩ := bucketCheckDataFd_switched hfull hcheck
  refine ⟨hindex.trans hmoved, file, hnone, ?_, ?_⟩
  · rw [hfs, hfd, Fs.fileOf_append, hopen]
  · intro other hne
    rw [hfs, Fs.append_files_ne hopen sent hne, hother other hne]

/-- A put that returns from a bucket that is not full leaves its data file as it was. -/
theorem bucketPut_sameFile {fs : Fs} {io : PutIo} {bt : Bucket} {obj : BucketObject}
    {r : ℤ × Bucket × Fs × Source} (hfull : bt.dataFileCurLength < bt.dataFileMaxLength)
    (hsize : bt.cache.size = 0) (h : bucketPut fs io bt obj = .ok r) :
    bt.SameFile r.2.1 ∧ r.2.2.1 = fs.append bt.fd [] := by
  have hresult := bucketPut_result fs io obj hfull hsize
  rw [h] at hresult
  cases hresult with
  | refused _ _ _ hsame _ => exact ⟨hsame, rfl⟩
  | stored _ _ _ _ _ hsame _ => exact ⟨hsame, rfl⟩

/-! ### Accounting -/

/-- A run of puts on a bucket, with what its data file held when it was opened, and what each put
has appended to it since. -/
structure FileRun where
  fs : Fs
  bt : Bucket
  opened : Bytes
  appended : List Bytes

/-- What the data file of a bucket holds. -/
def dataFileBytes (fs : Fs) (bt : Bucket) : Bytes := (fs.contents bt.fd).getD []

/-- The state a run starts from. -/
def FileRun.start (fs : Fs) (bt : Bucket) : FileRun :=
  { fs := fs, bt := bt, opened := dataFileBytes fs bt, appended := [] }

/-- The bucket is full: its count has reached the limit. -/
def Bucket.Full (bt : Bucket) : Prop := bt.dataFileMaxLength ≤ bt.dataFileCurLength

instance (bt : Bucket) : Decidable bt.Full := inferInstanceAs (Decidable (_ ≤ _))

/-- One put of a run.  A full bucket is checked first, and what follows is appended to the file it
was switched to. -/
def accountPut (s : FileRun) (p : Put) : Outcome FileRun := do
  let checked ← bucketCheckDataFd s.fs p.io.chance s.bt
  let r ← bucketPut s.fs p.io s.bt p.obj
  let before := dataFileBytes checked.2.2 checked.2.1
  let chunk := (dataFileBytes r.2.2.1 r.2.1).drop before.length
  .ok (if s.bt.Full then { fs := r.2.2.1, bt := r.2.1, opened := before, appended := [chunk] }
    else { fs := r.2.2.1, bt := r.2.1, opened := s.opened, appended := s.appended ++ [chunk] })

/-- The runs are those of `bucket_put`. -/
theorem accountPut_iff {s : FileRun} {p : Put} {fs' : Fs} {bt' : Bucket} :
    (∃ t, accountPut s p = .ok t ∧ t.fs = fs' ∧ t.bt = bt') ↔
      ∃ status sock, bucketPut s.fs p.io s.bt p.obj = .ok (status, bt', fs', sock) := by
  constructor
  · rintro ⟨t, ht, rfl, rfl⟩
    rw [accountPut] at ht
    simp only [Outcome.bind_eq_ok] at ht
    obtain ⟨checked, -, ⟨status, bt₁, fs₁, sock⟩, hput, ht⟩ := ht
    refine ⟨status, sock, ?_⟩
    split at ht
    · cases ht
      exact hput
    · cases ht
      exact hput
  · rintro ⟨status, sock, hput⟩
    obtain ⟨bt₀, fs₀, -, hcheck, -⟩ := bucketPut_ok hput
    rw [accountPut, hcheck, hput, Outcome.ok_bind, Outcome.ok_bind]
    split
    · exact ⟨_, rfl, rfl, rfl⟩
    · exact ⟨_, rfl, rfl, rfl⟩

/-- The count is right: the data file holds what it held when it was opened and what was appended
since, the bucket has counted what was appended, and the limit was not reached before the last of
the puts. -/
structure Accounted (s : FileRun) : Prop where
  bytes_eq : dataFileBytes s.fs s.bt = s.opened ++ s.appended.flatten
  curLength_eq : s.bt.dataFileCurLength.toNat = s.appended.flatten.length
  one_over : s.appended.dropLast.flatten.length < s.bt.dataFileMaxLength.toNat

/-- What holds throughout a run: nothing is ever counted, and nothing was ever appended. -/
structure NothingAppended (s : FileRun) : Prop where
  notFull : s.bt.dataFileCurLength = 0 ∧ 0 < s.bt.dataFileMaxLength
  hidden : s.bt.cache.size = 0
  bytes_eq : dataFileBytes s.fs s.bt = s.opened
  appended_nil : s.appended.flatten = []

theorem NothingAppended.accounted {s : FileRun} (h : NothingAppended s) : Accounted s where
  bytes_eq := by rw [h.bytes_eq, h.appended_nil, List.append_nil]
  curLength_eq := by
    rw [h.notFull.1, h.appended_nil]
    rfl
  one_over := by
    have hpos := UInt64.lt_iff_toNat_lt.1 h.notFull.2
    have hshorter := (List.dropLast_prefix s.appended).sublist.flatten.length_le
    rw [h.appended_nil, List.length_nil, Nat.le_zero] at hshorter
    rw [hshorter]
    exact hpos

theorem NothingAppended.not_full {s : FileRun} (h : NothingAppended s) : ¬ s.bt.Full := by
  rw [Bucket.Full, UInt64.not_le, h.notFull.1]
  exact h.notFull.2

/-- A put keeps it so. -/
theorem NothingAppended.step {s t : FileRun} (h : NothingAppended s) {p : Put}
    (ht : accountPut s p = .ok t) : NothingAppended t := by
  have hfull : s.bt.dataFileCurLength < s.bt.dataFileMaxLength := UInt64.not_le.1 h.not_full
  rw [accountPut] at ht
  simp only [Outcome.bind_eq_ok, if_neg h.not_full] at ht
  obtain ⟨checked, hcheck, ⟨status, bt', fs', sock'⟩, hput, ht⟩ := ht
  -- a bucket that is not full keeps its file
  rw [bucketCheckDataFd, if_neg (UInt64.not_le.2 hfull)] at hcheck
  cases hcheck
  cases ht
  obtain ⟨hsame, rfl⟩ : s.bt.SameFile bt' ∧ fs' = s.fs.append s.bt.fd [] :=
    bucketPut_sameFile hfull h.hidden hput
  have hbytes : dataFileBytes (s.fs.append s.bt.fd []) bt' = dataFileBytes s.fs s.bt := by
    rw [dataFileBytes, dataFileBytes, hsame.fd, Fs.getD_contents_append_nil]
  -- the count is kept with the file, and the new piece is empty
  refine ⟨?_, hsame.size.trans h.hidden, hbytes.trans h.bytes_eq, ?_⟩
  · dsimp only
    rw [hsame.curLength, hsame.maxLength]
    exact h.notFull
  · dsimp only
    rw [List.flatten_append, h.appended_nil, hbytes, List.drop_length]
    rfl

theorem nothingAppended_start {fs fs' : Fs} {chance : FsChance} {name : CharPtr}
    {maxLength start stop : UInt64} {bt : Bucket}
    (hcreate : bucketCreate fs chance name maxLength start stop = .ok (some bt, fs'))
    (hmax : 0 < maxLength) : NothingAppended (FileRun.start fs' bt) := by
  obtain ⟨-, -, -, -, hmaxLength, hcur, -, -, -, hsize, -⟩ := bucketCreate_ok hcreate
  exact ⟨⟨hcur, by rw [FileRun.start, hmaxLength]; exact hmax⟩, hsize, rfl, rfl⟩

/-- **The count of every run is right.**  For every bucket with a data file of positive length and
every sequence of puts: in the state they lead to, the bucket has counted the bytes that were
appended to its data file since it was opened; the limit was not reached before the last of them;
and when it is reached now, a put that returns has switched to a file that was not there before. -/
theorem puts_accounted {fs fs' : Fs} {chance : FsChance} {name : CharPtr}
    {maxLength start stop : UInt64} {bt : Bucket}
    (hcreate : bucketCreate fs chance name maxLength start stop = .ok (some bt, fs'))
    (hmax : 0 < maxLength) {ps : List Put} {s : FileRun}
    (hrun : ps.foldlM accountPut (FileRun.start fs' bt) = .ok s) :
    Accounted s ∧ ∀ (p : Put) (r : ℤ × Bucket × Fs × Source), s.bt.Full →
      bucketPut s.fs p.io s.bt p.obj = .ok r → Switched s.fs s.bt r.2.2.1 r.2.1 := by
  have hs : NothingAppended s := Outcome.foldlM_ok_inv hrun (nothingAppended_start hcreate hmax)
    fun _ _ _ _ ht h => h.step ht
  exact ⟨hs.accounted, fun p r hfull hput => bucketPut_switched hfull hput⟩

/-- A put within the cache returns, when something arrives on the socket. -/
theorem bucketPut_isOk {fs : Fs} {io : PutIo} {bt : Bucket} {obj : BucketObject}
    (hfull : bt.dataFileCurLength < bt.dataFileMaxLength) (hsize : bt.cache.size = 0)
    (hcap : obj.objHash.toNat < bt.cache.cap) (hsock : ¬ io.sock.Silent) :
    ∃ r, bucketPut fs io bt obj = .ok r := by
  have hresult := bucketPut_result fs io obj hfull hsize
  generalize bucketPut fs io bt obj = r at hresult ⊢
  cases hresult with
  | outside hout => omega
  | refused bt' => exact ⟨_, rfl⟩
  | blocked _ _ hsilent => exact absurd hsilent hsock
  | stored bt' sock' => exact ⟨_, rfl⟩

/-- The result applied to a bucket with a data file of 4096 bytes, and the put of one byte. -/
theorem puts_accounted_oneByte :
    ∃ bt fs' s, bucketCreate Fs.empty { openFails := false, fallocateFails := false }
        (.mem [98, 0]) 4096 0 511 = .ok (some bt, fs') ∧
      [oneBytePut].foldlM accountPut (FileRun.start fs' bt) = .ok s ∧ Accounted s ∧
      ∀ (p : Put) (r : ℤ × Bucket × Fs × Source), s.bt.Full →
        bucketPut s.fs p.io s.bt p.obj = .ok r → Switched s.fs s.bt r.2.2.1 r.2.1 := by
  obtain ⟨bt, fs', h⟩ := bucketCreate_b_isOk
  have hmax : (0 : UInt64) < 4096 := by decide
  have hcap : bt.cache.cap = 511 := (bucketCreate_ok h).2.2.2.2.2.2.2.2.2.2
  have hstart := nothingAppended_start h hmax
  have hhash : oneBytePut.obj.objHash.toNat < bt.cache.cap := by
    rw [hcap]
    decide
  have hsock : ¬ oneBytePut.io.sock.Silent := by decide
  obtain ⟨⟨status, bt', fs'', sock'⟩, hput⟩ : ∃ r, bucketPut fs' oneBytePut.io bt oneBytePut.obj =
      .ok r := bucketPut_isOk (UInt64.not_le.1 hstart.not_full) hstart.hidden hhash hsock
  obtain ⟨s, hs, -⟩ :=
    (accountPut_iff (s := FileRun.start fs' bt) (p := oneBytePut)).2 ⟨status, sock', hput⟩
  have hrun : [oneBytePut].foldlM accountPut (FileRun.start fs' bt) = .ok s := by
    rw [List.foldlM_cons]
    exact Outcome.bind_eq_ok.2 ⟨s, hs, rfl⟩
  exact ⟨bt, fs', s, h, hrun, puts_accounted h hmax hrun⟩

/-! ### The descriptor -/

/-- The calls that use the data file of a bucket. -/
inductive BucketCall where
  | put (p : Put)
  | check (chance : FsChance)

/-- A call on a bucket in its file system. -/
def bucketCall (s : Fs × Bucket) : BucketCall → Outcome (Fs × Bucket)
  | .put p => do
      let r ← bucketPut s.1 p.io s.2 p.obj
      .ok (r.2.2.1, r.2.1)
  | .check chance => do
      let r ← bucketCheckDataFd s.1 chance s.2
      .ok (r.2.2, r.2.1)

/-- The descriptor of a bucket named `base` is open on the file of the bucket's index. -/
def OnFile (base : Bytes) (s : Fs × Bucket) : Prop :=
  s.1.fileOf s.2.fd = some (base ++ [46] ++ CString.decimalNat s.2.index.toNat)

/-- What a call to `bucket_check_data_fd` in the state `s` reports is what it did. -/
structure CheckTruthful (base : Bytes) (s : Fs × Bucket) (r : ℤ × Bucket × Fs) : Prop where
  success : r.1 = 0 → OnFile base (r.2.2, r.2.1) ∧
    r.2.1.index = if s.2.Full then s.2.index + 1 else s.2.index
  failure : r.1 ≠ 0 → r.2.1.fd = s.2.fd ∧ r.2.2.fileOf r.2.1.fd = s.1.fileOf s.2.fd ∧
    (s.1.fileOf s.2.fd).isSome ∧ r.2.1.index = s.2.index
  unlocked : r.2.1.lock = false

/-- The descriptor matches the file and the lock is free, of a bucket that was just made and after
every check in every state that calls lead to from there. -/
structure DescriptorSound (base : Bytes) (s : Fs × Bucket) : Prop where
  created : OnFile base s ∧ s.2.lock = false
  checked : ∀ (cs : List BucketCall) (t : Fs × Bucket) (chance : FsChance),
    cs.foldlM bucketCall s = .ok t →
      Outcome.Holds (CheckTruthful base t) (bucketCheckDataFd t.1 chance t.2)

/-- What holds throughout when the bucket was made on a new file. -/
structure FirstFile (base : Bytes) (s : Fs × Bucket) : Prop where
  onFile : s.1.fileOf s.2.fd = some (base ++ [46] ++ CString.decimalNat s.2.index.toNat)
  notFull : s.2.dataFileCurLength < s.2.dataFileMaxLength
  hidden : s.2.cache.size = 0
  unlocked : s.2.lock = false

section

variable {base : Bytes} {s t : Fs × Bucket}

theorem FirstFile.check (h : FirstFile base s) (chance : FsChance) :
    bucketCheckDataFd s.1 chance s.2 = .ok (0, s.2, s.1) := by
  rw [bucketCheckDataFd, if_neg (UInt64.not_le.2 h.notFull)]

/-- A call keeps it so. -/
theorem FirstFile.step (h : FirstFile base s) {c : BucketCall} (ht : bucketCall s c = .ok t) :
    FirstFile base t := by
  cases c with
  | check chance =>
      rw [bucketCall, h.check chance] at ht
      cases ht
      exact h
  | put p =>
      rw [bucketCall] at ht
      rw [Outcome.bind_eq_ok] at ht
      obtain ⟨r, hput, ht⟩ := ht
      cases ht
      have hslots := bucketPut_slots h.notFull h.hidden hput
      obtain ⟨hsame, hfs⟩ := bucketPut_sameFile h.notFull h.hidden hput
      refine ⟨?_, ?_, hsame.size.trans h.hidden, hslots.lock.trans h.unlocked⟩
      · dsimp only
        rw [hfs, hsame.fd, Fs.fileOf_append, hslots.index]
        exact h.onFile
      · dsimp only
        rw [hsame.curLength, hsame.maxLength]
        exact h.notFull

theorem FirstFile.descriptorSound (h : FirstFile base s) : DescriptorSound base s where
  created := ⟨h.onFile, h.unlocked⟩
  checked := by
    intro cs t chance hrun
    have ht : FirstFile base t := Outcome.foldlM_ok_inv hrun h fun _ _ _ _ hstep hs => hs.step hstep
    rw [ht.check chance, Outcome.holds_ok]
    refine ⟨fun _ => ⟨ht.onFile, ?_⟩, fun hne => absurd rfl hne, ht.unlocked⟩
    have hfull : ¬ t.2.Full := UInt64.not_le.2 ht.notFull
    rw [if_neg hfull]

end

/-- The name of the first data file of a bucket whose name is `base`. -/
theorem dataFileName_zero {name : Slice} {base file : Bytes} (hrep : name.Represents base)
    (h : dataFileName name 0 = .ok file) :
    file = base ++ [46, 48] ↔ base ≠ [] ∧ base.length ≤ 4093 := by
  have hzero : CString.decimal (CInt.toInt32 ((0 : UInt64).toNat : ℤ)) = [48] := by decide
  rw [dataFileName, hrep.value_eq, hzero] at h
  by_cases hnil : base = []
  -- an empty slice has no data, and a null pointer is printed in words
  · subst hnil
    have hnull : CString.percentS .null = .ok [40, 110, 117, 108, 108, 41] := rfl
    rw [if_pos rfl, hnull, Outcome.ok_bind] at h
    cases h
    exact iff_of_false (by decide) fun h => h.1 rfl
  · rw [if_neg hnil, CString.cstr, CString.percentS_append hrep.noNul, Outcome.ok_bind] at h
    cases h
    rw [CString.snprintf, List.append_assoc, List.singleton_append, List.take_eq_self_iff]
    simp only [List.length_append, List.length_cons, List.length_nil, ne_eq, hnil,
      not_false_eq_true, true_and]
    omega

/-- What became of the first data file of a bucket: it was there already, or the descriptor is open
on it. -/
theorem bucketCreate_file {base : Bytes} (hbase : CString.NoNul base) {t : Bytes} {fs fs' : Fs}
    {chance : FsChance} {maxLength start stop : UInt64} {bt : Bucket}
    (hcreate : bucketCreate fs chance (.mem (base ++ 0 :: t)) maxLength start stop =
      .ok (some bt, fs')) :
    ∃ file, (file = base ++ [46, 48] ↔ base ≠ [] ∧ base.length ≤ 4093) ∧
      ((fs.files file ≠ none ∧ bt.fd = -1) ∨
        (fs.files file = none ∧ 0 < maxLength ∧ fs'.fileOf bt.fd = some file)) := by
  obtain ⟨⟨status, hslice⟩, hfd, -⟩ := bucketCreate_ok hcreate
  obtain ⟨name, hname, hrep⟩ := sliceInit_cstr hbase t
  rw [hname] at hslice
  cases hslice
  obtain ⟨file, hfile, hcases⟩ := bucketCreateDataFd_ok hfd
  refine ⟨file, dataFileName_zero hrep hfile, ?_⟩
  rcases hcases with ⟨hold, hnone, -⟩ | ⟨hfresh, hopen, -⟩
  · exact Or.inl ⟨hold, hnone⟩
  · refine Or.inr ⟨hfresh, (bucketCreateDataFd_fresh hfd ?_).1, hopen⟩
    intro other hother
    rw [hfile] at hother
    cases hother
    exact hfresh

/-- **The descriptor matches the file exactly when there was none.**  For every state of the file
system and every bucket that is made in it: the descriptor is open on the file of the bucket's name
and index, with the lock free, when it is made and after every call of the check from every state
the bucket can reach, exactly when its name is not empty and fits the buffer its file's name is
printed into, and no file of that name is there yet. -/
theorem descriptorSound_iff {base : Bytes} (hbase : CString.NoNul base) {t : Bytes} {fs fs' : Fs}
    {chance : FsChance} {maxLength start stop : UInt64} {bt : Bucket}
    (hcreate : bucketCreate fs chance (.mem (base ++ 0 :: t)) maxLength start stop =
      .ok (some bt, fs')) :
    DescriptorSound base (fs', bt) ↔
      base ≠ [] ∧ base.length ≤ 4093 ∧ fs.files (base ++ [46, 48]) = none := by
  obtain ⟨-, -, -, -, hmax, hcur, hindex, -, hlock, hsize, -⟩ := bucketCreate_ok hcreate
  obtain ⟨file, hiff, hcases⟩ := bucketCreate_file hbase hcreate
  have hname : base ++ [46] ++ CString.decimalNat bt.index.toNat = base ++ [46, 48] := by
    have hzero : CString.decimalNat (0 : UInt64).toNat = [48] := by decide
    rw [hindex, hzero, List.append_assoc, List.singleton_append]
  constructor
  -- being open on the file when the bucket is made is enough
  · rintro ⟨⟨hon, -⟩, -⟩
    rw [OnFile, hname] at hon
    rcases hcases with ⟨-, hnone⟩ | ⟨hfresh, -, hopen⟩
    · rw [hnone, Fs.fileOf_neg_one] at hon
      cases hon
    · rw [hopen] at hon
      cases hon
      obtain ⟨hne, hlen⟩ := hiff.1 rfl
      exact ⟨hne, hlen, hfresh⟩
  · rintro ⟨hne, hlen, hfresh⟩
    obtain rfl := hiff.2 ⟨hne, hlen⟩
    rcases hcases with ⟨hold, -⟩ | ⟨-, hpos, hopen⟩
    · exact absurd hfresh hold
    · refine FirstFile.descriptorSound ⟨?_, ?_, hsize, hlock⟩
      · rw [hname]
        exact hopen
      · dsimp only
        rw [hcur, hmax]
        exact hpos

/-- The result applied to a bucket named `b` in an empty file system. -/
theorem descriptorSound_iff_b :
    ∃ bt fs', bucketCreate Fs.empty { openFails := false, fallocateFails := false }
        (.mem ([98] ++ 0 :: [])) 4096 0 511 = .ok (some bt, fs') ∧
      (DescriptorSound [98] (fs', bt) ↔ ([98] : Bytes) ≠ [] ∧ ([98] : Bytes).length ≤ 4093 ∧
        Fs.empty.files ([98] ++ [46, 48]) = none) := by
  obtain ⟨bt, fs', h⟩ := bucketCreate_b_isOk
  exact ⟨bt, fs', h, descriptorSound_iff (by decide) h⟩

/-- A file system in which the data file of a bucket named `b` is there already. -/
def fsWithB : Fs := Fs.empty.setFile [98, 46, 48] []

/-- A bucket that is made there has no descriptor. -/
theorem fsWithB_not_descriptorSound :
    ∃ bt fs', bucketCreate fsWithB { openFails := false, fallocateFails := false }
        (.mem ([98] ++ 0 :: [])) 4096 0 511 = .ok (some bt, fs') ∧ bt.fd = -1 ∧
      ¬ DescriptorSound [98] (fs', bt) := by
  have hmax : Accepted 4096 := by decide
  have hserves : callocServes ((511 : UInt64) - 0).toNat := by decide
  have hname : CString.NoNul [98] := by decide
  obtain ⟨bt, fs', h⟩ := bucketCreate_isOk fsWithB hname [] hmax hserves
  obtain ⟨file, hiff, hcases⟩ := bucketCreate_file hname h
  obtain rfl := hiff.2 ⟨by decide, by decide⟩
  have hfd : bt.fd = -1 := by
    rcases hcases with ⟨-, hfd⟩ | ⟨hfresh, -⟩
    · exact hfd
    · cases hfresh
  refine ⟨bt, fs', h, hfd, ?_⟩
  rintro ⟨⟨hon, -⟩, -⟩
  rw [OnFile, hfd, Fs.fileOf_neg_one] at hon
  cases hon
