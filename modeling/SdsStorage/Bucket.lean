/-
**Buckets.**

A bucket owns a data file, which it appends objects to, and a cache that maps an object to the list
of the objects put under its slot.  `bucket_put` switches the data file when it is full, looks the
slot up, lets `write_bucket_object` copy the object's data from the client's socket to the data
file, and then records the object.

Main definitions:

* `BucketObject`, `bucketObjectInit` — an object's metadata;
* `Bucket`, `bucketCreateDataFd`, `bucketCreate`, `bucketCheckDataFd` — a bucket and its data file;
* `writeBucketObject` — the copy loop;
* `bucketSlot`, `bucketPut` — the put.

Main results:

* `writeBucketObject_accepted` — **nothing is ever copied, and a put object is reported stored
  when its length is positive as a signed number**;
* `bucketCreate_ok` — what a new bucket looks like;
* `bucketPut_result` — what a put does to a bucket whose data file is not full.
-/

import SdsStorage.CVector
import SdsStorage.FileSystem
import SdsStorage.Hash
import SdsStorage.LinkedList
import SdsStorage.Utils

set_option relaxedAutoImplicit false
set_option autoImplicit false

/-! ### Objects -/

/-- `bucket_object_status`. -/
inductive BucketObjectStatus where
  | online
  | offline
  deriving DecidableEq, Repr

/-- `bucket_object`. -/
structure BucketObject where
  curOffset : UInt64
  status : BucketObjectStatus
  uid : Bytes
  objNameLen : UInt32
  objHash : UInt64
  bucketIndex : UInt32
  dataLen : UInt64
  deriving DecidableEq, Repr

/-- `sizeof(bucket_object)`, in the layout of the x86-64 ABI. -/
def sizeofBucketObject : UInt64 := 72

/-- `BUCKET_OBJECT_UID_LEN`. -/
def bucketObjectUidLen : ℕ := 32

/-- `bucket_object_init` of an object that is not null. -/
def bucketObjectInit (bucketIndex startOffset : UInt64) (objUid : Bytes) (objNameLen : UInt32)
    (dataLen : UInt64) : BucketObject where
  curOffset := startOffset
  status := .online
  uid := objUid.take bucketObjectUidLen
  objNameLen := objNameLen
  objHash := 0
  bucketIndex := bucketIndex.toUInt32
  dataLen := dataLen

/-! ### Buckets and their data files -/

/-- `bucket`.  The lists its cache leads to are kept with it; `lock` says whether its mutex is
held. -/
structure Bucket where
  fd : ℤ
  id : ℤ
  name : Slice
  minRank : UInt64
  maxRank : UInt64
  dataFileMaxLength : UInt64
  dataFileCurLength : UInt64
  index : UInt64
  currentOffset : UInt64
  lock : Bool
  cache : CVector Addr
  lists : ListMem BucketObject

/-- The name `bucket_create_data_fd` builds: `%d` prints the index as an `int`. -/
def dataFileName (name : Slice) (index : UInt64) : Outcome Bytes := do
  let s ← CString.percentS (sliceValue name)
  .ok (CString.snprintf 4096 (s ++ [46] ++ CString.decimal (CInt.toInt32 index.toNat)))

/-- `bucket_create_data_fd`: the file system and the descriptor, -1 for a file that exists. -/
def bucketCreateDataFd (fs : Fs) (chance : FsChance) (name : Slice)
    (index dataFileMaxLength : UInt64) : Outcome (Fs × ℤ) := do
  let file ← dataFileName name index
  match fs.files file with
  | some _ => .ok (fs, -1)
  | none =>
      let (fs, fd) := fs.openAppend file chance.openFails
      let (fs, r) := fs.fallocate fd (CInt.toInt64 dataFileMaxLength.toNat) chance.fallocateFails
      -- the failure is logged at level `LOG_FATAL`, which ends the process
      if r ≠ 0 then .error .abort else .ok (fs, fd)

/-- `bucket_create`: null for a null name. -/
def bucketCreate (fs : Fs) (chance : FsChance) (name : CharPtr)
    (dataFileMaxLength start stop : UInt64) : Outcome (Option Bucket × Fs) :=
  match name with
  | .null => .ok (none, fs)
  | name => do
      let (_, btName) ← sliceInit name
      let (fs, fd) ← bucketCreateDataFd fs chance btName 0 dataFileMaxLength
      let cache ← vectorInit (stop - start).toNat
      .ok (some
        { fd := fd, id := 0, name := btName, minRank := start, maxRank := stop,
          dataFileMaxLength := dataFileMaxLength, dataFileCurLength := 0, index := 0,
          currentOffset := 0, lock := false, cache := cache, lists := ListMem.empty }, fs)

/-- `bucket_check_data_fd`: the status, the bucket and the file system. -/
def bucketCheckDataFd (fs : Fs) (chance : FsChance) (bt : Bucket) : Outcome (ℤ × Bucket × Fs) :=
  if bt.dataFileMaxLength ≤ bt.dataFileCurLength then
    if bt.lock then .error .deadlock
    else do
      let fs := if bt.fd ≠ -1 then fs.close bt.fd else fs
      let (fs, fd) ← bucketCreateDataFd fs chance bt.name bt.index bt.dataFileMaxLength
      -- the early return leaves the lock taken
      if fd = -1 then .ok (-1, { bt with lock := true }, fs)
      else .ok (0, { bt with fd := fd, index := bt.index + 1, lock := false }, fs)
  else .ok (0, bt, fs)

/-! ### The copy loop -/

/-- The local variables of `write_bucket_object` that its loop changes, with the two descriptors it
moves bytes between. -/
structure CopyState where
  readLen : ℤ
  sock : Source
  file : Sink

/-- One turn of the loop of `write_bucket_object`: the buffer is a null pointer throughout. -/
def copyTurn (len : ℤ) (s : CopyState) :
    Loop.Turn CopyState (Outcome (ℤ × CopyState)) :=
  if s.readLen < len then
    match Utils.readN s.sock true (CInt.toUInt64 len) with
    | .error f => .done (.error f)
    | .ok rn =>
        if 0 < rn.readn then
          let wn := Utils.writeN s.file true (fun _ => 0) (CInt.toUInt64 rn.readn)
          .again { readLen := s.readLen + rn.readn, sock := rn.src, file := wn.2.sink }
        else .done (.ok (0, { s with sock := rn.src }))
  else .done (.ok (-1, s))

/-- `write_bucket_object`: the status, and the descriptors after it.  The test of `write_len` after
the loop changes nothing, since both of its branches return `ret`. -/
def writeBucketObject (sock : Source) (file : Sink) (dataLen : UInt64) :
    Outcome (ℤ × Source × Sink) := do
  let len := CInt.toInt64 dataLen.toNat
  let (ret, s) ← (Loop.run (copyTurn len) (len.toNat + 1)
    { readLen := 0, sock := sock, file := file }).getD (.error .blocked)
  .ok (ret, s.sock, s.file)

theorem copyTurn_of_not_lt {len : ℤ} {s : CopyState} (h : ¬ s.readLen < len) :
    copyTurn len s = .done (.ok (-1, s)) := by
  rw [copyTurn, if_neg h]

theorem copyTurn_of_blocked {len : ℤ} {s : CopyState} {f : Fault} (h : s.readLen < len)
    (hread : Utils.readN s.sock true (CInt.toUInt64 len) = .error f) :
    copyTurn len s = .done (.error f) := by
  rw [copyTurn, if_pos h, hread]

theorem copyTurn_of_nothing {len : ℤ} {s : CopyState} {rn : Utils.ReadN} (h : s.readLen < len)
    (hread : Utils.readN s.sock true (CInt.toUInt64 len) = .ok rn) (hrn : rn.readn = 0) :
    copyTurn len s = .done (.ok (0, { s with sock := rn.src })) := by
  rw [copyTurn, if_pos h, hread]
  simp only [hrn, Int.lt_irrefl, if_false]

/-- What the copy returns when its first turn is its last. -/
theorem writeBucketObject_of_done {sock : Source} {file : Sink} {dataLen : UInt64}
    {r : Outcome (ℤ × CopyState)}
    (h : copyTurn (CInt.toInt64 dataLen.toNat) { readLen := 0, sock := sock, file := file } =
      .done r) :
    writeBucketObject sock file dataLen = r.bind fun x => .ok (x.1, x.2.sock, x.2.file) := by
  rw [writeBucketObject]
  generalize CInt.toInt64 dataLen.toNat = len at h ⊢
  simp only [Loop.run_done h, Option.getD_some]
  cases r with
  | error f => rfl
  | ok x => rfl

/-- The length of an object is positive as a signed number. -/
def Accepted (dataLen : UInt64) : Prop := 0 < CInt.toInt64 dataLen.toNat

instance (dataLen : UInt64) : Decidable (Accepted dataLen) := inferInstanceAs (Decidable (_ < _))

theorem accepted_iff (dataLen : UInt64) :
    Accepted dataLen ↔ 0 < dataLen.toNat ∧ dataLen.toNat < 2 ^ 63 := by
  have h := dataLen.toNat_lt
  rw [Accepted]
  generalize dataLen.toNat = n at h ⊢
  rw [CInt.toInt64_eq]
  omega

theorem toUInt64_toInt64_pos {dataLen : UInt64} (h : Accepted dataLen) :
    0 < CInt.toUInt64 (CInt.toInt64 dataLen.toNat) := by
  have hlt := dataLen.toNat_lt
  rw [accepted_iff] at h
  generalize dataLen.toNat = n at h hlt ⊢
  rw [CInt.toInt64_eq, CInt.toUInt64]
  omega

/-- An object whose length is not positive as a signed number is refused at once. -/
theorem writeBucketObject_refused (sock : Source) (file : Sink) {dataLen : UInt64}
    (h : ¬ Accepted dataLen) : writeBucketObject sock file dataLen = .ok (-1, sock, file) := by
  have hturn := copyTurn_of_not_lt (s := { readLen := 0, sock := sock, file := file }) h
  rw [writeBucketObject_of_done hturn, Except.bind]

/-- **Nothing is ever copied**: the first read moves nothing, and that ends the loop with the status
of a success. -/
theorem writeBucketObject_accepted {sock : Source} (file : Sink) {dataLen : UInt64}
    (h : Accepted dataLen) (hsock : ¬ sock.Silent) :
    ∃ sock', writeBucketObject sock file dataLen = .ok (0, sock', file) := by
  obtain ⟨sock', hread⟩ :=
    Utils.readN_null hsock (CInt.toUInt64 (CInt.toInt64 dataLen.toNat))
  have hturn := copyTurn_of_nothing (s := { readLen := 0, sock := sock, file := file }) h hread rfl
  exact ⟨sock', by rw [writeBucketObject_of_done hturn, Except.bind]⟩

theorem writeBucketObject_silent {sock : Source} (file : Sink) {dataLen : UInt64}
    (h : Accepted dataLen) (hsock : sock.Silent) :
    writeBucketObject sock file dataLen = .error .blocked := by
  have hread := Utils.readN_silent hsock true (toUInt64_toInt64_pos h)
  have hturn := copyTurn_of_blocked (s := { readLen := 0, sock := sock, file := file }) h hread
  rw [writeBucketObject_of_done hturn, Except.bind]

/-! ### The put -/

/-- What a call to `bucket_put` finds in its surroundings: the client's socket, the answers of the
data file, and the chances of a new data file. -/
structure PutIo where
  sock : Source
  answers : List WriteEvent
  chance : FsChance

/-- The slot `bucket_put` looks an object up at. -/
def bucketSlot (bt : Bucket) (obj : BucketObject) : ℕ :=
  (Hash.hashJumpConsistent obj.objHash (CInt.toInt32 (bt.maxRank - bt.minRank).toNat) +
    bt.minRank.toNat) % 2 ^ 32

/-- The list `bucket_put` adds an object to: the one it finds at the object's slot, else a new one,
which it inserts at the object's hash. -/
def bucketList (bt : Bucket) (obj : BucketObject) : Outcome (Bucket × Addr) :=
  match vectorAt bt.cache (bucketSlot bt obj) with
  | some lt => .ok (bt, lt)
  | none =>
      (vectorInsert bt.cache obj.objHash.toNat (some (listCreate bt.lists).2)).bind fun cache =>
        .ok ({ bt with cache := cache.1, lists := (listCreate bt.lists).1 },
          (listCreate bt.lists).2)

/-- The end of `bucket_put`: the object is added to the list and the offset moves past it. -/
def bucketRecord (bt : Bucket) (lt : Addr) (obj : BucketObject) : Outcome Bucket :=
  let node := listNodeCreate bt.lists obj
  (listAdd node.1 (some lt) node.2).bind fun lists =>
    .ok { bt with
      lists := lists.1
      currentOffset := bt.currentOffset +
        (sizeofBucketObject + obj.dataLen + obj.objNameLen.toUInt64) }

/-- `bucket_put` of an object that is not null: the status, the bucket, the file system and the
client's socket. -/
def bucketPut (fs : Fs) (io : PutIo) (bt : Bucket) (obj : BucketObject) :
    Outcome (ℤ × Bucket × Fs × Source) := do
  let checked ← bucketCheckDataFd fs io.chance bt
  -- the failure is logged at level `LOG_FATAL`
  if checked.1 ≠ 0 then .error .abort
  else do
    let listed ← bucketList checked.2.1 obj
    let written ← writeBucketObject io.sock { answers := io.answers, sent := [] } obj.dataLen
    let fs := checked.2.2.append listed.1.fd written.2.2.sent
    if written.1 ≠ 0 then .ok (-1, listed.1, fs, written.2.1)
    else do
      let bt ← bucketRecord listed.1 listed.2 obj
      .ok (0, bt, fs, written.2.1)

/-! ### What a new bucket looks like -/

theorem bucketCreate_ok {fs fs' : Fs} {chance : FsChance} {name : CharPtr}
    {dataFileMaxLength start stop : UInt64} {bt : Bucket}
    (h : bucketCreate fs chance name dataFileMaxLength start stop = .ok (some bt, fs')) :
    (∃ status, sliceInit name = .ok (status, bt.name)) ∧
      bucketCreateDataFd fs chance bt.name 0 dataFileMaxLength = .ok (fs', bt.fd) ∧
      bt.minRank = start ∧ bt.maxRank = stop ∧ bt.dataFileMaxLength = dataFileMaxLength ∧
      bt.dataFileCurLength = 0 ∧ bt.index = 0 ∧ bt.currentOffset = 0 ∧ bt.lock = false ∧
      bt.cache.size = 0 ∧ bt.cache.cap = (stop - start).toNat := by
  simp only [bucketCreate] at h
  split at h
  · cases h
  · simp only [Outcome.bind_eq_ok] at h
    obtain ⟨⟨status, btName⟩, hslice, ⟨fs₁, fd⟩, hfd, cache, hcache, h⟩ := h
    cases h
    obtain ⟨hsize, hcap, -⟩ := vectorInit_ok hcache
    exact ⟨⟨status, hslice⟩, hfd, rfl, rfl, rfl, rfl, rfl, rfl, rfl, hsize, hcap⟩

/-- A data file that did not exist is reserved at its full length, as zeros. -/
theorem bucketCreateDataFd_fresh {fs fs' : Fs} {chance : FsChance} {name : Slice}
    {index maxLength : UInt64} {fd : ℤ}
    (h : bucketCreateDataFd fs chance name index maxLength = .ok (fs', fd))
    (hfresh : ∀ file, dataFileName name index = .ok file → fs.files file = none) :
    0 < maxLength ∧ fs'.contents fd = some (List.replicate maxLength.toNat 0) := by
  have hne : (-1 : ℤ) ≠ 0 := by simp
  rw [bucketCreateDataFd] at h
  rw [Outcome.bind_eq_ok] at h
  obtain ⟨file, hfile, h⟩ := h
  rw [hfresh file hfile] at h
  dsimp only at h
  by_cases hlen : 0 < CInt.toInt64 maxLength.toNat
  · cases hopen : chance.openFails with
    | true =>
        rw [hopen] at h
        simp [Fs.openAppend, Fs.fallocate] at h
    | false =>
        rw [hopen] at h
        cases hfall : chance.fallocateFails with
        | true =>
            rw [hfall] at h
            simp [Fs.fallocate] at h
        | false =>
            obtain ⟨fs₁, hres, hcontents⟩ :=
              Fs.contents_fallocate_openAppend (hfresh file hfile) hlen
            rw [hfall, hres, if_neg (fun h => h rfl)] at h
            cases h
            obtain ⟨hpos, hlt⟩ := (accepted_iff maxLength).1 hlen
            refine ⟨UInt64.lt_iff_toNat_lt.2 hpos, ?_⟩
            rw [hcontents, CInt.toInt64_of_range (by omega) (by omega), Int.toNat_natCast]
  · rw [Fs.fallocate_of_nonpos _ _ (not_lt.1 hlen), if_pos hne] at h
    cases h

theorem dataFileName_isOk {name : Slice} {s : Bytes} (h : name.Represents s) (index : UInt64) :
    ∃ file, dataFileName name index = .ok file := by
  rw [dataFileName, h.value_eq]
  split
  · exact ⟨_, rfl⟩
  · rw [CString.percentS, CString.strlen_cstr h.noNul]
    exact ⟨_, rfl⟩

/-- A bucket is made whenever the calls to the system succeed. -/
theorem bucketCreate_isOk (fs : Fs) {s : Bytes} (hs : CString.NoNul s) (t : Bytes)
    {dataFileMaxLength start stop : UInt64} (hmax : Accepted dataFileMaxLength)
    (hserves : callocServes (stop - start).toNat) :
    ∃ bt fs', bucketCreate fs { openFails := false, fallocateFails := false } (.mem (s ++ 0 :: t))
      dataFileMaxLength start stop = .ok (some bt, fs') := by
  obtain ⟨name, hname, hrep⟩ := sliceInit_cstr hs t
  obtain ⟨file, hfile⟩ := dataFileName_isOk hrep 0
  obtain ⟨cache, hcache⟩ : ∃ cache : CVector Addr, _ := vectorInit_isOk hserves
  have hfd : ∃ p, bucketCreateDataFd fs { openFails := false, fallocateFails := false } name 0
      dataFileMaxLength = .ok p := by
    rw [bucketCreateDataFd]
    rw [hfile, Outcome.ok_bind]
    cases hold : fs.files file with
    | some content => exact ⟨_, rfl⟩
    | none =>
        obtain ⟨fs₁, hres, -⟩ := Fs.contents_fallocate_openAppend hold hmax
        dsimp only
        rw [hres]
        exact ⟨_, rfl⟩
  obtain ⟨p, hfd⟩ := hfd
  simp only [bucketCreate]
  simp only [hname, hfd, hcache, Outcome.ok_bind]
  exact ⟨_, _, rfl⟩

/-! ### What a put does -/

/-- What no put changes: everything but the lists, the slots of the cache and the offset. -/
structure Bucket.SameFile (bt bt' : Bucket) : Prop where
  fd : bt'.fd = bt.fd
  name : bt'.name = bt.name
  minRank : bt'.minRank = bt.minRank
  maxRank : bt'.maxRank = bt.maxRank
  maxLength : bt'.dataFileMaxLength = bt.dataFileMaxLength
  curLength : bt'.dataFileCurLength = bt.dataFileCurLength
  size : bt'.cache.size = bt.cache.size
  cap : bt'.cache.cap = bt.cache.cap

/-- What a put comes to on a bucket whose data file is not full and whose cache shows nothing. -/
inductive PutResult (fs : Fs) (io : PutIo) (bt : Bucket) (obj : BucketObject) :
    Outcome (ℤ × Bucket × Fs × Source) → Prop where
  | outside (hcap : bt.cache.cap ≤ obj.objHash.toNat) :
      PutResult fs io bt obj (.error .outOfBounds)
  | refused (bt' : Bucket) (hcap : obj.objHash.toNat < bt.cache.cap)
      (hlen : ¬ Accepted obj.dataLen) (hsame : bt.SameFile bt')
      (hoff : bt'.currentOffset = bt.currentOffset) :
      PutResult fs io bt obj (.ok (-1, bt', fs.append bt.fd [], io.sock))
  | blocked (hcap : obj.objHash.toNat < bt.cache.cap) (hlen : Accepted obj.dataLen)
      (hsock : io.sock.Silent) : PutResult fs io bt obj (.error .blocked)
  | stored (bt' : Bucket) (sock' : Source) (hcap : obj.objHash.toNat < bt.cache.cap)
      (hlen : Accepted obj.dataLen) (hsock : ¬ io.sock.Silent) (hsame : bt.SameFile bt')
      (hoff : bt'.currentOffset = bt.currentOffset +
        (sizeofBucketObject + obj.dataLen + obj.objNameLen.toUInt64)) :
      PutResult fs io bt obj (.ok (0, bt', fs.append bt.fd [], sock'))

/-- **What a put does** to a bucket whose data file is not full: since nothing is ever visible in
the cache, it always inserts a new list, at the hash of the object. -/
theorem bucketPut_result (fs : Fs) (io : PutIo) {bt : Bucket} (obj : BucketObject)
    (hfull : bt.dataFileCurLength < bt.dataFileMaxLength) (hsize : bt.cache.size = 0) :
    PutResult fs io bt obj (bucketPut fs io bt obj) := by
  have hcheck : bucketCheckDataFd fs io.chance bt = .ok (0, bt, fs) := by
    rw [bucketCheckDataFd, if_neg (UInt64.not_le.2 hfull)]
  have hne : ¬ (0 : ℤ) ≠ 0 := fun h => h rfl
  have hlookup : vectorAt bt.cache (bucketSlot bt obj) = none :=
    vectorAt_of_size_eq_zero hsize _
  rw [bucketPut, hcheck, Outcome.ok_bind, if_neg hne]
  rcases Nat.lt_or_ge obj.objHash.toNat bt.cache.cap with hlt | hge
  · have hroom : bt.cache.size < bt.cache.cap := by omega
    obtain ⟨cache, hinsert, hcsize, hccap⟩ :=
      vectorInsert_of_lt hroom hlt (listCreate bt.lists).2
    have hlist : bucketList bt obj =
        .ok ({ bt with cache := cache, lists := (listCreate bt.lists).1 },
          (listCreate bt.lists).2) := by
      rw [bucketList]
      simp only [hlookup, hinsert]
      rfl
    rw [hlist, Outcome.ok_bind]
    by_cases hacc : Accepted obj.dataLen
    · by_cases hsilent : io.sock.Silent
      · rw [writeBucketObject_silent _ hacc hsilent, Outcome.error_bind]
        exact .blocked hlt hacc hsilent
      · obtain ⟨sock', hwrite⟩ := writeBucketObject_accepted
          { answers := io.answers, sent := [] } hacc hsilent
        obtain ⟨lists, hadd⟩ := listAdd_listCreate bt.lists obj
        rw [hwrite, Outcome.ok_bind, if_neg hne, bucketRecord, hadd]
        exact .stored _ sock' hlt hacc hsilent ⟨rfl, rfl, rfl, rfl, rfl, rfl, hcsize, hccap⟩ rfl
    · have hret : (-1 : ℤ) ≠ 0 := by simp
      rw [writeBucketObject_refused _ _ hacc, Outcome.ok_bind, if_pos hret]
      exact .refused _ hlt hacc ⟨rfl, rfl, rfl, rfl, rfl, rfl, hcsize, hccap⟩ rfl
  · have hinsert : vectorInsert bt.cache obj.objHash.toNat (some (listCreate bt.lists).2) =
        .error .outOfBounds := by
      rcases Nat.eq_zero_or_pos bt.cache.cap with hzero | hpos
      · exact vectorInsert_of_cap_eq_zero hzero _ _
      · exact vectorInsert_outOfBounds (by omega) hge _
    have hlist : bucketList bt obj = .error .outOfBounds := by
      rw [bucketList]
      simp only [hlookup, hinsert]
      rfl
    rw [hlist, Outcome.error_bind]
    exact .outside hge

/-- A data file of no length is never made; a file that exists already is left alone. -/
theorem bucketCreateDataFd_zero {fs fs' : Fs} {chance : FsChance} {name : Slice} {index : UInt64}
    {fd : ℤ} (h : bucketCreateDataFd fs chance name index 0 = .ok (fs', fd)) :
    fs' = fs ∧ fd = -1 ∧
      ∀ chance', bucketCreateDataFd fs chance' name index 0 = .ok (fs, -1) := by
  have hlen : CInt.toInt64 ((0 : UInt64).toNat : ℤ) ≤ 0 := by decide
  have hne : (-1 : ℤ) ≠ 0 := by simp
  simp only [bucketCreateDataFd] at h ⊢
  simp only [Outcome.bind_eq_ok] at h
  obtain ⟨file, hfile, h⟩ := h
  simp only [hfile, Outcome.ok_bind]
  cases hold : fs.files file with
  | some content =>
      rw [hold] at h
      cases h
      exact ⟨rfl, rfl, fun _ => rfl⟩
  | none =>
      rw [hold] at h
      simp only [Fs.fallocate_of_nonpos _ _ hlen, if_pos hne] at h
      cases h

/-- A bucket whose data file may not hold anything is full from the start, and has no other data
file to switch to: a put ends the process. -/
theorem bucketPut_of_maxLength_eq_zero {fs fs' : Fs} {chance : FsChance} {name : CharPtr}
    {start stop : UInt64} {bt : Bucket}
    (h : bucketCreate fs chance name 0 start stop = .ok (some bt, fs')) (io : PutIo)
    (obj : BucketObject) : bucketPut fs' io bt obj = .error .abort := by
  obtain ⟨-, hfd, -, -, hmax, hcur, hindex, -, hlock, -⟩ := bucketCreate_ok h
  obtain ⟨rfl, hnone, hagain⟩ := bucketCreateDataFd_zero hfd
  have hagain' : bucketCreateDataFd fs' io.chance bt.name bt.index bt.dataFileMaxLength =
      .ok (fs', -1) := by
    rw [hindex, hmax]
    exact hagain io.chance
  have hcheck : bucketCheckDataFd fs' io.chance bt = .ok (-1, { bt with lock := true }, fs') := by
    have hle : bt.dataFileMaxLength ≤ bt.dataFileCurLength := by
      rw [hmax, hcur]
      exact UInt64.le_refl 0
    have hclose : ¬ (bt.fd ≠ -1) := not_not.2 hnone
    simp only [bucketCheckDataFd, if_pos hle, hlock, if_neg hclose, hagain', Outcome.ok_bind]
    rfl
  have hret : (-1 : ℤ) ≠ 0 := by simp
  rw [bucketPut, hcheck, Outcome.ok_bind, if_pos hret]
