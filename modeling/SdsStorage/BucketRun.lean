/-
**Runs of puts on one bucket.**

What is claimed of a bucket is claimed of every sequence of puts: that an object reported stored
lies in the data file at the offset recorded for it, and that it is found again in the cache.  Both
fail as soon as an object with data is put: the data never reaches the file, and the cache never
shows the list the object is added to.  The theorems say exactly which runs escape.

Main definitions:

* `PutRun`, `putObject` — a bucket, its file system, and the objects reported stored so far;
* `Upload`, `uploadStep` — a put of an object made the way the server makes it;
* `DataInPlace` — the data of every object stored lies where the object says;
* `CacheKeeps` — every object stored is found through the cache, in the order of the puts.

Main results:

* `uploads_inPlace_iff` — **the data is in place exactly when it is all zeros and fits**;
* `puts_cacheKeeps_iff` — **the cache keeps the objects exactly when none is stored**.
-/

import SdsStorage.Bucket

set_option relaxedAutoImplicit false
set_option autoImplicit false

/-! ### Runs -/

/-- A bucket in its file system, with the objects whose puts returned 0, each with the data its
client sent. -/
structure PutRun where
  fs : Fs
  bt : Bucket
  stored : List (BucketObject × Bytes)

/-- The state a run starts from. -/
def PutRun.start (fs : Fs) (bt : Bucket) : PutRun := { fs := fs, bt := bt, stored := [] }

/-- The data the client sends for an object. -/
def objectData (io : PutIo) (obj : BucketObject) : Bytes := io.sock.bytes.take obj.dataLen.toNat

/-- One put of a run. -/
def putObject (s : PutRun) (io : PutIo) (obj : BucketObject) : Outcome PutRun := do
  let r ← bucketPut s.fs io s.bt obj
  .ok { fs := r.2.2.1, bt := r.2.1,
        stored := if r.1 = 0 then s.stored ++ [(obj, objectData io obj)] else s.stored }

/-- The data file is not full, and the cache shows nothing. -/
structure PutRun.Open (s : PutRun) : Prop where
  notFull : s.bt.dataFileCurLength < s.bt.dataFileMaxLength
  hidden : s.bt.cache.size = 0

theorem PutRun.Open.of_sameFile {s s' : PutRun} (hs : s.Open) (h : s.bt.SameFile s'.bt) :
    s'.Open where
  notFull := by
    rw [h.curLength, h.maxLength]
    exact hs.notFull
  hidden := h.size.trans hs.hidden

/-- What one put of a run comes to. -/
inductive PutStep (s : PutRun) (io : PutIo) (obj : BucketObject) : Outcome PutRun → Prop where
  | outside (hcap : s.bt.cache.cap ≤ obj.objHash.toNat) : PutStep s io obj (.error .outOfBounds)
  | refused (s' : PutRun) (hcap : obj.objHash.toNat < s.bt.cache.cap)
      (hlen : ¬ Accepted obj.dataLen) (hsame : s.bt.SameFile s'.bt)
      (hoff : s'.bt.currentOffset = s.bt.currentOffset) (hfs : s'.fs = s.fs.append s.bt.fd [])
      (hstored : s'.stored = s.stored) : PutStep s io obj (.ok s')
  | blocked (hcap : obj.objHash.toNat < s.bt.cache.cap) (hlen : Accepted obj.dataLen)
      (hsock : io.sock.Silent) : PutStep s io obj (.error .blocked)
  | stored (s' : PutRun) (hcap : obj.objHash.toNat < s.bt.cache.cap)
      (hlen : Accepted obj.dataLen) (hsock : ¬ io.sock.Silent) (hsame : s.bt.SameFile s'.bt)
      (hoff : s'.bt.currentOffset = s.bt.currentOffset +
        (sizeofBucketObject + obj.dataLen + obj.objNameLen.toUInt64))
      (hfs : s'.fs = s.fs.append s.bt.fd [])
      (hstored : s'.stored = s.stored ++ [(obj, objectData io obj)]) : PutStep s io obj (.ok s')

theorem putObject_step {s : PutRun} (hs : s.Open) (io : PutIo) (obj : BucketObject) :
    PutStep s io obj (putObject s io obj) := by
  have h := bucketPut_result s.fs io obj hs.notFull hs.hidden
  rw [putObject]
  generalize bucketPut s.fs io s.bt obj = r at h ⊢
  cases h with
  | outside hcap => exact .outside hcap
  | refused bt' hcap hlen hsame hoff => exact .refused _ hcap hlen hsame hoff rfl rfl
  | blocked hcap hlen hsock => exact .blocked hcap hlen hsock
  | stored bt' sock' hcap hlen hsock hsame hoff =>
      exact .stored _ hcap hlen hsock hsame hoff rfl rfl

/-- A put of an object whose hash is outside the cache is undefined. -/
theorem not_holds_putObject {s : PutRun} (hs : s.Open) {io : PutIo} {obj : BucketObject}
    (hcap : s.bt.cache.cap ≤ obj.objHash.toNat) (Q : PutRun → Prop) :
    ¬ Outcome.Holds Q (putObject s io obj) := by
  have hstep := putObject_step hs io obj
  generalize putObject s io obj = r at hstep
  cases hstep with
  | outside => exact fun h => h trivial
  | refused _ hlt | blocked hlt | stored _ hlt => omega

/-! ### The recorded location -/

/-- What a client and the server bring to a put: the server makes the object at the current offset
of the bucket. -/
structure Upload where
  io : PutIo
  bucketIndex : UInt64
  uid : Bytes
  objNameLen : UInt32
  dataLen : UInt64

/-- The object the server makes of an upload. -/
def Upload.object (up : Upload) (bt : Bucket) : BucketObject :=
  bucketObjectInit up.bucketIndex bt.currentOffset up.uid up.objNameLen up.dataLen

/-- The put of an upload. -/
def uploadStep (s : PutRun) (up : Upload) : Outcome PutRun :=
  putObject s up.io (up.object s.bt)

/-- The data of an object is all there, and lies in the file at the offset recorded for it. -/
def InPlace (file : Bytes) (obj : BucketObject) (data : Bytes) : Prop :=
  data.length = obj.dataLen.toNat ∧
    (file.drop obj.curOffset.toNat).take obj.dataLen.toNat = data

/-- Every object reported stored is in place in the bucket's data file. -/
def DataInPlace (s : PutRun) : Prop :=
  ∀ p ∈ s.stored, ∃ file, s.fs.contents s.bt.fd = some file ∧ InPlace file p.1 p.2

/-- The runs that escape: up to the first that waits for ever, every upload of positive length sends
nothing but zeros, and ends within the reserved file when it is counted from the offset `off` on. -/
def ZerosFit (max : ℕ) : UInt64 → List Upload → Prop
  | _, [] => True
  | off, up :: ups =>
      if Accepted up.dataLen then
        up.io.sock.Silent ∨
          (up.io.sock.bytes.take up.dataLen.toNat = List.replicate up.dataLen.toNat 0 ∧
            off.toNat + up.dataLen.toNat ≤ max ∧
            ZerosFit max (off + (sizeofBucketObject + up.dataLen + up.objNameLen.toUInt64)) ups)
      else ZerosFit max off ups

/-- What holds before every put of a run: the data file is as it was reserved. -/
structure Reserved (max : ℕ) (s : PutRun) : Prop where
  isOpen : s.Open
  contents : s.fs.contents s.bt.fd = some (List.replicate max 0)

theorem Reserved.step {max : ℕ} {s s' : PutRun} (hs : Reserved max s)
    (hsame : s.bt.SameFile s'.bt) (hfs : s'.fs = s.fs.append s.bt.fd []) : Reserved max s' where
  isOpen := hs.isOpen.of_sameFile hsame
  contents := by
    rw [hfs, hsame.fd, Fs.contents_append_nil _ _ _ (by rw [hs.contents]; rfl)]
    exact hs.contents

/-- In a file of zeros, what is in place is zeros that fit. -/
theorem inPlace_replicate_iff (max : ℕ) (obj : BucketObject) (data : Bytes)
    (hpos : 0 < obj.dataLen.toNat) :
    InPlace (List.replicate max 0) obj data ↔
      data = List.replicate obj.dataLen.toNat 0 ∧
        obj.curOffset.toNat + obj.dataLen.toNat ≤ max := by
  rw [InPlace, List.drop_replicate, List.take_replicate]
  constructor
  · rintro ⟨hlen, rfl⟩
    rw [List.length_replicate] at hlen
    exact ⟨by rw [hlen], by omega⟩
  · rintro ⟨rfl, hfit⟩
    refine ⟨List.length_replicate, ?_⟩
    congr 1
    omega

/-- Storing one more object keeps the data in place when that object's is. -/
theorem dataInPlace_stored_iff {max : ℕ} {s s' : PutRun} (hs' : Reserved max s')
    (hin : DataInPlace s) (hs : Reserved max s) {obj : BucketObject} {data : Bytes}
    (hstored : s'.stored = s.stored ++ [(obj, data)]) :
    DataInPlace s' ↔ InPlace (List.replicate max 0) obj data := by
  constructor
  · intro h
    obtain ⟨file, hfile, hplace⟩ := h (obj, data) (by rw [hstored]; simp)
    rw [hs'.contents] at hfile
    cases hfile
    exact hplace
  · intro h p hp
    refine ⟨_, hs'.contents, ?_⟩
    rw [hstored, List.mem_append, List.mem_singleton] at hp
    rcases hp with hp | rfl
    · obtain ⟨file, hfile, hplace⟩ := hin p hp
      rw [hs.contents] at hfile
      cases hfile
      exact hplace
    · exact h

/-- **The run lemma**: from a state whose data is in place, a run keeps it there exactly when it is
one of those that escape. -/
theorem always_dataInPlace_iff {max : ℕ} (ups : List Upload) :
    ∀ {s : PutRun}, Reserved max s → DataInPlace s → 0 < s.bt.cache.cap →
      (Outcome.Always DataInPlace uploadStep ups s ↔ ZerosFit max s.bt.currentOffset ups) := by
  induction ups with
  | nil =>
      intro s _ hin _
      simp only [Outcome.always_nil, ZerosFit, iff_true]
      exact hin
  | cons up ups ih =>
      intro s hs hin hcap
      have hhash : (up.object s.bt).objHash.toNat < s.bt.cache.cap := hcap
      rw [Outcome.always_cons, and_iff_right hin, ZerosFit, uploadStep]
      have hstep := putObject_step hs.isOpen up.io (up.object s.bt)
      generalize putObject s up.io (up.object s.bt) = r at hstep
      cases hstep with
      | outside hout => omega
      | refused s' _ hlen hsame hoff hfs hstored =>
          have hnot : ¬ Accepted up.dataLen := hlen
          have hin' : DataInPlace s' := by
            intro p hp
            rw [hstored] at hp
            rw [(hs.step hsame hfs).contents, ← hs.contents]
            exact hin p hp
          rw [if_neg hnot, Outcome.holds_ok, ih (hs.step hsame hfs) hin' (hsame.cap ▸ hcap), hoff]
      | blocked _ hlen hsock =>
          have hacc : Accepted up.dataLen := hlen
          rw [if_pos hacc, Outcome.holds_error]
          exact iff_of_true (fun h => h) (Or.inl hsock)
      | stored s' _ hlen hsock hsame hoff hfs hstored =>
          have hacc : Accepted up.dataLen := hlen
          have hs' := hs.step hsame hfs
          have hplace := (dataInPlace_stored_iff hs' hin hs hstored).trans
            (inPlace_replicate_iff max _ _ ((accepted_iff _).1 hlen).1)
          rw [if_pos hacc, Outcome.holds_ok, or_iff_right hsock]
          constructor
          · intro h
            obtain ⟨hzero, hfit⟩ := hplace.1 h.start
            rw [ih hs' h.start (hsame.cap ▸ hcap), hoff] at h
            exact ⟨hzero, hfit, h⟩
          · rintro ⟨hzero, hfit, hrest⟩
            rw [ih hs' (hplace.2 ⟨hzero, hfit⟩) (hsame.cap ▸ hcap), hoff]
            exact hrest

/-- A bucket made on a fresh file starts with its data file reserved. -/
theorem reserved_start {fs fs' : Fs} {chance : FsChance} {name : CharPtr}
    {maxLength start stop : UInt64} {bt : Bucket}
    (hcreate : bucketCreate fs chance name maxLength start stop = .ok (some bt, fs'))
    (hfresh : ∀ file, dataFileName bt.name 0 = .ok file → fs.files file = none) :
    Reserved maxLength.toNat (PutRun.start fs' bt) := by
  obtain ⟨-, hfd, -, -, hmax, hcur, -, -, -, hsize, -⟩ := bucketCreate_ok hcreate
  obtain ⟨hpos, hcontents⟩ := bucketCreateDataFd_fresh hfd hfresh
  refine ⟨⟨?_, hsize⟩, hcontents⟩
  rw [PutRun.start, hmax, hcur]
  exact hpos

/-- **The data is in place exactly when it is all zeros and fits.**  For a bucket made on a fresh
file and any sequence of uploads: every object whose put returned 0 has its data in the data file
at its recorded offset, in every state of the run and with nothing undefined on the way, exactly
when the bucket has room in its cache or nothing is put at all, and the uploads that store send
zeros which fit the reserved file. -/
theorem uploads_inPlace_iff {fs fs' : Fs} {chance : FsChance} {name : CharPtr}
    {maxLength start stop : UInt64} {bt : Bucket}
    (hcreate : bucketCreate fs chance name maxLength start stop = .ok (some bt, fs'))
    (hfresh : ∀ file, dataFileName bt.name 0 = .ok file → fs.files file = none)
    (ups : List Upload) :
    Outcome.Always DataInPlace uploadStep ups (PutRun.start fs' bt) ↔
      (ups = [] ∨ start ≠ stop) ∧ ZerosFit maxLength.toNat 0 ups := by
  obtain ⟨-, -, -, -, -, -, -, hoff, -, -, hcap⟩ := bucketCreate_ok hcreate
  have hs := reserved_start hcreate hfresh
  have hin : DataInPlace (PutRun.start fs' bt) := by
    intro p hp
    cases hp
  by_cases hne : start = stop
  · have hzero : bt.cache.cap = 0 := by rw [hcap, hne, UInt64.sub_self]; rfl
    cases ups with
    | nil => simp only [Outcome.always_nil, ZerosFit, hin, true_or, and_self]
    | cons up ups =>
        refine iff_of_false ?_ (fun h => h.1.elim (by simp) fun h => h hne)
        rw [Outcome.always_cons]
        rintro ⟨-, h⟩
        exact not_holds_putObject hs.isOpen ((Nat.le_of_eq hzero).trans (Nat.zero_le _)) _ h
  · have hpos : 0 < bt.cache.cap := by
      rw [hcap, Nat.pos_iff_ne_zero, Ne, ← UInt64.toNat_zero, UInt64.toNat_inj]
      intro h
      exact hne ((UInt64.sub_left_inj start).1 (h.trans (UInt64.sub_self (a := start)).symm)).symm
    rw [always_dataInPlace_iff ups hs hin hpos, and_iff_right (Or.inr hne)]
    exact hoff ▸ Iff.rfl

/-- A bucket named `b` of 511 ranks, with a data file of 4096 bytes. -/
theorem bucketCreate_b_isOk :
    ∃ bt fs', bucketCreate Fs.empty { openFails := false, fallocateFails := false } (.mem [98, 0])
      4096 0 511 = .ok (some bt, fs') := by
  have hmax : Accepted 4096 := by decide
  have hserves : callocServes ((511 : UInt64) - 0).toNat := by decide
  have hname : CString.NoNul [98] := by decide
  exact bucketCreate_isOk Fs.empty hname [] hmax hserves

/-- The upload of one byte that is not zero. -/
def oneByteUpload : Upload :=
  { io := { sock := { arrivals := [.data 1 []], ended := true }, answers := [],
            chance := { openFails := false, fallocateFails := false } }
    bucketIndex := 0
    uid := List.replicate 32 48
    objNameLen := 1
    dataLen := 1 }

/-- The result applied to a bucket named `b` with a data file of 4096 bytes, and one upload. -/
theorem uploads_inPlace_iff_oneByte :
    ∃ bt fs', bucketCreate Fs.empty { openFails := false, fallocateFails := false } (.mem [98, 0])
        4096 0 511 = .ok (some bt, fs') ∧
      (Outcome.Always DataInPlace uploadStep [oneByteUpload] (PutRun.start fs' bt) ↔
        ([oneByteUpload] = [] ∨ (0 : UInt64) ≠ 511) ∧
          ZerosFit (4096 : UInt64).toNat 0 [oneByteUpload]) := by
  obtain ⟨bt, fs', h⟩ := bucketCreate_b_isOk
  exact ⟨bt, fs', h, uploads_inPlace_iff h (fun _ _ => rfl) _⟩

/-- One byte that is not zero is reported stored, and is not in the data file. -/
theorem oneByteUpload_not_inPlace :
    ∃ bt fs', bucketCreate Fs.empty { openFails := false, fallocateFails := false } (.mem [98, 0])
        4096 0 511 = .ok (some bt, fs') ∧ fs'.contents bt.fd = some (List.replicate 4096 0) ∧
      ¬ Outcome.Always DataInPlace uploadStep [oneByteUpload] (PutRun.start fs' bt) := by
  obtain ⟨bt, fs', h⟩ := bucketCreate_b_isOk
  have hs := reserved_start h fun _ _ => rfl
  have hcap : bt.cache.cap = 511 := (bucketCreate_ok h).2.2.2.2.2.2.2.2.2.2
  refine ⟨bt, fs', h, hs.contents, ?_⟩
  rw [always_dataInPlace_iff _ hs (by simp [DataInPlace, PutRun.start])
    (by rw [PutRun.start, hcap]; decide), ZerosFit, if_pos (by decide)]
  rintro (hsilent | ⟨hzero, -⟩)
  · exact absurd hsilent (by decide)
  · exact absurd hzero (by decide)

/-! ### The cache -/

/-- A put of an object by a client. -/
structure Put where
  io : PutIo
  obj : BucketObject

/-- The put of an object, as a step of a run. -/
def putStep (s : PutRun) (p : Put) : Outcome PutRun := putObject s p.io p.obj

/-- Every object stored is found in the list at the slot it is looked up at, after those put before
it under the same slot, and that slot is within the capacity of the cache. -/
def CacheKeeps (s : PutRun) : Prop :=
  ∀ p ∈ s.stored, bucketSlot s.bt p.1 < s.bt.cache.cap ∧
    ∃ lt, vectorAt s.bt.cache (bucketSlot s.bt p.1) = some lt ∧
      ((s.stored.map Prod.fst).filter fun o => bucketSlot s.bt o = bucketSlot s.bt p.1).Sublist
        (listValues s.bt.lists lt)

/-- The runs that escape: up to the first that waits for ever, every object has its hash within a
cache of `cap` slots, and a length that is not positive as a signed number. -/
def NoneStored (cap : ℕ) : List Put → Prop
  | [] => True
  | p :: ps =>
      p.obj.objHash.toNat < cap ∧
        if Accepted p.obj.dataLen then p.io.sock.Silent else NoneStored cap ps

/-- Since nothing is visible in the cache, it keeps the objects only when there are none. -/
theorem cacheKeeps_iff {s : PutRun} (hs : s.Open) : CacheKeeps s ↔ s.stored = [] := by
  constructor
  · intro h
    refine List.eq_nil_iff_forall_not_mem.2 ?_
    intro p hp
    obtain ⟨-, lt, hlt, -⟩ := h p hp
    rw [vectorAt_of_size_eq_zero hs.hidden] at hlt
    cases hlt
  · intro h p hp
    rw [h] at hp
    cases hp

/-- **The run lemma**: from a state in which nothing is stored yet, the cache keeps the objects
exactly when the run is one of those that escape. -/
theorem always_cacheKeeps_iff (ps : List Put) :
    ∀ {s : PutRun}, s.Open → s.stored = [] →
      (Outcome.Always CacheKeeps putStep ps s ↔ NoneStored s.bt.cache.cap ps) := by
  induction ps with
  | nil =>
      intro s hs hnone
      simp only [Outcome.always_nil, NoneStored, iff_true]
      exact (cacheKeeps_iff hs).2 hnone
  | cons p ps ih =>
      intro s hs hnone
      rw [Outcome.always_cons, and_iff_right ((cacheKeeps_iff hs).2 hnone), NoneStored, putStep]
      by_cases hcap : p.obj.objHash.toNat < s.bt.cache.cap
      · rw [and_iff_right hcap]
        have hstep := putObject_step hs p.io p.obj
        generalize putObject s p.io p.obj = r at hstep
        cases hstep with
        | outside hout => omega
        | refused s' _ hlen hsame _ _ hstored =>
            rw [if_neg hlen, Outcome.holds_ok, ih (hs.of_sameFile hsame) (hstored.trans hnone),
              hsame.cap]
        | blocked _ hlen hsock =>
            rw [if_pos hlen, Outcome.holds_error]
            exact iff_of_true (fun h => h) hsock
        | stored s' _ hlen hsock hsame _ _ hstored =>
            rw [if_pos hlen, Outcome.holds_ok]
            refine iff_of_false ?_ hsock
            intro h
            have hempty := (cacheKeeps_iff (hs.of_sameFile hsame)).1 h.start
            rw [hstored] at hempty
            exact absurd hempty (by simp)
      · exact iff_of_false (not_holds_putObject hs (not_lt.1 hcap) _) fun h => hcap h.1

/-- **The cache keeps the objects exactly when none is stored.**  For any bucket and any sequence of
puts: every object whose put returned 0 is found again through the cache, in every state of the run
and with nothing undefined on the way, exactly when the data file may not hold anything, so that
the first put ends the process, or no object of the run is stored. -/
theorem puts_cacheKeeps_iff {fs fs' : Fs} {chance : FsChance} {name : CharPtr}
    {maxLength start stop : UInt64} {bt : Bucket}
    (hcreate : bucketCreate fs chance name maxLength start stop = .ok (some bt, fs'))
    (ps : List Put) :
    Outcome.Always CacheKeeps putStep ps (PutRun.start fs' bt) ↔
      maxLength = 0 ∨ NoneStored (stop - start).toNat ps := by
  obtain ⟨-, -, -, -, hmax, hcur, -, -, -, hsize, hcap⟩ := bucketCreate_ok hcreate
  have hstart : CacheKeeps (PutRun.start fs' bt) := by
    intro p hp
    cases hp
  by_cases hzero : maxLength = 0
  · subst hzero
    refine iff_of_true ?_ (Or.inl rfl)
    cases ps with
    | nil => exact Outcome.always_nil.2 hstart
    | cons p ps =>
        have habort : putStep (PutRun.start fs' bt) p = .error .abort := by
          rw [putStep, putObject, PutRun.start,
            bucketPut_of_maxLength_eq_zero hcreate, Outcome.error_bind]
        rw [Outcome.always_cons, habort]
        exact ⟨hstart, fun h => h⟩
  · have hopen : (PutRun.start fs' bt).Open := by
      refine ⟨?_, hsize⟩
      rw [PutRun.start, hcur, hmax]
      exact UInt64.pos_iff_ne_zero.2 hzero
    rw [always_cacheKeeps_iff ps hopen rfl, or_iff_right hzero, PutRun.start, hcap]

/-- A put of the same byte, as an object that hashes to 0. -/
def oneBytePut : Put :=
  { io := oneByteUpload.io
    obj := bucketObjectInit 0 0 (List.replicate 32 48) 1 1 }

/-- The result applied to a bucket of 511 slots, and one put. -/
theorem puts_cacheKeeps_iff_oneByte :
    ∃ bt fs', bucketCreate Fs.empty { openFails := false, fallocateFails := false } (.mem [98, 0])
        4096 0 511 = .ok (some bt, fs') ∧
      (Outcome.Always CacheKeeps putStep [oneBytePut] (PutRun.start fs' bt) ↔
        (4096 : UInt64) = 0 ∨ NoneStored ((511 : UInt64) - 0).toNat [oneBytePut]) := by
  obtain ⟨bt, fs', h⟩ := bucketCreate_b_isOk
  exact ⟨bt, fs', h, puts_cacheKeeps_iff h _⟩

/-- One object that is reported stored is not found through the cache. -/
theorem oneBytePut_not_kept :
    ∃ bt fs', bucketCreate Fs.empty { openFails := false, fallocateFails := false } (.mem [98, 0])
        4096 0 511 = .ok (some bt, fs') ∧
      ¬ Outcome.Always CacheKeeps putStep [oneBytePut] (PutRun.start fs' bt) := by
  obtain ⟨bt, fs', h⟩ := bucketCreate_b_isOk
  have hs := (reserved_start h fun _ _ => rfl).isOpen
  refine ⟨bt, fs', h, ?_⟩
  rw [always_cacheKeeps_iff _ hs rfl, NoneStored, if_pos (by decide)]
  exact fun hnone => absurd hnone.2 (by decide)
