/-
**The files of a server.**

A request for a set makes the data files of its buckets, and a request for an object appends to one
of them.  Here the requests come in any order, to any number of sets, with any sockets, and opening
and reserving fail as they like.  All the while the server prints: its logger was never initialised,
so that the lines go to the descriptor 0, and the rest goes to the standard output.  If both were
open when the server started, no other file that was there is touched by any of it, no two buckets
share a file, and the only files that are made are theirs.  Nothing is ever stored either: as long
as the server runs, each data file it has made holds the zeros it was reserved with.

Main definitions:

* `Fs.Opened` — a file was made and opened, and nothing else has changed;
* `Bucket.OnOwnFile` — a bucket and its file;
* `Output`, `Server.handlePrinting` — what is printed, and the handling of a request that prints;
* `ServerEvent`, `Server.event` — a request, or something that is printed after it;
* `openFiles`, `FilesKept` — the files the buckets are open on, and what holds of all files.

Main results:

* `bucketCreateDataFd_opened` — what a data file that is made changes;
* `Server.handlePrinting_nothing` — without a line to print, a request is handled as it was;
* `FilesKept.create`, `FilesKept.put`, `FilesKept.print` — **the step lemmas**;
* `run_filesKept` — **what every run leaves in the files**.
-/

import SdsStorage.DataFile
import SdsStorage.Response
import SdsStorage.Startup

set_option relaxedAutoImplicit false
set_option autoImplicit false

/-! ### A data file that is made -/

/-- A file that was not there has been made and opened, and nothing else has changed. -/
structure Fs.Opened (fs fs' : Fs) (fd : ℤ) (file content : Bytes) : Prop where
  fresh : fs.files file = none
  free : fs.fileOf fd = none
  opened : fs'.fileOf fd = some file
  others : ∀ other, other ≠ fd → fs'.fileOf other = fs.fileOf other
  content_eq : fs'.files file = some content
  files : ∀ name, name ≠ file → fs'.files name = fs.files name

/-- Opening a data file leaves the other descriptors where they are. -/
theorem bucketCreateDataFd_fds {fs fs' : Fs} {chance : FsChance} {name : Slice}
    {index maxLength : UInt64} {fd : ℤ}
    (h : bucketCreateDataFd fs chance name index maxLength = .ok (fs', fd)) (hfd : fd ≠ -1) :
    fs.fileOf fd = none ∧ ∀ other, other ≠ fd → fs'.fileOf other = fs.fileOf other := by
  rw [bucketCreateDataFd, Outcome.bind_eq_ok] at h
  obtain ⟨file, -, h⟩ := h
  cases hold : fs.files file with
  | some content =>
      rw [hold] at h
      cases h
      exact absurd rfl hfd
  | none =>
      rw [hold] at h
      dsimp only at h
      split at h
      · cases h
      · cases h
        cases hfails : chance.openFails with
        | true =>
            rw [hfails] at hfd
            exact absurd rfl hfd
        | false =>
            refine ⟨fs.fileOf_freeFd, fun other hne => ?_⟩
            rw [Fs.fileOf_fallocate]
            exact fs.fileOf_openAppend_ne file hne

/-- **What a data file that is made changes**: it is there already and there is no descriptor, or it
is opened and holds zeros. -/
theorem bucketCreateDataFd_opened {fs fs' : Fs} {chance : FsChance} {name : Slice}
    {index maxLength : UInt64} {fd : ℤ}
    (h : bucketCreateDataFd fs chance name index maxLength = .ok (fs', fd)) :
    ∃ file, dataFileName name index = .ok file ∧
      ((fs.files file ≠ none ∧ fd = -1 ∧ fs' = fs) ∨
        Fs.Opened fs fs' fd file (List.replicate maxLength.toNat 0)) := by
  obtain ⟨file, hfile, hthere | ⟨hfresh, hopen, hothers⟩⟩ := bucketCreateDataFd_ok h
  · exact ⟨file, hfile, Or.inl hthere⟩
  · have hfd : fd ≠ -1 := by
      rintro rfl
      rw [Fs.fileOf_neg_one] at hopen
      cases hopen
    obtain ⟨hfree, hfds⟩ := bucketCreateDataFd_fds h hfd
    obtain ⟨-, hzeros⟩ := bucketCreateDataFd_fresh h fun other hother => by
      rw [hfile] at hother
      cases hother
      exact hfresh
    rw [Fs.contents, hopen, Option.bind_eq_bind, Option.bind_some] at hzeros
    exact ⟨file, hfile, Or.inr ⟨hfresh, hfree, hopen, hfds, hzeros, hothers⟩⟩

/-! ### A bucket and its file -/

/-- A bucket whose file is there, and nothing in it: the file was there at the start and the bucket
has no descriptor, or the bucket has made it. -/
structure Bucket.OnOwnFile (fs₀ fs : Fs) (bt : Bucket) (file : Bytes) : Prop where
  curLength : bt.dataFileCurLength = 0
  hidden : bt.cache.size = 0
  name_eq : dataFileName bt.name bt.index = .ok file
  exists_file : fs.files file ≠ none
  descriptor : bt.fd = -1 ∨ (fs.fileOf bt.fd = some file ∧ fs₀.fileOf bt.fd = none ∧
    fs₀.files file = none ∧ fs.files file = some (List.replicate bt.dataFileMaxLength.toNat 0))

namespace Bucket.OnOwnFile

variable {fs₀ fs fs' : Fs} {bt bt' : Bucket} {file : Bytes}

/-- The descriptor leads to no other file. -/
theorem eq_of_fileOf (h : bt.OnOwnFile fs₀ fs file) {name : Bytes}
    (hname : fs.fileOf bt.fd = some name) : name = file := by
  rcases h.descriptor with hfd | ⟨hopen, -⟩
  · rw [hfd, Fs.fileOf_neg_one] at hname
    cases hname
  · rw [hopen] at hname
    cases hname
    rfl

/-- A bucket keeps its file, and its descriptor, when another file is made. -/
theorem opened (h : bt.OnOwnFile fs₀ fs file) {fd : ℤ} {name content : Bytes}
    (hopened : Fs.Opened fs fs' fd name content) :
    bt.OnOwnFile fs₀ fs' file ∧ fs'.fileOf bt.fd = fs.fileOf bt.fd := by
  have hne : file ≠ name := by
    rintro rfl
    exact h.exists_file hopened.fresh
  have hfile := hopened.files file hne
  have hexists : fs'.files file ≠ none := by
    rw [hfile]
    exact h.exists_file
  rcases h.descriptor with hfd | ⟨hopen, hfree₀, hfresh₀, hcontent⟩
  · refine ⟨⟨h.curLength, h.hidden, h.name_eq, hexists, Or.inl hfd⟩, ?_⟩
    rw [hfd, Fs.fileOf_neg_one, Fs.fileOf_neg_one]
  · have hother : bt.fd ≠ fd := by
      rintro rfl
      rw [hopened.free] at hopen
      cases hopen
    have hfds := hopened.others bt.fd hother
    exact ⟨⟨h.curLength, h.hidden, h.name_eq, hexists,
      Or.inr ⟨hfds.trans hopen, hfree₀, hfresh₀, hfile.trans hcontent⟩⟩, hfds⟩

/-- A put on a full bucket does not return: the file of its index is there already. -/
theorem not_full (h : bt.OnOwnFile fs₀ fs file) {io : PutIo} {obj : BucketObject}
    {r : ℤ × Bucket × Fs × Source} (hput : bucketPut fs io bt obj = .ok r) :
    bt.dataFileCurLength < bt.dataFileMaxLength := by
  by_contra hnot
  have hfull := UInt64.not_lt.1 hnot
  rw [bucketPut, Outcome.bind_eq_ok] at hput
  obtain ⟨checked, hcheck, hput⟩ := hput
  cases hlock : bt.lock with
  | true =>
      rw [bucketCheckDataFd, if_pos hfull, if_pos hlock] at hcheck
      cases hcheck
  | false =>
      rw [bucketCheckDataFd_full io.chance hfull hlock h.name_eq h.exists_file] at hcheck
      cases hcheck
      have hne : (-1 : ℤ) ≠ 0 := by simp
      rw [if_pos hne] at hput
      cases hput

/-- A put that returns leaves the files as they are, and the bucket on its own. -/
theorem put (h : bt.OnOwnFile fs₀ fs file) {io : PutIo} {obj : BucketObject}
    {r : ℤ × Bucket × Fs × Source} (hput : bucketPut fs io bt obj = .ok r) :
    r.2.2.1 = fs ∧ r.2.1.fd = bt.fd ∧ r.2.1.OnOwnFile fs₀ fs file := by
  have hfull := h.not_full hput
  obtain ⟨hsame, hfs⟩ := bucketPut_sameFile hfull h.hidden hput
  have hslots := bucketPut_slots hfull h.hidden hput
  have hnothing : fs.append bt.fd [] = fs := Fs.append_nil fun name hname => by
    rw [h.eq_of_fileOf hname]
    exact h.exists_file
  refine ⟨hfs.trans hnothing, hsame.fd, ?_, hsame.size.trans h.hidden, ?_, h.exists_file, ?_⟩
  · rw [hsame.curLength]
    exact h.curLength
  · rw [hsame.name, hslots.index]
    exact h.name_eq
  · rw [hsame.fd, hsame.maxLength]
    exact h.descriptor

end Bucket.OnOwnFile

/-! ### What is printed -/

/-- `STDOUT_FILENO`. -/
def stdoutFileno : ℤ := 1

/-- Something that is printed: a line of the logger, or something to the standard output. -/
inductive Output where
  | logLine (bytes : Bytes)
  | printed (bytes : Bytes)

/-- The file system after it. -/
def Fs.print (fs : Fs) : Output → Fs
  | .logLine bytes => fs.append Log.Logger.zero.fd bytes
  | .printed bytes => fs.append stdoutFileno bytes

/-- The file system after all of it. -/
def Fs.prints (fs : Fs) (outputs : List Output) : Fs := outputs.foldl Fs.print fs

/-- `bucketset_create`, with what is printed before each turn of its loop. -/
def bucketsetCreatePrinting (outputs : ℕ → List Output) (m : Memory) (fs : Fs)
    (chance : ℕ → FsChance) (name dataDir : CharPtr)
    (bucketSize bucketRangeCount dataFileSizeUnit : UInt64) : Outcome (Memory × Fs × Addr) := do
  let rangeCount := bucketsetHashRangeRound bucketRangeCount
  let vec ← vectorInit bucketSize.toNat
  let dirSlice ← sliceInit dataDir
  let nameSlice ← sliceInit name
  let built ← (List.range bucketSize.toNat).foldlM
    (fun s i => bucketsetFill chance dataDir name rangeCount dataFileSizeUnit
      { s with fs := s.fs.prints (outputs i) } i)
    { buckets := m.buckets, fs := fs, vec := vec }
  .ok ({ buckets := built.buckets
         bucketsets := m.bucketsets ++
          [{ dataDir := dirSlice.2, setName := nameSlice.2, bucketRangeCount := rangeCount,
             bucketSize := bucketSize, buckets := built.vec,
             dataFileSizeUnit := dataFileSizeUnit }] },
    built.fs, m.bucketsets.length)

/-- The case of `REQ_PUT_BUCKETSET`, with what is printed on the way. -/
def handlePutBucketsetPrinting (outputs : ℕ → List Output) (chance : ℕ → FsChance) (sv : Server)
    (name : CharPtr) : Outcome Server := do
  let sets ← scanSets sv name
  if sets = none ∨ sv.st.sets.size = 0 then do
    let made ← bucketsetCreatePrinting outputs sv.m sv.fs chance name (sliceValue sv.st.cf.dataDir)
      (UInt64.ofNat (CInt.toUInt64 sv.st.cf.bucketSize))
      (UInt64.ofNat (CInt.toUInt64 sv.st.cf.setHashRange))
      (UInt64.ofNat (CInt.toUInt64 sv.st.cf.dataLength))
    let pushed ← vectorPushBack sv.st.sets (some made.2.2)
    .ok { m := made.1, fs := made.2.1, st := { sv.st with sets := pushed.1 } }
  else .ok sv

/-- The handling of a request, with what is printed on the way.  A request to put an object that is
handled leaves the files as they are, so that it prints before it or after it. -/
def Server.handlePrinting (sv : Server) (outputs : ℕ → List Output) :
    ClientRequest → Outcome Server
  | .putObject io bucketIndex req => sv.handle (.putObject io bucketIndex req)
  | .putBucketset chance req =>
      handlePutBucketsetPrinting outputs chance sv (fieldPtr req RequestPutBucketset.setName)

/-- Without anything to print, it is the handling of the request. -/
theorem Server.handlePrinting_nothing (sv : Server) (rq : ClientRequest) :
    sv.handlePrinting (fun _ => []) rq = sv.handle rq := by
  cases rq with
  | putObject io bucketIndex req => rfl
  | putBucketset chance req => rfl

/-- What happens to the server: a request is handled, or something is printed. -/
inductive ServerEvent where
  | request (rq : ClientRequest) (outputs : ℕ → List Output)
  | output (o : Output)

/-- The step. -/
def Server.event (sv : Server) : ServerEvent → Outcome Server
  | .request rq outputs => sv.handlePrinting outputs rq
  | .output o => .ok { sv with fs := sv.fs.print o }

/-- The descriptors that are printed to. -/
def IsPrinted (fd : ℤ) : Prop := fd = Log.Logger.zero.fd ∨ fd = stdoutFileno

/-- They are open, on files that are there. -/
def Fs.StandardOpen (fs : Fs) : Prop :=
  ∀ fd, IsPrinted fd → ∃ name, fs.fileOf fd = some name ∧ fs.files name ≠ none

/-! ### All files -/

/-- The files that the buckets are open on. -/
def openFiles (fs : Fs) (buckets : List Bucket) : List Bytes :=
  (buckets.map Bucket.fd).filterMap fs.fileOf

/-- The files that were there are as they were, but for those that are printed to, the buckets have
files of their own, and there are no others. -/
structure FilesKept (fs₀ fs : Fs) (buckets : List Bucket) : Prop where
  files : ∀ name content, fs₀.files name = some content →
    (∀ fd, IsPrinted fd → fs₀.fileOf fd ≠ some name) → fs.files name = some content
  opened : ∀ fd name, fs₀.fileOf fd = some name → fs.fileOf fd = some name
  own : ∀ bt ∈ buckets, ∃ file, bt.OnOwnFile fs₀ fs file
  apart : (openFiles fs buckets).Nodup
  made : ∀ name, fs.files name ≠ none ↔ fs₀.files name ≠ none ∨ name ∈ openFiles fs buckets

namespace FilesKept

variable {fs₀ fs fs' : Fs} {buckets : List Bucket} {bt bt' : Bucket} {file : Bytes}

/-- There are no buckets yet. -/
theorem start (fs : Fs) : FilesKept fs fs [] where
  files _ _ h _ := h
  opened _ _ h := h
  own _ h := absurd h List.not_mem_nil
  apart := List.nodup_nil
  made name := by simp [openFiles]

/-- The files of the buckets and one more. -/
theorem openFiles_concat (fs : Fs) (buckets : List Bucket) (bt : Bucket) :
    openFiles fs (buckets ++ [bt]) = openFiles fs buckets ++ (fs.fileOf bt.fd).toList := by
  rw [openFiles, List.map_append, List.filterMap_append, openFiles, List.map_singleton]
  cases hfd : fs.fileOf bt.fd with
  | none => rw [List.filterMap_cons_none hfd]; rfl
  | some name => rw [List.filterMap_cons_some hfd]; rfl

/-- A new bucket that has no descriptor. -/
theorem concat_there (h : FilesKept fs₀ fs buckets) (hown : bt.OnOwnFile fs₀ fs file)
    (hfd : bt.fd = -1) : FilesKept fs₀ fs (buckets ++ [bt]) := by
  have hopen : openFiles fs (buckets ++ [bt]) = openFiles fs buckets := by
    rw [openFiles_concat, hfd, Fs.fileOf_neg_one, Option.toList_none, List.append_nil]
  refine ⟨h.files, h.opened, ?_, ?_, ?_⟩
  · intro b hb
    rcases List.mem_append.1 hb with hold | hnew
    · exact h.own b hold
    · rw [List.mem_singleton] at hnew
      exact ⟨file, hnew ▸ hown⟩
  · rw [hopen]
    exact h.apart
  · rw [hopen]
    exact h.made

/-- A new bucket whose file is made. -/
theorem concat_opened (h : FilesKept fs₀ fs buckets)
    (hopened : Fs.Opened fs fs' bt.fd file (List.replicate bt.dataFileMaxLength.toNat 0))
    (hcur : bt.dataFileCurLength = 0) (hsize : bt.cache.size = 0)
    (hname : dataFileName bt.name bt.index = .ok file) :
    FilesKept fs₀ fs' (buckets ++ [bt]) := by
  have hfresh₀ : fs₀.files file = none := by
    by_contra hold
    exact (h.made file).2 (Or.inl hold) hopened.fresh
  have hfree₀ : fs₀.fileOf bt.fd = none := by
    cases hold : fs₀.fileOf bt.fd with
    | none => rfl
    | some name => rw [← hopened.free, h.opened bt.fd name hold]
  have hnew : file ∉ openFiles fs buckets := fun hmem =>
    (h.made file).2 (Or.inr hmem) hopened.fresh
  have hopen : openFiles fs' (buckets ++ [bt]) = openFiles fs buckets ++ [file] := by
    have hold : openFiles fs' buckets = openFiles fs buckets := by
      rw [openFiles, openFiles]
      refine List.filterMap_congr ?_
      intro fd hfd
      obtain ⟨b, hb, rfl⟩ := List.mem_map.1 hfd
      obtain ⟨name, hown⟩ := h.own b hb
      exact (hown.opened hopened).2
    rw [openFiles_concat, hold, hopened.opened, Option.toList_some]
  refine ⟨?_, ?_, ?_, ?_, ?_⟩
  · intro name content hcontent hprinted
    have hne : name ≠ file := by
      rintro rfl
      rw [hfresh₀] at hcontent
      cases hcontent
    rw [hopened.files name hne]
    exact h.files name content hcontent hprinted
  · intro fd name hfd
    have hne : fd ≠ bt.fd := by
      rintro rfl
      rw [hfree₀] at hfd
      cases hfd
    rw [hopened.others fd hne]
    exact h.opened fd name hfd
  · intro b hb
    rcases List.mem_append.1 hb with hold | hlast
    · obtain ⟨name, hown⟩ := h.own b hold
      exact ⟨name, (hown.opened hopened).1⟩
    · rw [List.mem_singleton] at hlast
      subst hlast
      have hexists : fs'.files file ≠ none := by simp [hopened.content_eq]
      exact ⟨file, hcur, hsize, hname, hexists,
        Or.inr ⟨hopened.opened, hfree₀, hfresh₀, hopened.content_eq⟩⟩
  · rw [hopen, ← List.concat_eq_append]
    exact h.apart.concat hnew
  · intro name
    rw [hopen, List.mem_append, List.mem_singleton, ← or_assoc, ← h.made]
    by_cases heq : name = file
    · subst heq
      simp [hopened.content_eq]
    · simp [heq, hopened.files name heq]

/-! ### Something that is printed -/

/-- What is printed changes the file of its descriptor only, which no bucket is open on. -/
theorem append (h : FilesKept fs₀ fs buckets) (hstd : fs₀.StandardOpen) {fd : ℤ}
    (hfd : IsPrinted fd) (bytes : Bytes) : FilesKept fs₀ (fs.append fd bytes) buckets := by
  obtain ⟨std, hopen₀, hexists₀⟩ := hstd fd hfd
  have hopen := h.opened fd std hopen₀
  have hexists : fs.files std ≠ none := (h.made std).2 (Or.inl hexists₀)
  have hothers : ∀ name, name ≠ std → (fs.append fd bytes).files name = fs.files name :=
    fun name hne => Fs.append_files_ne hopen bytes hne
  have hthere : ∀ name, (fs.append fd bytes).files name ≠ none ↔ fs.files name ≠ none := by
    intro name
    by_cases heq : name = std
    · subst heq
      have hstill : (fs.append fd bytes).files name ≠ none := by
        rw [Fs.append, hopen, Fs.setFile_files_self]
        exact Option.some_ne_none _
      exact iff_of_true hstill hexists
    · rw [hothers name heq]
  have hfiles : openFiles (fs.append fd bytes) buckets = openFiles fs buckets := by
    rw [openFiles, openFiles, funext fun other => Fs.fileOf_append fs fd other bytes]
  refine ⟨?_, ?_, ?_, ?_, ?_⟩
  · intro name content hcontent hprinted
    have hne : name ≠ std := by
      rintro rfl
      exact hprinted fd hfd hopen₀
    rw [hothers name hne]
    exact h.files name content hcontent hprinted
  · intro other name hother
    rw [Fs.fileOf_append]
    exact h.opened other name hother
  · intro b hb
    obtain ⟨file, hown⟩ := h.own b hb
    refine ⟨file, hown.curLength, hown.hidden, hown.name_eq, (hthere file).2 hown.exists_file, ?_⟩
    refine hown.descriptor.imp_right ?_
    rintro ⟨hfile, hfree₀, hfresh₀, hcontent⟩
    have hne : file ≠ std := by
      rintro rfl
      exact hexists₀ hfresh₀
    rw [Fs.fileOf_append, hothers file hne]
    exact ⟨hfile, hfree₀, hfresh₀, hcontent⟩
  · rw [hfiles]
    exact h.apart
  · intro name
    rw [hfiles, hthere]
    exact h.made name

theorem print (h : FilesKept fs₀ fs buckets) (hstd : fs₀.StandardOpen) (o : Output) :
    FilesKept fs₀ (fs.print o) buckets := by
  cases o with
  | logLine bytes => exact h.append hstd (Or.inl rfl) bytes
  | printed bytes => exact h.append hstd (Or.inr rfl) bytes

theorem prints (h : FilesKept fs₀ fs buckets) (hstd : fs₀.StandardOpen) (outputs : List Output) :
    FilesKept fs₀ (fs.prints outputs) buckets := by
  induction outputs generalizing fs with
  | nil => exact h
  | cons o outputs ih => exact ih (h.print hstd o)

/-! ### A set that is made -/

/-- One turn of the creation loop. -/
theorem fill {chance : ℕ → FsChance} {dataDir name : CharPtr} {rangeCount unit : UInt64}
    {s t : Building} {i : ℕ} (h : FilesKept fs₀ s.fs s.buckets)
    (hturn : bucketsetFill chance dataDir name rangeCount unit s i = .ok t) :
    FilesKept fs₀ t.fs t.buckets := by
  rw [bucketsetFill] at hturn
  simp only [Outcome.bind_eq_ok] at hturn
  obtain ⟨buffer, -, ⟨made, fs₁⟩, hmade, hturn⟩ := hturn
  cases made with
  | none => cases hturn
  | some bt =>
      rw [Outcome.bind_eq_ok] at hturn
      obtain ⟨pushed, -, hturn⟩ := hturn
      cases hturn
      obtain ⟨-, hfd, -, -, hmax, hcur, hindex, -, -, hsize, -⟩ := bucketCreate_ok hmade
      rw [← hmax, ← hindex] at hfd
      obtain ⟨file, hfile, ⟨hthere, hnone, rfl⟩ | hopened⟩ := bucketCreateDataFd_opened hfd
      · exact h.concat_there ⟨hcur, hsize, hfile, hthere, Or.inl hnone⟩ hnone
      · exact h.concat_opened hopened hcur hsize hfile

/-- A set that is made makes the files of its buckets, whatever is printed meanwhile. -/
theorem create (hstd : fs₀.StandardOpen) {outputs : ℕ → List Output} {m m' : Memory}
    {chance : ℕ → FsChance} {name dataDir : CharPtr} {n base unit : UInt64} {a : Addr}
    (h : FilesKept fs₀ fs m.buckets)
    (hmade : bucketsetCreatePrinting outputs m fs chance name dataDir n base unit =
      .ok (m', fs', a)) : FilesKept fs₀ fs' m'.buckets := by
  rw [bucketsetCreatePrinting] at hmade
  simp only [Outcome.bind_eq_ok] at hmade
  obtain ⟨vec, -, dir, -, set, -, built, hfill, hmade⟩ := hmade
  cases hmade
  exact Outcome.foldlM_ok_inv (I := fun s : Building => FilesKept fs₀ s.fs s.buckets) hfill h
    fun _ _ _ _ hturn hs => (hs.prints hstd _).fill hturn

/-! ### An object that is put -/

/-- A put on one of the buckets. -/
theorem put (h : FilesKept fs₀ fs buckets) {a : Addr} (hbt : buckets[a]? = some bt) {io : PutIo}
    {obj : BucketObject} {r : ℤ × Bucket × Fs × Source} (hput : bucketPut fs io bt obj = .ok r) :
    FilesKept fs₀ r.2.2.1 (buckets.set a r.2.1) := by
  obtain ⟨hlt, hget⟩ := List.getElem?_eq_some_iff.1 hbt
  obtain ⟨file, hown⟩ := h.own bt (hget ▸ List.getElem_mem hlt)
  obtain ⟨hfs, hfd, hown'⟩ := hown.put hput
  have hlen : a < (buckets.map Bucket.fd).length := by
    rw [List.length_map]
    exact hlt
  have hold : (buckets.map Bucket.fd)[a] = bt.fd := by rw [List.getElem_map, hget]
  have hopen : openFiles fs (buckets.set a r.2.1) = openFiles fs buckets := by
    rw [openFiles, openFiles, List.map_set, hfd, ← hold, List.set_getElem_self]
  rw [hfs]
  refine ⟨h.files, h.opened, ?_, ?_, ?_⟩
  · intro b hb
    rcases List.mem_or_eq_of_mem_set hb with hold | rfl
    · exact h.own b hold
    · exact ⟨file, hown'⟩
  · rw [hopen]
    exact h.apart
  · rw [hopen]
    exact h.made

end FilesKept

/-! ### Runs -/

section

variable {fs₀ : Fs} {sv sv' : Server}

theorem handlePutBucketset_filesKept (hstd : fs₀.StandardOpen)
    (h : FilesKept fs₀ sv.fs sv.m.buckets) {outputs : ℕ → List Output} {chance : ℕ → FsChance}
    {name : CharPtr} (hok : handlePutBucketsetPrinting outputs chance sv name = .ok sv') :
    FilesKept fs₀ sv'.fs sv'.m.buckets := by
  rw [handlePutBucketsetPrinting, Outcome.bind_eq_ok] at hok
  obtain ⟨sets, -, hok⟩ := hok
  split at hok
  · simp only [Outcome.bind_eq_ok] at hok
    obtain ⟨⟨m', fs', a⟩, hmade, pushed, -, hok⟩ := hok
    cases hok
    exact h.create hstd hmade
  · cases hok
    exact h

theorem handlePutObject_filesKept (h : FilesKept fs₀ sv.fs sv.m.buckets) {io : PutIo}
    {bucketIndex : UInt64} {req : Bytes} {r : Server × Source × Option ℤ}
    (hok : handlePutObject sv io bucketIndex req = .ok r) :
    FilesKept fs₀ r.1.fs r.1.m.buckets := by
  rw [handlePutObject] at hok
  simp only [Outcome.bind_eq_ok] at hok
  obtain ⟨len, -, hash, -, sets, -, hok⟩ := hok
  cases sets with
  | none =>
      cases hok
      exact h
  | some a =>
      simp only [Outcome.bind_eq_ok] at hok
      obtain ⟨bst, -, found, -, bt, hbt, nameLen, -, put, hput, hok⟩ := hok
      cases hok
      -- the search has a result, since the bucket was read through it
      cases found with
      | none => cases hbt
      | some a =>
          rw [Memory.bucket] at hbt
          split at hbt
          · rename_i b hget
            cases hbt
            exact h.put hget hput
          · cases hbt

theorem event_filesKept (hstd : fs₀.StandardOpen) (h : FilesKept fs₀ sv.fs sv.m.buckets)
    {e : ServerEvent} (hok : sv.event e = .ok sv') : FilesKept fs₀ sv'.fs sv'.m.buckets := by
  cases e with
  | output o =>
      cases hok
      exact h.print hstd o
  | request rq outputs =>
      cases rq with
      | putObject io bucketIndex req =>
          rw [Server.event, Server.handlePrinting, Server.handle, Outcome.bind_eq_ok] at hok
          obtain ⟨put, hput, hok⟩ := hok
          cases hok
          exact handlePutObject_filesKept h hput
      | putBucketset chance req => exact handlePutBucketset_filesKept hstd h hok

/-- **What every run leaves in the files.**  For every file system in which the descriptors that are
printed to are open, every store and every sequence of requests that are handled, with anything
printed before, between and after them and before each bucket of a set is made: each file that was
there and is not printed to holds what it held, each descriptor that was open leads where it led,
the buckets that have descriptors are open on files of their own, which were not there before and
hold nothing but the zeros they were reserved with, and no other file was made. -/
theorem run_filesKept {fs : Fs} (hstd : fs.StandardOpen) {st : SdsStore} {es : List ServerEvent}
    (hrun : es.foldlM Server.event (Server.start fs st) = .ok sv) :
    FilesKept fs sv.fs sv.m.buckets :=
  Outcome.foldlM_ok_inv (I := fun s : Server => FilesKept fs s.fs s.m.buckets) hrun
    (FilesKept.start fs) fun _ _ _ _ hok hs => event_filesKept hstd hs hok

end

/-- A store as it is, but for sets that get two buckets each. -/
def SdsStore.twoBuckets (ss : SdsStore) : SdsStore :=
  { ss with cf := { ss.cf with bucketSize := 2, setHashRange := 0, dataLength := 64 } }

/-- The set `s` is made in such a store. -/
theorem makeS_twoBuckets (fs : Fs) : ∃ ss sv, sdsStoreInit parseEmptyObject emptyObjectIo = .ok ss ∧
    (Server.start fs ss.twoBuckets).handle makeS = .ok sv ∧ sv.m.buckets ≠ [] := by
  obtain ⟨ss, hss, hdir⟩ := sdsStoreInit_emptyObject
  obtain ⟨hsize, hcap, -⟩ := sdsStoreInit_ok hss
  have hpos : 0 < ss.sets.cap := by
    rw [hcap]
    decide
  have hname : CString.NoNul [115] := by decide
  have hn : callocServes (2 : UInt64).toNat := by decide
  have hunit : Accepted (64 * 1024 * 1024) := by decide
  have hserves : ∀ i < (2 : UInt64).toNat, callocServes
      ((UInt64.ofNat i + 1) * bucketsetHashRangeRound 0 - 1 -
        UInt64.ofNat i * bucketsetHashRangeRound 0).toNat := by decide +kernel
  obtain ⟨m, fs', a, hmade⟩ := bucketsetCreate_isOk Memory.empty fs hname
    (List.replicate (RequestPutBucketset.size - 2) 0) hn hunit hserves
  obtain ⟨pushed, hpush⟩ := vectorPushBack_isOk hpos a
  obtain ⟨bst, -, hranges⟩ := bucketsetCreate_ranges hmade
  obtain ⟨b, bt, -, hbt, -⟩ := hranges.bucket 0 (by decide)
  refine ⟨ss, { m := m, fs := fs', st := { ss.twoBuckets with sets := pushed.1 } }, hss, ?_, ?_⟩
  · have hscan : ∀ name, scanSets (Server.start fs ss.twoBuckets) name = .ok none :=
      scanSets_of_size_eq_zero hsize
    rw [makeS, Server.handle, handlePutBucketset, hscan, Outcome.ok_bind, if_pos (Or.inl rfl)]
    simp only [Server.start, SdsStore.twoBuckets, hdir]
    exact Outcome.bind_eq_ok.2 ⟨_, hmade, Outcome.bind_eq_ok.2 ⟨pushed, hpush, rfl⟩⟩
  · intro hnil
    dsimp only at hnil
    rw [hnil] at hbt
    cases hbt

/-- A file system with one file `tty`, which the standard descriptors are open on. -/
def Fs.terminal : Fs :=
  { Fs.empty.setFile [0x74, 0x74, 0x79] [] with
    fds := [some [0x74, 0x74, 0x79], some [0x74, 0x74, 0x79], some [0x74, 0x74, 0x79]] }

theorem Fs.standardOpen_terminal : Fs.terminal.StandardOpen := by
  have hfile : Fs.terminal.files [0x74, 0x74, 0x79] = some [] :=
    Fs.setFile_files_self Fs.empty [0x74, 0x74, 0x79] []
  have hthere : Fs.terminal.files [0x74, 0x74, 0x79] ≠ none := by
    rw [hfile]
    exact Option.some_ne_none _
  rintro fd (rfl | rfl)
  · exact ⟨_, rfl, hthere⟩
  · exact ⟨_, rfl, hthere⟩

/-- The result applied to a run in which two buckets are made, and a line is written after that. -/
theorem run_filesKept_twoBuckets :
    ∃ ss sv, sdsStoreInit parseEmptyObject emptyObjectIo = .ok ss ∧
      [.request makeS fun _ => [], .output (.logLine [0x68, 0x69, 0x0a])].foldlM Server.event
        (Server.start Fs.terminal ss.twoBuckets) = .ok sv ∧
      sv.m.buckets ≠ [] ∧ FilesKept Fs.terminal sv.fs sv.m.buckets := by
  obtain ⟨ss, sv, hss, hmade, hne⟩ := makeS_twoBuckets Fs.terminal
  have hrun : [.request makeS fun _ => [], .output (.logLine [0x68, 0x69, 0x0a])].foldlM
      Server.event (Server.start Fs.terminal ss.twoBuckets) =
        .ok { sv with fs := sv.fs.print (.logLine [0x68, 0x69, 0x0a]) } := by
    rw [List.foldlM_cons, Server.event, Server.handlePrinting_nothing, hmade, Outcome.ok_bind]
    rfl
  exact ⟨ss, _, hss, hrun, hne, run_filesKept Fs.standardOpen_terminal hrun⟩
