/-
**Putting objects into the sets of a configured store.**

Objects go to the bucket of their set that the hash of their identifier falls into.  A set gets as
many buckets as the configuration says, and no configuration that is read from a file says how
many: the field stays as `calloc` left it.  Sets are therefore made with no buckets at all, the
search for a bucket has no result, and the handler reads the current offset through it.

Main definitions:

* `ClientRequest`, `Server.handle` — the requests of both kinds, and their handling;
* `NoBuckets` — the invariant of a store whose configuration was read;
* `HasBucket` — what a request to put an object needs.

Main results:

* `handle_noBuckets`, `run_noBuckets` — the invariant is kept, by a request and by a run of them;
* `putObject_undefined` — **an object of an existing set never has a bucket**.
-/

import SdsStorage.Routing

set_option relaxedAutoImplicit false
set_option autoImplicit false

/-! ### Requests of both kinds -/

/-- A request as the switch of `read_cb` gets it, with what its handling meets. -/
inductive ClientRequest where
  | putObject (io : PutIo) (bucketIndex : UInt64) (req : Bytes)
  | putBucketset (chance : ℕ → FsChance) (req : Bytes)

/-- The handling of a request. -/
def Server.handle (sv : Server) : ClientRequest → Outcome Server
  | .putObject io bucketIndex req => do
      let put ← handlePutObject sv io bucketIndex req
      .ok put.1
  | .putBucketset chance req =>
      handlePutBucketset chance sv (fieldPtr req RequestPutBucketset.setName)

/-- The configuration asks for no buckets, and no set has any. -/
structure NoBuckets (sv : Server) : Prop where
  conf : sv.st.cf.bucketSize = 0
  sets : ∀ bst ∈ sv.m.bucketsets, bst.buckets.size = 0

theorem noBuckets_start {jsonLoads : Bytes → Option Json} {io : ConfIo} {ss : SdsStore}
    (hinit : sdsStoreInit jsonLoads io = .ok ss) (fs : Fs) : NoBuckets (Server.start fs ss) where
  conf := (confCreate_ok (sdsStoreInit_ok hinit).2.2).1
  sets := by
    intro bst hbst
    cases hbst

section

variable {sv sv' : Server}

/-- A set that is made for a request has as many buckets as the configuration asks for. -/
theorem handlePutBucketset_noBuckets (h : NoBuckets sv) {chance : ℕ → FsChance} {name : CharPtr}
    (hok : handlePutBucketset chance sv name = .ok sv') : NoBuckets sv' := by
  rw [handlePutBucketset] at hok
  rw [Outcome.bind_eq_ok] at hok
  obtain ⟨sets, -, hok⟩ := hok
  split at hok
  · simp only [Outcome.bind_eq_ok] at hok
    obtain ⟨⟨m', fs', a⟩, hmade, ⟨vec, status⟩, -, hok⟩ := hok
    cases hok
    obtain ⟨made, hm, -, -, -, hranges⟩ := bucketsetCreate_ok hmade
    refine ⟨h.conf, ?_⟩
    intro bst hbst
    dsimp only at hbst
    rw [hm, List.mem_append, List.mem_singleton] at hbst
    rcases hbst with hold | rfl
    · exact h.sets bst hold
    · rw [hranges.size_eq, h.conf]
      rfl
  · cases hok
    exact h

/-- A set that the scan selects is a set of the store. -/
theorem bucketset_of_scanSets {name : CharPtr} {a : Addr} (h : scanSets sv name = .ok (some a)) :
    ∃ bst, sv.m.bucketset (some a) = .ok bst := by
  have hturn : ∀ i (r : Outcome (Option Addr)), scanTurn sv name i = some r →
      r = .ok (some a) → ∃ bst, sv.m.bucketset (some a) = .ok bst := by
    intro i r hr hra
    subst hra
    rw [scanTurn] at hr
    split at hr
    · cases hr
    · rename_i bst hbst
      split at hr
      · cases hr
      · split at hr
        · simp only [Option.some.injEq, Except.ok.injEq] at hr
          rw [hr] at hbst
          exact ⟨bst, hbst⟩
        · cases hr
  rw [scanSets] at h
  cases hloop : Loop.forInt (scanTurn sv name) sv.st.sets.size with
  | none =>
      rw [hloop] at h
      cases h
  | some r =>
      rw [hloop] at h
      exact Loop.forInt_inv hturn hloop h

/-- The search of a set without buckets has no result, whatever the hash. -/
theorem bucketsetSearchBucket_of_size_eq_zero {m : Memory} {bst : Bucketset}
    (h : bst.buckets.size = 0) (hash : UInt64) : bucketsetSearchBucket m bst hash = .ok none := by
  have hnone := Loop.forInt_of_none (searchTurn m bst hash) (n := 0) (by omega) fun i hi => by
    omega
  rw [bucketsetSearchBucket, h, hnone]
  rfl

/-- The set that a request to put an object names has no buckets. -/
theorem NoBuckets.selected (h : NoBuckets sv) {name : CharPtr} {a : Addr}
    (hscan : scanSets sv name = .ok (some a)) :
    ∃ bst, sv.m.bucketset (some a) = .ok bst ∧
      ∀ hash, bucketsetSearchBucket sv.m bst hash = .ok none := by
  obtain ⟨bst, hbst⟩ := bucketset_of_scanSets hscan
  refine ⟨bst, hbst, bucketsetSearchBucket_of_size_eq_zero (h.sets bst ?_)⟩
  unfold Memory.bucketset at hbst
  dsimp only at hbst
  split at hbst
  · rename_i b hb
    cases hbst
    exact List.mem_of_getElem? hb
  · cases hbst

/-- A request to put an object that is handled found no set, and leaves the server as it is. -/
theorem handlePutObject_noBuckets (h : NoBuckets sv) {io : PutIo} {bucketIndex : UInt64}
    {req : Bytes} {r : Server × Source × Option ℤ}
    (hok : handlePutObject sv io bucketIndex req = .ok r) : r = (sv, io.sock, some (-1)) := by
  rw [handlePutObject] at hok
  simp only [Outcome.bind_eq_ok] at hok
  obtain ⟨len, -, hash, -, sets, hscan, hok⟩ := hok
  cases sets with
  | none =>
      cases hok
      rfl
  | some a =>
      obtain ⟨bst, hbst, hsearch⟩ := h.selected hscan
      simp only [hbst, hsearch, Outcome.ok_bind] at hok
      cases hok

theorem handle_noBuckets (h : NoBuckets sv) {rq : ClientRequest} (hok : sv.handle rq = .ok sv') :
    NoBuckets sv' := by
  cases rq with
  | putObject io bucketIndex req =>
      rw [Server.handle] at hok
      rw [Outcome.bind_eq_ok] at hok
      obtain ⟨put, hput, hok⟩ := hok
      rw [handlePutObject_noBuckets h hput] at hok
      cases hok
      exact h
  | putBucketset chance req => exact handlePutBucketset_noBuckets h hok

theorem run_noBuckets (h : NoBuckets sv) {rs : List ClientRequest}
    (hrun : rs.foldlM Server.handle sv = .ok sv') : NoBuckets sv' :=
  Outcome.foldlM_ok_inv hrun h fun _ _ _ _ hok hs => handle_noBuckets hs hok

/-! ### The bucket of an object -/

/-- What a request to put an object needs: if it names a set, the search of that set for the hash
of the object's identifier has a result. -/
def HasBucket (sv : Server) (req : Bytes) : Prop :=
  ∀ a bst len hash, scanSets sv (fieldPtr req RequestPutObject.setName) = .ok (some a) →
    sv.m.bucketset (some a) = .ok bst →
    CString.strlen (req.drop RequestPutObject.uid) = .ok len →
    Hash.gfsHashfn (fieldPtr req RequestPutObject.uid) len = .ok hash →
    ∃ b, bucketsetSearchBucket sv.m bst hash = .ok (some b)

/-- Without buckets, a request that names a set has none, and its handling goes wrong. -/
theorem NoBuckets.not_hasBucket (h : NoBuckets sv) {req : Bytes} {a : Addr} {len : ℕ}
    (hscan : scanSets sv (fieldPtr req RequestPutObject.setName) = .ok (some a))
    (hlen : CString.strlen (req.drop RequestPutObject.uid) = .ok len) :
    ¬ HasBucket sv req ∧
      ∀ io bucketIndex, handlePutObject sv io bucketIndex req = .error .nullDeref := by
  obtain ⟨bst, hbst, hsearch⟩ := h.selected hscan
  obtain ⟨hash, hhash⟩ : ∃ hash, Hash.gfsHashfn (fieldPtr req RequestPutObject.uid) len =
      .ok hash := Hash.gfsHashfn_isOk (CString.strlen_lt hlen).le
  constructor
  · intro hbucket
    obtain ⟨b, hb⟩ := hbucket a bst len hash hscan hbst hlen hhash
    rw [hsearch] at hb
    cases hb
  · intro io bucketIndex
    simp only [handlePutObject, hlen, hhash, hscan, hbst, hsearch, Outcome.ok_bind, Memory.bucket]
    rfl

end

/-- **An object of an existing set never has a bucket.**  After any requests to a store whose
configuration was read, the search of the set that a request to put an object names has no result
for any hash, and the handler reads through a null pointer as soon as the identifier ends. -/
theorem putObject_undefined {jsonLoads : Bytes → Option Json} {io : ConfIo} {ss : SdsStore}
    (hinit : sdsStoreInit jsonLoads io = .ok ss) {fs : Fs} {rs : List ClientRequest} {sv : Server}
    (hrun : rs.foldlM Server.handle (Server.start fs ss) = .ok sv) {req : Bytes} {a : Addr}
    (hscan : scanSets sv (fieldPtr req RequestPutObject.setName) = .ok (some a)) :
    (∃ bst, sv.m.bucketset (some a) = .ok bst ∧
      ∀ hash, bucketsetSearchBucket sv.m bst hash = .ok none) ∧
    ∀ len, CString.strlen (req.drop RequestPutObject.uid) = .ok len →
      ¬ HasBucket sv req ∧
      ∀ io bucketIndex, handlePutObject sv io bucketIndex req = .error .nullDeref := by
  have h := run_noBuckets (noBuckets_start hinit fs) hrun
  exact ⟨h.selected hscan, fun _ hlen => h.not_hasBucket hscan hlen⟩

/-- A request to put an empty object without a name or an identifier into the set `s`. -/
def objectForS : Bytes :=
  List.replicate RequestPutObject.setName 0 ++
    115 :: List.replicate (RequestPutObject.size - RequestPutObject.setName - 1) 0

theorem setName_objectForS : fieldPtr objectForS RequestPutObject.setName =
    .mem ([115] ++ 0 :: List.replicate 295 0) := by
  rw [fieldPtr, objectForS, List.drop_left' List.length_replicate]
  rfl

theorem uid_objectForS : objectForS.drop RequestPutObject.uid = 0 :: List.replicate 41 0 := by
  have hsplit : RequestPutObject.uid = RequestPutObject.setName + 255 := rfl
  rw [objectForS, hsplit, ← List.drop_drop, List.drop_left' List.length_replicate,
    List.drop_succ_cons, List.drop_replicate]
  rfl

/-- A request to make the set `s`. -/
def makeS : ClientRequest :=
  .putBucketset (fun _ => { openFails := false, fallocateFails := false })
    (115 :: List.replicate (RequestPutBucketset.size - 1) 0)

/-- The set `s` is found once it was made. -/
theorem makeS_found :
    ∃ ss sv a, sdsStoreInit parseEmptyObject emptyObjectIo = .ok ss ∧
      [makeS].foldlM Server.handle (Server.start Fs.empty ss) = .ok sv ∧
      scanSets sv (fieldPtr objectForS RequestPutObject.setName) = .ok (some a) := by
  obtain ⟨ss, hss, hcf⟩ := sdsStoreInit_ready
  have hs : CString.NoNul [115] := by decide
  have hstart := storeInv_start hss Fs.empty
  obtain ⟨sv, hstep, -⟩ := putBucketset_isOk hstart hcf (requestFor [115] hs)
  have hnamed := (handlePutBucketset_named hstart hstep).1.toSetsNamed
  have hslot := (Cover.slot_register_self (c := prefixCover) (l := []) (s := [115])
    scanReach_lt.le).2 (Or.inr (by decide))
  obtain ⟨a, ha⟩ := (exists_scanSets_iff hnamed hs (List.replicate 295 0)).2 hslot
  refine ⟨ss, sv, a, hss, ?_, by rw [setName_objectForS, ha]⟩
  rw [List.foldlM_cons]
  exact Outcome.bind_eq_ok.2 ⟨sv, hstep, rfl⟩

/-- The result applied to these requests. -/
theorem putObject_undefined_makeS :
    ∃ ss sv a, sdsStoreInit parseEmptyObject emptyObjectIo = .ok ss ∧
      [makeS].foldlM Server.handle (Server.start Fs.empty ss) = .ok sv ∧
      scanSets sv (fieldPtr objectForS RequestPutObject.setName) = .ok (some a) ∧
      (∃ bst, sv.m.bucketset (some a) = .ok bst ∧
        ∀ hash, bucketsetSearchBucket sv.m bst hash = .ok none) ∧
      ∀ len, CString.strlen (objectForS.drop RequestPutObject.uid) = .ok len →
        ¬ HasBucket sv objectForS ∧
        ∀ io bucketIndex, handlePutObject sv io bucketIndex objectForS = .error .nullDeref := by
  obtain ⟨ss, sv, a, hss, hrun, hscan⟩ := makeS_found
  exact ⟨ss, sv, a, hss, hrun, hscan, putObject_undefined hss hrun hscan⟩

/-- After the set `s` was made, an object that is put into it has no bucket. -/
theorem objectForS_not_hasBucket :
    ∃ ss sv, sdsStoreInit parseEmptyObject emptyObjectIo = .ok ss ∧
      [makeS].foldlM Server.handle (Server.start Fs.empty ss) = .ok sv ∧
      ¬ HasBucket sv objectForS := by
  obtain ⟨ss, sv, a, hss, hrun, hscan⟩ := makeS_found
  have h := run_noBuckets (noBuckets_start hss Fs.empty) hrun
  have hlen : CString.strlen (objectForS.drop RequestPutObject.uid) = .ok 0 := by
    rw [uid_objectForS]
    rfl
  exact ⟨ss, sv, hss, hrun, (h.not_hasBucket hscan hlen).1⟩
