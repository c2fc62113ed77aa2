/-
**Where an object is placed.**

The switch of `read_cb` hashes the identifier of an object, and searches the set for the bucket the
hash falls into.  The identifier fills its field of 32 bytes, and the handler takes its length with
`strlen`: unless a byte of the identifier happens to be zero, the padding, the length of the data
and whatever lies behind the structure go into the hash as well.

Main definitions:

* `objectHash`, `selectedBucket` — the hash of a request, and the bucket it leads to;
* `IsObjectRequest`, `SameSet` — the requests with one identifier, and those for one set;
* `PlacedByUid` — all requests with one identifier are placed alike.

Main results:

* `handlePutObject_eq` — the handler puts the object into the bucket that is selected;
* `placedByUid_iff` — **the identifier alone decides exactly when it contains a zero byte**.
-/

import SdsStorage.NetSocket

set_option relaxedAutoImplicit false
set_option autoImplicit false

/-! ### The bucket that is selected -/

/-- The hash `read_cb` computes for a request. -/
def objectHash (req : Bytes) : Outcome UInt64 := do
  let len ← CString.strlen (req.drop RequestPutObject.uid)
  Hash.gfsHashfn (fieldPtr req RequestPutObject.uid) len

/-- What the search for a bucket gives, when the scan selects a set. -/
def selectedBucket (sv : Server) (req : Bytes) : Outcome (Option (Option Addr)) := do
  let hash ← objectHash req
  let sets ← scanSets sv (fieldPtr req RequestPutObject.setName)
  match sets with
  | none => .ok none
  | some a => do
      let bst ← sv.m.bucketset (some a)
      let found ← bucketsetSearchBucket sv.m bst hash
      .ok (some found)

/-- The put of the object of a request into the bucket that was found. -/
def putFound (sv : Server) (io : PutIo) (bucketIndex : UInt64) (req : Bytes)
    (found : Option Addr) : Outcome (ℤ × Bucket × Fs × Source) := do
  let bt ← sv.m.bucket found
  let nameLen ← CString.strlen (req.drop RequestPutObject.objectName)
  bucketPut sv.fs io bt
    (bucketObjectInit bucketIndex bt.currentOffset (req.drop RequestPutObject.uid)
      (UInt32.ofNat nameLen) (UInt64.ofNat (leNat req RequestPutObject.dataLength 8)))

/-- The rest of the case of `REQ_PUT_OBJECT`, once the bucket is selected. -/
def putSelected (sv : Server) (io : PutIo) (bucketIndex : UInt64) (req : Bytes) :
    Option (Option Addr) → Outcome (Server × Source × Option ℤ)
  | none => .ok (sv, io.sock, some (-1))
  | some found => do
      let put ← putFound sv io bucketIndex req found
      let buckets := sv.m.buckets.set (found.getD 0) put.2.1
      .ok ({ sv with m := { sv.m with buckets := buckets }, fs := put.2.2.1 }, put.2.2.2, none)

/-- A bucket is selected exactly when the scan finds a set. -/
theorem selectedBucket_ok {sv : Server} {req : Bytes} {selected : Option (Option Addr)}
    (h : selectedBucket sv req = .ok selected) :
    ∃ sets, scanSets sv (fieldPtr req RequestPutObject.setName) = .ok sets ∧
      selected.isSome = sets.isSome := by
  simp only [selectedBucket, Outcome.bind_eq_ok] at h
  obtain ⟨hash, -, sets, hscan, h⟩ := h
  refine ⟨sets, hscan, ?_⟩
  cases sets with
  | none =>
      cases h
      rfl
  | some a =>
      simp only [Outcome.bind_eq_ok] at h
      obtain ⟨bst, -, found, -, h⟩ := h
      cases h
      rfl

/-- The status is assigned when no bucket was selected; otherwise the object is put, and the result
is dropped. -/
theorem putSelected_ok {sv : Server} {io : PutIo} {bucketIndex : UInt64} {req : Bytes}
    {selected : Option (Option Addr)} {put : Server × Source × Option ℤ}
    (h : putSelected sv io bucketIndex req selected = .ok put) :
    (selected = none ∧ put.2.2 = some (-1)) ∨
      ∃ found r, selected = some found ∧ putFound sv io bucketIndex req found = .ok r ∧
        put.2.2 = none := by
  cases selected with
  | none =>
      cases h
      exact Or.inl ⟨rfl, rfl⟩
  | some found =>
      rw [putSelected] at h
      rw [Outcome.bind_eq_ok] at h
      obtain ⟨r, hfound, h⟩ := h
      cases h
      exact Or.inr ⟨found, r, rfl, hfound, rfl⟩

/-- **The handler puts the object into the bucket that is selected.** -/
theorem handlePutObject_eq (sv : Server) (io : PutIo) (bucketIndex : UInt64) (req : Bytes) :
    handlePutObject sv io bucketIndex req =
      selectedBucket sv req >>= putSelected sv io bucketIndex req := by
  rw [handlePutObject, selectedBucket, objectHash]
  simp only [bind_assoc]
  congr 1
  funext len
  congr 1
  funext hash
  congr 1
  funext sets
  cases sets with
  | none => rfl
  | some a => simp only [bind_assoc, Outcome.ok_bind, putSelected, putFound]

/-! ### Requests with one identifier -/

/-- Memory that starts with a request whose identifier is `uid`. -/
structure IsObjectRequest (uid req : Bytes) : Prop where
  size_le : RequestPutObject.size ≤ req.length
  uid_eq : (req.drop RequestPutObject.uid).take bucketObjectUidSz = uid

/-- The field of a request that holds the name of the set. -/
def setNameField (req : Bytes) : Bytes :=
  (req.drop RequestPutObject.setName).take bucketBufferLength

/-- Two requests are for one set: they name the same, or the scan selects the same for both. -/
def SameSet (sv : Server) (req req' : Bytes) : Prop :=
  setNameField req = setNameField req' ∨
    scanSets sv (fieldPtr req RequestPutObject.setName) =
      scanSets sv (fieldPtr req' RequestPutObject.setName)

/-- All requests with the identifier `uid` have the same hash, and lead to the same bucket when
they are for one set. -/
def PlacedByUid (uid : Bytes) : Prop :=
  ∀ req req', IsObjectRequest uid req → IsObjectRequest uid req' →
    (∃ hash, objectHash req = .ok hash ∧ objectHash req' = .ok hash) ∧
      ∀ sv, SameSet sv req req' → selectedBucket sv req = selectedBucket sv req'

section

variable {uid req req' : Bytes}

theorem IsObjectRequest.drop_uid (h : IsObjectRequest uid req) :
    ∃ t, req.drop RequestPutObject.uid = uid ++ t := by
  refine ⟨(req.drop RequestPutObject.uid).drop bucketObjectUidSz, ?_⟩
  rw [← h.uid_eq, List.take_append_drop]

/-- The name of the set lies right before the identifier. -/
theorem IsObjectRequest.drop_setName (h : IsObjectRequest uid req) :
    ∃ t, req.drop RequestPutObject.setName = setNameField req ++ uid ++ t := by
  obtain ⟨t, ht⟩ := h.drop_uid
  refine ⟨t, ?_⟩
  have hnext : (req.drop RequestPutObject.setName).drop bucketBufferLength =
      req.drop RequestPutObject.uid := List.drop_drop
  rw [List.append_assoc, ← ht, ← hnext, setNameField, List.take_append_drop]

/-- A zero byte in the identifier ends the message that is hashed. -/
theorem objectHash_of_mem (hzero : (0 : UInt8) ∈ uid) :
    ∃ hash, ∀ req, IsObjectRequest uid req → objectHash req = .ok hash := by
  obtain ⟨hs, r, hr⟩ := CString.eq_append_of_mem hzero
  have hlen : (uid.takeWhile (· ≠ 0)).length ≤ uid.length :=
    (List.takeWhile_prefix _).length_le
  obtain ⟨hash, hhash⟩ := Hash.gfsHashfn_isOk hlen
  refine ⟨hash, ?_⟩
  intro req hreq
  obtain ⟨t, ht⟩ := hreq.drop_uid
  have hstrlen : CString.strlen (uid ++ t) = .ok (uid.takeWhile (· ≠ 0)).length := by
    have happ := CString.strlen_append (t := r ++ t) hs
    rwa [← List.cons_append, ← List.append_assoc, ← hr] at happ
  rw [objectHash, fieldPtr, ht, hstrlen, Outcome.ok_bind]
  exact Hash.gfsHashfn_append t hhash

/-- A zero byte in the identifier ends the name that is compared, if nothing before it does. -/
theorem scanSets_of_mem (hzero : (0 : UInt8) ∈ uid) (h : IsObjectRequest uid req)
    (h' : IsObjectRequest uid req') (hname : setNameField req = setNameField req') (sv : Server) :
    scanSets sv (fieldPtr req RequestPutObject.setName) =
      scanSets sv (fieldPtr req' RequestPutObject.setName) := by
  obtain ⟨t, ht⟩ := h.drop_setName
  obtain ⟨t', ht'⟩ := h'.drop_setName
  have hmem : (0 : UInt8) ∈ setNameField req' ++ uid := List.mem_append_right _ hzero
  have hturn : scanTurn sv (fieldPtr req RequestPutObject.setName) =
      scanTurn sv (fieldPtr req' RequestPutObject.setName) := by
    funext i
    simp only [scanTurn, fieldPtr, ht, ht', hname, CString.strncmp_behind hmem _ t t']
  rw [scanSets, scanSets, hturn]

end

/-- A request whose bytes around the identifier are all `b`. -/
def requestAround (b : UInt8) (uid : Bytes) : Bytes :=
  List.replicate RequestPutObject.uid b ++ uid ++
    List.replicate (RequestPutObject.size - RequestPutObject.uid - bucketObjectUidSz) b

theorem drop_uid_requestAround (b : UInt8) (uid : Bytes) :
    (requestAround b uid).drop RequestPutObject.uid = uid ++
      List.replicate (RequestPutObject.size - RequestPutObject.uid - bucketObjectUidSz) b := by
  rw [requestAround, List.append_assoc, List.drop_left' List.length_replicate]

theorem isObjectRequest_requestAround (b : UInt8) {uid : Bytes}
    (huid : uid.length = bucketObjectUidSz) : IsObjectRequest uid (requestAround b uid) where
  size_le := by
    simp only [requestAround, List.length_append, List.length_replicate, huid]
    decide
  uid_eq := by rw [drop_uid_requestAround, List.take_left' huid]

/-- Without a zero byte in a request, the length of its identifier is not found in it. -/
theorem objectHash_of_noNul {b : UInt8} (hb : b ≠ 0) {uid : Bytes} (huid : CString.NoNul uid) :
    objectHash (requestAround b uid) = .error .overread := by
  have hnul : CString.NoNul (uid ++
      List.replicate (RequestPutObject.size - RequestPutObject.uid - bucketObjectUidSz) b) := by
    intro h
    rcases List.mem_append.1 h with h | h
    · exact huid h
    · exact hb (List.eq_of_mem_replicate h).symm
  rw [objectHash, drop_uid_requestAround, CString.strlen_noNul hnul, Outcome.error_bind]

/-- **The identifier alone decides exactly when it contains a zero byte.**  All requests with one
identifier of 32 bytes, whatever their object names, data lengths, padding and the bytes behind
them, have the same hash, and lead to the same bucket of the same set, exactly when one of the 32
bytes is zero. -/
theorem placedByUid_iff {uid : Bytes} (huid : uid.length = bucketObjectUidSz) :
    PlacedByUid uid ↔ (0 : UInt8) ∈ uid := by
  constructor
  · intro h
    by_contra hnul
    have hreq := isObjectRequest_requestAround 1 huid
    obtain ⟨⟨hash, hhash, -⟩, -⟩ := h _ _ hreq hreq
    rw [objectHash_of_noNul (by decide) hnul] at hhash
    cases hhash
  · intro hzero req req' hreq hreq'
    obtain ⟨hash, hhash⟩ := objectHash_of_mem hzero
    refine ⟨⟨hash, hhash req hreq, hhash req' hreq'⟩, ?_⟩
    intro sv hsame
    have hscan : scanSets sv (fieldPtr req RequestPutObject.setName) =
        scanSets sv (fieldPtr req' RequestPutObject.setName) :=
      hsame.elim (fun hname => scanSets_of_mem hzero hreq hreq' hname sv) id
    rw [selectedBucket, selectedBucket, hhash req hreq, hhash req' hreq', hscan]

/-- The result applied to an identifier of 32 zero bytes. -/
theorem placedByUid_iff_zeros :
    PlacedByUid (List.replicate 32 0) ↔ (0 : UInt8) ∈ List.replicate 32 0 :=
  placedByUid_iff (by decide)

/-- An identifier of 32 characters. -/
def uidOfAs : Bytes := List.replicate 32 97

/-- A request with this identifier and an object of one byte, whose first byte of padding is `b`. -/
def paddedRequest (b : UInt8) : Bytes :=
  List.replicate RequestPutObject.uid 0 ++ uidOfAs ++ [b, 0] ++ leBytes 8 1

theorem drop_uid_paddedRequest (b : UInt8) :
    (paddedRequest b).drop RequestPutObject.uid = uidOfAs ++ [b, 0] ++ leBytes 8 1 := by
  rw [paddedRequest, List.append_assoc, List.append_assoc, List.drop_left' List.length_replicate,
    List.append_assoc]

theorem isObjectRequest_paddedRequest (b : UInt8) : IsObjectRequest uidOfAs (paddedRequest b) where
  size_le := by
    simp only [paddedRequest, uidOfAs, List.length_append, List.length_replicate, length_leBytes,
      List.length_cons, List.length_nil]
    decide
  uid_eq := by
    rw [drop_uid_paddedRequest, List.append_assoc, List.take_left' (by decide)]

/-- Two requests that differ in one byte of padding have different hashes. -/
theorem paddedRequest_not_placedByUid :
    objectHash (paddedRequest 0) = .ok 3571420014 ∧
      objectHash (paddedRequest 1) = .ok 2556317392 ∧ ¬ PlacedByUid uidOfAs := by
  have h0 : objectHash (paddedRequest 0) = .ok 3571420014 := by
    rw [objectHash, fieldPtr, drop_uid_paddedRequest]
    rfl
  have h1 : objectHash (paddedRequest 1) = .ok 2556317392 := by
    rw [objectHash, fieldPtr, drop_uid_paddedRequest]
    rfl
  refine ⟨h0, h1, ?_⟩
  intro h
  obtain ⟨⟨hash, hash0, hash1⟩, -⟩ :=
    h _ _ (isObjectRequest_paddedRequest 0) (isObjectRequest_paddedRequest 1)
  rw [h0] at hash0
  rw [h1] at hash1
  cases hash0
  exact absurd hash1 (by decide)
