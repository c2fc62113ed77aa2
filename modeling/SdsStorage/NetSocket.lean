/-
**The request handlers of the server.**

`read_cb` receives the type of a request and, in a switch, reads the rest, finds the set the request
names, and makes a set or puts an object.  A set is found by scanning the store's vector with an
`int` index and comparing each set's name with the request, for as many bytes as the set's name is
long: a set is found by every request its name is a prefix of.

Main definitions:

* `Server` — the heap, the file system and the store;
* `scanSets` — the scan both cases share;
* `handlePutBucketset`, `handlePutObject` — the two cases;
* `readCb` — the callback.

Main results:

* `SetsNamed`, `scanSets_eq` — what the scan finds in a store whose sets have the given names.
-/

import SdsStorage.FirstMatch
import SdsStorage.Request
import SdsStorage.SdsStore

set_option relaxedAutoImplicit false
set_option autoImplicit false

/-! ### The scan -/

/-- What the server's callbacks work on. -/
structure Server where
  m : Memory
  fs : Fs
  st : SdsStore

/-- A server at its start. -/
def Server.start (fs : Fs) (st : SdsStore) : Server := { m := Memory.empty, fs := fs, st := st }

/-- One turn of the scan for the set a request names. -/
def scanTurn (sv : Server) (name : CharPtr) (i : ℕ) : Option (Outcome (Option Addr)) :=
  match sv.m.bucketset (vectorAt sv.st.sets i) with
  | .error f => some (.error f)
  | .ok bst =>
      match CString.strncmp (sliceValue bst.setName) name (sliceSize bst.setName) with
      | .error f => some (.error f)
      | .ok d => if d = 0 then some (.ok (vectorAt sv.st.sets i)) else none

/-- The scan of `st->sets`. -/
def scanSets (sv : Server) (name : CharPtr) : Outcome (Option Addr) :=
  (Loop.forInt (scanTurn sv name) sv.st.sets.size).getD (.ok none)

/-! ### The cases of the switch -/

/-- The case of `REQ_PUT_BUCKETSET`, for a request whose name has been read. -/
def handlePutBucketset (chance : ℕ → FsChance) (sv : Server) (name : CharPtr) : Outcome Server := do
  let sets ← scanSets sv name
  if sets = none ∨ sv.st.sets.size = 0 then do
    let made ← bucketsetCreate sv.m sv.fs chance name (sliceValue sv.st.cf.dataDir)
      (UInt64.ofNat (CInt.toUInt64 sv.st.cf.bucketSize))
      (UInt64.ofNat (CInt.toUInt64 sv.st.cf.setHashRange))
      (UInt64.ofNat (CInt.toUInt64 sv.st.cf.dataLength))
    let pushed ← vectorPushBack sv.st.sets (some made.2.2)
    .ok { m := made.1, fs := made.2.1, st := { sv.st with sets := pushed.1 } }
  else .ok sv

/-- The case of `REQ_PUT_OBJECT`, for a request that has been read into the structure `req`: the
server, the socket, and the status for the response, which is set only when no set is found.
`bucketIndex` is what the index of an uninitialised object holds. -/
def handlePutObject (sv : Server) (io : PutIo) (bucketIndex : UInt64) (req : Bytes) :
    Outcome (Server × Source × Option ℤ) := do
  let len ← CString.strlen (req.drop RequestPutObject.uid)
  let hash ← Hash.gfsHashfn (fieldPtr req RequestPutObject.uid) len
  let sets ← scanSets sv (fieldPtr req RequestPutObject.setName)
  match sets with
  | none => .ok (sv, io.sock, some (-1))
  | some a => do
      let bst ← sv.m.bucketset (some a)
      let found ← bucketsetSearchBucket sv.m bst hash
      -- the current offset is read through the pointer the search returned
      let bt ← sv.m.bucket found
      let nameLen ← CString.strlen (req.drop RequestPutObject.objectName)
      let obj := bucketObjectInit bucketIndex bt.currentOffset (req.drop RequestPutObject.uid)
        (UInt32.ofNat nameLen) (UInt64.ofNat (leNat req RequestPutObject.dataLength 8))
      let put ← bucketPut sv.fs io bt obj
      let buckets := sv.m.buckets.set (found.getD 0) put.2.1
      .ok ({ sv with m := { sv.m with buckets := buckets }, fs := put.2.2.1 }, put.2.2.2, none)

/-! ### The callback -/

/-- The contents of a buffer after the stores of `read_n`. -/
def fillBuffer (buf : Bytes) (stores : List (ℤ × Bytes)) : Bytes :=
  stores.foldl (fun b st =>
    b.take st.1.toNat ++ st.2 ++ b.drop (st.1.toNat + st.2.length)) buf

/-- What the uninitialised local variables of `read_cb` hold, and what its calls meet. -/
structure CallbackEnv where
  reqBucketset : Bytes
  reqObject : Bytes
  bucketIndex : UInt64
  resp : Bytes
  answers : List WriteEvent
  chance : ℕ → FsChance

/-- The end of `read_cb`: the response is filled in, and handed to `send`. -/
def respond (env : CallbackEnv) (reqType : UInt8) (reqBucketset : Bytes) (ret : Option ℤ)
    (out : Sink) : Outcome Sink := do
  let resp ← match ret with
    | none => .ok env.resp
    | some r => CString.memcpyAt env.resp ResponseAck.ret (leBytes 4 (CInt.toUInt32 r))
  let resp ← CString.memcpyAt resp ResponseAck.reqType [reqType]
  let len ← CString.strlen reqBucketset
  let resp ← CString.strncpy resp ResponseAck.name
    (fieldPtr reqBucketset RequestPutBucketset.setName) len
  let sent ← out.write false (memOf resp fun _ => 0) 0 ResponseAck.size
  .ok sent.2

/-- The switch of `read_cb`, and what comes after it. -/
def readCbSwitch (env : CallbackEnv) (reqType : UInt8) (sv : Server) (sock : Source) (out : Sink) :
    Outcome (Server × Source × Sink) :=
  if reqType = RequestType.putObject.toUInt8 then do
    let rn ← Utils.readN sock false RequestPutObject.size
    let io : PutIo := { sock := rn.src, answers := env.answers, chance := env.chance 0 }
    let put ← handlePutObject sv io env.bucketIndex (fillBuffer env.reqObject rn.stores)
    let out ← respond env reqType env.reqBucketset put.2.2 out
    .ok (put.1, put.2.1, out)
  else if reqType = RequestType.putBucketset.toUInt8 then do
    let rn ← Utils.readN sock false RequestPutBucketset.size
    let req := fillBuffer env.reqBucketset rn.stores
    let sv ← handlePutBucketset env.chance sv (fieldPtr req RequestPutBucketset.setName)
    let out ← respond env reqType req (some 0) out
    .ok (sv, rn.src, out)
  else do
    let out ← respond env reqType env.reqBucketset none out
    .ok (sv, sock, out)

/-- `read_cb`; `evError` says whether it is called with an error event. -/
def readCb (env : CallbackEnv) (evError : Bool) (sv : Server) (sock : Source) (out : Sink) :
    Outcome (Server × Source × Sink) :=
  if evError then .ok (sv, sock, out)
  else do
    let r ← sock.read false 1
    -- a byte that was received is taken for an error
    if 0 < r.1 then .ok (sv, r.2.2, out)
    else readCbSwitch env 0 sv r.2.2 out

/-! ### What the scan finds -/

/-- A string covers the strings it is a prefix of. -/
def prefixCover : Cover Bytes where
  covers r s := r.isPrefixOf s
  refl _ := List.isPrefixOf_iff_prefix.2 List.prefix_rfl

/-- The number of sets an `int` index reaches. -/
def scanReach : ℕ := 2 ^ 31

/-- The number of sets the store's vector can hold. -/
def storeRoom : ℕ := 2 ^ 60

/-- The store's vector shows sets with the given names, in this order. -/
structure SetsNamed (sv : Server) (names : List Bytes) : Prop where
  size_eq : sv.st.sets.size = names.length
  named : ∀ i s, names[i]? = some s → ∃ a bst, vectorAt sv.st.sets i = some a ∧
    sv.m.bucketset (some a) = .ok bst ∧ bst.setName.Represents s

section Scan

variable {sv : Server} {names : List Bytes}

theorem scanTurn_eq (h : SetsNamed sv names) {i : ℕ} {s : Bytes} (hi : names[i]? = some s)
    {t : Bytes} (ht : CString.NoNul t) (v : Bytes) :
    scanTurn sv (.mem (t ++ 0 :: v)) i =
      if prefixCover.covers s t then some (.ok (vectorAt sv.st.sets i)) else none := by
  obtain ⟨a, bst, hat, hbst, hrep⟩ := h.named i s hi
  obtain ⟨d, hd, hiff⟩ := hrep.strncmp ht v
  have hcov : d = 0 ↔ prefixCover.covers s t = true :=
    hiff.trans List.isPrefixOf_iff_prefix.symm
  simp only [scanTurn, hat, hbst, hd, hcov]

/-- **What the scan finds**: the first set, within reach of the index, whose name is a prefix of the
name that is asked for. -/
theorem scanSets_eq (h : SetsNamed sv names) {t : Bytes} (ht : CString.NoNul t) (v : Bytes) :
    scanSets sv (.mem (t ++ 0 :: v)) =
      .ok ((prefixCover.slot scanReach names t).bind fun i => vectorAt sv.st.sets i) := by
  have hn : sv.st.sets.size ≤ 2 ^ 64 - 2 ^ 31 := by
    have hserves := sv.st.sets.serves
    have hle := sv.st.sets.size_le
    rw [callocServes] at hserves
    omega
  have hsize := h.size_eq
  cases hslot : prefixCover.slot scanReach names t with
  | none =>
      have hnone := Loop.forInt_of_none (scanTurn sv (.mem (t ++ 0 :: v))) hn fun i hi => by
        have hlt : i < names.length := by omega
        rw [scanTurn_eq h (List.getElem?_eq_getElem hlt) ht, if_neg]
        have hmem : names[i] ∈ names.take scanReach := by
          rw [List.mem_take_iff_getElem]
          exact ⟨i, by unfold scanReach; omega, rfl⟩
        rw [Cover.slot_eq_none_iff.1 hslot _ hmem]
        simp
      rw [scanSets, hnone]
      rfl
  | some k =>
      obtain ⟨hk, r, hr, hcov⟩ := Cover.exists_of_slot hslot
      have hlt : k < names.length := (List.getElem?_eq_some_iff.1 hr).1
      have hfirst := Loop.forInt_of_first (scanTurn sv (.mem (t ++ 0 :: v))) hn
        (k := k) (by unfold scanReach at hk; omega)
        ((scanTurn_eq h hr ht v).trans (if_pos hcov)) fun j hj => by
          have hjlt : j < names.length := by omega
          have hj' := List.getElem?_eq_getElem hjlt
          rw [scanTurn_eq h hj' ht, if_neg]
          rw [Cover.first_of_slot hslot hj hj']
          simp
      rw [scanSets, hfirst]
      rfl

end Scan
