/-
**Arrays of fixed size.**

The names of a request and of a response, and the identifier of an object, are arrays of fixed size.
They are filled by copies that take their bound from what is copied, and scanned by functions that
stop at a terminator; nothing compares a length with the size of an array, and nothing writes a
terminator behind a name.

The uses a call makes of these arrays are listed here, each with the array as an object of its own,
so that a use outside of it is a fault.  A call is safe when none of its uses is one, and every
string it fills is terminated.

Main definitions:

* `FieldUse`, `FieldUse.Within` — a use of an array, and that it stays within it;
* `PutObjectArgs.Uses`, `PutBucketsetArgs.Uses`, `ReadCbCall.Uses` — the uses of
  `request_put_object_init`, of `request_put_bucketset_init`, and of the switch of `read_cb`;
* `FieldCall.Safe`, `FieldCall.Fits` — what is expected of a call, and what it takes.

Main results:

* `strncpyMem_within_iff` — a copy by the length of its source needs room for a terminator;
* `md5File_within_iff` — **`md5_file` stays within 32 bytes exactly when it prints no digest**;
* `ReadCbCall.object_eq_of_fits`, `ReadCbCall.response_of_fits` — where the uses stay within their
  arrays, the handler and the response are what the arrays make them;
* `fieldCall_safe_iff` — **the calls that are safe**.
-/

import SdsStorage.ClientStatus
import SdsStorage.Md5File
import SdsStorage.ServerNames

set_option relaxedAutoImplicit false
set_option autoImplicit false

/-! ### Uses of an array -/

/-- A use of an array of fixed size. -/
inductive FieldUse where
  /-- `strncpy` of `n` bytes of `src` to the start of the array. -/
  | copy (field : Bytes) (src : CharPtr) (n : ℕ)
  /-- `md5_file` of a file into the array. -/
  | digest (field : Bytes) (md5 : Md5Ctx) (fd : Option Source)
  /-- `strlen` of the array. -/
  | scan (field : Bytes)
  /-- `strncmp` of `n` bytes of the string `s` with the array. -/
  | compare (field : Bytes) (s : CharPtr) (n : ℕ)

/-- **The use stays within the array**, and within the string it reads, and leaves a terminator in
an array that it fills. -/
def FieldUse.Within : FieldUse → Prop
  | .copy field src n =>
      ∃ out, CString.strncpy field 0 src n = .ok out ∧ (0 : UInt8) ∈ out
  | .digest field md5 fd =>
      md5File md5 fd field ≠ .error .outOfBounds ∧
        ∀ r, md5File md5 fd field = .ok r → (0 : UInt8) ∈ r.2
  | .scan field => ∃ n, CString.strlen field = .ok n
  | .compare field s n => ∃ d, CString.strncmp s (.mem field) n = .ok d

/-- **A copy by the length of its source** needs room for a terminator behind it, and a terminator
that is there already. -/
theorem strncpyMem_within_iff {s : Bytes} (hs : CString.NoNul s) (u field : Bytes) :
    (FieldUse.copy field (.mem (s ++ u)) s.length).Within ↔
      (0 : UInt8) ∈ field.drop s.length := by
  rw [FieldUse.Within]
  by_cases hfit : 0 + s.length ≤ field.length
  · have hcopy := CString.strncpy_strlen hs u field 0 hfit
    rw [List.take_zero, List.nil_append, Nat.zero_add] at hcopy
    rw [hcopy]
    constructor
    · rintro ⟨out, hout, hmem⟩
      cases hout
      exact (List.mem_append.1 hmem).resolve_left hs
    · intro hmem
      exact ⟨_, rfl, List.mem_append_right s hmem⟩
  · have hnone : field.drop s.length = [] := List.drop_of_length_le (by omega)
    rw [hnone]
    refine iff_of_false ?_ List.not_mem_nil
    rintro ⟨out, hout, -⟩
    rw [CString.strncpy, if_neg (by omega), CharPtr.deref, Outcome.ok_bind,
      CString.strncpySource_length hs, Outcome.ok_bind, CString.memcpyAt, if_neg hfit] at hout
    cases hout

/-- The same for the name a slice holds. -/
theorem Slice.Represents.strncpy_within_iff {se : Slice} {s : Bytes} (hs : se.Represents s)
    {field : Bytes} : (FieldUse.copy field (sliceValue se) (sliceSize se)).Within ↔
      (0 : UInt8) ∈ field.drop s.length := by
  rw [hs.size_eq, hs.value_eq]
  by_cases hnil : s = []
  · subst hnil
    rw [if_pos rfl, List.length_nil, List.drop_zero]
    constructor
    · rintro ⟨out, hout, hmem⟩
      cases hout
      exact hmem
    · intro hmem
      exact ⟨field, rfl, hmem⟩
  · rw [if_neg hnil]
    exact strncpyMem_within_iff hs.noNul [0] field

/-- In an array of zeros there is room for a terminator behind every shorter name. -/
theorem zero_mem_drop_replicate {n k : ℕ} :
    (0 : UInt8) ∈ (List.replicate n 0).drop k ↔ k < n := by
  rw [List.drop_replicate, List.mem_replicate]
  constructor
  · rintro ⟨hne, -⟩
    omega
  · intro hlt
    exact ⟨by omega, rfl⟩

/-- **`md5_file` stays within 32 bytes exactly when it prints no digest.** -/
theorem md5File_within_iff {md5 : Md5Ctx} (hbuf : md5.buffer.length = 64) (fd : Option Source) :
    (FieldUse.digest (List.replicate bucketObjectUidSz 0) md5 fd).Within ↔ Unhashed fd := by
  constructor
  · rintro ⟨hwithin, -⟩
    by_contra hhashed
    exact hwithin (md5File_of_hashed hbuf hhashed (by decide))
  · intro hno
    rcases md5File_of_unhashed hbuf hno (List.replicate bucketObjectUidSz 0) with hok | hwait
    · refine ⟨?_, ?_⟩
      · rw [hok]
        intro h
        cases h
      · intro r hr
        rw [hok] at hr
        cases hr
        exact List.mem_replicate.2 ⟨by decide, rfl⟩
    · refine ⟨?_, ?_⟩
      · rw [hwait]
        intro h
        cases h
      · intro r hr
        rw [hwait] at hr
        cases hr

/-! ### The client -/

/-- The field of a request that holds the name of the object. -/
def objectNameField (req : Bytes) : Bytes :=
  (req.drop RequestPutObject.objectName).take bucketBufferLength

/-- The field that holds the identifier. -/
def uidField (req : Bytes) : Bytes := (req.drop RequestPutObject.uid).take bucketObjectUidSz

/-- A call to `request_put_object_init`: what it meets, the socket, and its two strings. -/
structure PutObjectArgs where
  io : PutObjectIo
  sock : Option Sink
  path : Bytes
  setName : Bytes
  path_noNul : CString.NoNul path
  setName_noNul : CString.NoNul setName
  buffer_length : io.md5.buffer.length = 64

/-- The socket is open, `stat` finds the file, and the type of the request is written. -/
def PutObjectArgs.Starts (args : PutObjectArgs) : Prop :=
  ∃ sk type, args.sock = some sk ∧ args.io.stSize.isSome ∧
    sendN sk (memOf [RequestType.putObject.toUInt8] fun _ => 0) 1 = .ok type

/-- The uses the call makes of `object_name`, `set_name` and `uid`. -/
inductive PutObjectArgs.Uses (args : PutObjectArgs) : FieldUse → Prop
  | objectName {name : ℤ × Slice} : args.Starts →
      Utils.parseFileName (.mem (CString.cstr args.path)) = .ok name →
      Uses args (.copy (List.replicate bucketBufferLength 0) (sliceValue name.2)
        (sliceSize name.2))
  | setName {len : ℕ} : args.Starts → CString.strlen (CString.cstr args.setName) = .ok len →
      Uses args (.copy (List.replicate bucketBufferLength 0)
        (.mem (CString.cstr args.setName)) len)
  | uid : args.Starts →
      Uses args (.digest (List.replicate bucketObjectUidSz 0) args.io.md5 args.io.hashed)

/-- The names leave room for a terminator, and no digest is printed. -/
structure PutObjectArgs.Fits (args : PutObjectArgs) : Prop where
  objectName : (Utils.baseName args.path).length < bucketBufferLength
  setName : args.setName.length < bucketBufferLength
  uid : Unhashed args.io.hashed

theorem PutObjectArgs.safe_iff (args : PutObjectArgs) :
    (∀ u, args.Uses u → u.Within) ↔ (args.Starts → args.Fits) := by
  obtain ⟨se, hse, hrep⟩ := Utils.parseFileName_cstr args.path_noNul
  have hlen := CString.strlen_cstr args.setName_noNul
  constructor
  · intro hsafe hstarts
    refine ⟨?_, ?_, ?_⟩
    · have hwithin := hsafe _ (.objectName hstarts hse)
      rwa [hrep.strncpy_within_iff, zero_mem_drop_replicate] at hwithin
    · have hwithin := hsafe _ (.setName hstarts hlen)
      rwa [CString.cstr, strncpyMem_within_iff args.setName_noNul, zero_mem_drop_replicate]
        at hwithin
    · exact (md5File_within_iff args.buffer_length _).1 (hsafe _ (.uid hstarts))
  · intro hfits u hu
    cases hu with
    | objectName hstarts hname =>
        rw [hse] at hname
        cases hname
        rw [hrep.strncpy_within_iff, zero_mem_drop_replicate]
        exact (hfits hstarts).objectName
    | setName hstarts hlen' =>
        rw [hlen] at hlen'
        cases hlen'
        rw [CString.cstr, strncpyMem_within_iff args.setName_noNul, zero_mem_drop_replicate]
        exact (hfits hstarts).setName
    | uid hstarts => exact (md5File_within_iff args.buffer_length _).2 (hfits hstarts).uid

/-- A call to `request_put_bucketset_init`: the socket and the name. -/
structure PutBucketsetArgs where
  sock : Option Sink
  setName : Bytes
  setName_noNul : CString.NoNul setName

/-- The socket is open, and the type of the request is written. -/
def PutBucketsetArgs.Starts (args : PutBucketsetArgs) : Prop :=
  ∃ sk type, args.sock = some sk ∧
    sendN sk (memOf [RequestType.putBucketset.toUInt8] fun _ => 0) 1 = .ok type

/-- The use the call makes of `set_name`. -/
inductive PutBucketsetArgs.Uses (args : PutBucketsetArgs) : FieldUse → Prop
  | setName {len : ℕ} : args.Starts → CString.strlen (CString.cstr args.setName) = .ok len →
      Uses args (.copy (List.replicate bucketBufferLength 0)
        (.mem (CString.cstr args.setName)) len)

theorem PutBucketsetArgs.safe_iff (args : PutBucketsetArgs) :
    (∀ u, args.Uses u → u.Within) ↔
      (args.Starts → args.setName.length < bucketBufferLength) := by
  have hlen := CString.strlen_cstr args.setName_noNul
  constructor
  · intro hsafe hstarts
    have hwithin := hsafe _ (.setName hstarts hlen)
    rwa [CString.cstr, strncpyMem_within_iff args.setName_noNul, zero_mem_drop_replicate] at hwithin
  · intro hfits u hu
    cases hu with
    | setName hstarts hlen' =>
        rw [hlen] at hlen'
        cases hlen'
        rw [CString.cstr, strncpyMem_within_iff args.setName_noNul, zero_mem_drop_replicate]
        exact hfits hstarts

/-! ### The server -/

/-- A callback of a server that was started and has handled requests: the uninitialised variables,
what the calls meet, the type, and the socket with the rest of the request. -/
structure ReadCbCall where
  jsonLoads : Bytes → Option Json
  conf : ConfIo
  store : SdsStore
  store_eq : sdsStoreInit jsonLoads conf = .ok store
  fs : Fs
  past : List ClientRequest
  sized : ∀ rq ∈ past, rq.Sized
  sv : Server
  sv_eq : past.foldlM Server.handle (Server.start fs store) = .ok sv
  locals : Locals
  io : CallbackIo
  reqType : UInt8
  sock : Source

namespace ReadCbCall

theorem shortNames (c : ReadCbCall) : ShortNames c.sv :=
  run_shortNames (shortNames_start c.store_eq c.fs) c.sized c.sv_eq

/-- The request is read into the structure `req`. -/
def Reads (c : ReadCbCall) (req : Bytes) (src : Source) : Prop :=
  readRequest c.locals c.reqType c.sock = .ok (req, src)

/-- The request is handled, and `ans` is left for the response. -/
def Answers (c : ReadCbCall) (ans : Server × Source × Bytes × Option ℤ) : Prop :=
  ∃ req src, c.Reads req src ∧ answer c.locals c.io c.reqType c.sv req src = .ok ans

/-- The uses the switch makes of the fields of a request and of the name of the response. -/
inductive Uses (c : ReadCbCall) : FieldUse → Prop
  | uid {req : Bytes} {src : Source} : c.reqType = RequestType.putObject.toUInt8 →
      c.Reads req src → Uses c (.scan (uidField req))
  | objectSet {req : Bytes} {src : Source} {i : ℕ} {bst : Bucketset} :
      c.reqType = RequestType.putObject.toUInt8 → c.Reads req src → i < c.sv.st.sets.size →
      c.sv.m.bucketset (vectorAt c.sv.st.sets i) = .ok bst →
      Uses c (.compare (setNameField req) (sliceValue bst.setName) (sliceSize bst.setName))
  /-- Arguments are evaluated in no fixed order, so this scan may come before the bucket is read. -/
  | objectName {req : Bytes} {src : Source} {a : Addr} :
      c.reqType = RequestType.putObject.toUInt8 → c.Reads req src →
      scanSets c.sv (fieldPtr req RequestPutObject.setName) = .ok (some a) →
      Uses c (.scan (objectNameField req))
  | bucketsetSet {req : Bytes} {src : Source} {i : ℕ} {bst : Bucketset} :
      c.reqType = RequestType.putBucketset.toUInt8 → c.Reads req src → i < c.sv.st.sets.size →
      c.sv.m.bucketset (vectorAt c.sv.st.sets i) = .ok bst →
      Uses c (.compare req (sliceValue bst.setName) (sliceSize bst.setName))
  /-- The name of a new set is taken by `slice_init`. -/
  | newSet {req : Bytes} {src : Source} : c.reqType = RequestType.putBucketset.toUInt8 →
      c.Reads req src →
      scanSets c.sv (fieldPtr req RequestPutBucketset.setName) = .ok none →
      Uses c (.scan req)
  | ackLength {ans : Server × Source × Bytes × Option ℤ} : c.Answers ans →
      Uses c (.scan ans.2.2.1)
  | ackName {ans : Server × Source × Bytes × Option ℤ} {len : ℕ} : c.Answers ans →
      CString.strlen ans.2.2.1 = .ok len →
      Uses c (.copy (responseName c.locals.resp)
        (fieldPtr ans.2.2.1 RequestPutBucketset.setName) len)

end ReadCbCall

/-- The name of a response takes a name: it ends in its structure, and a terminator is left behind
it. -/
def AckFits (resp name : Bytes) : Prop :=
  (0 : UInt8) ∈ name ∧ (0 : UInt8) ∈ (responseName resp).drop (textOf name).length

/-- The identifier of an object ends in its field; the name of the object does where its set is
found; and the name of the response takes the name it gets, which for a request to put an object,
where no set is found, is that of an uninitialised variable. -/
structure ReadCbCall.Fits (c : ReadCbCall) : Prop where
  uid : c.reqType = RequestType.putObject.toUInt8 → ∀ req src, c.Reads req src →
    (0 : UInt8) ∈ uidField req
  objectName : c.reqType = RequestType.putObject.toUInt8 → ∀ req src a, c.Reads req src →
    scanSets c.sv (fieldPtr req RequestPutObject.setName) = .ok (some a) →
    (0 : UInt8) ∈ objectNameField req
  ackObject : c.reqType = RequestType.putObject.toUInt8 → ∀ req src, c.Reads req src →
    scanSets c.sv (fieldPtr req RequestPutObject.setName) = .ok none →
    AckFits c.locals.resp c.locals.reqBucketset
  ackBucketset : c.reqType = RequestType.putBucketset.toUInt8 → ∀ req src, c.Reads req src →
    AckFits c.locals.resp req
  ackOther : c.reqType ≠ RequestType.putObject.toUInt8 →
    c.reqType ≠ RequestType.putBucketset.toUInt8 → AckFits c.locals.resp c.locals.reqBucketset

/-- The uses of the name of the response. -/
theorem ack_within_iff {resp name : Bytes} :
    ((FieldUse.scan name).Within ∧ ∀ len, CString.strlen name = .ok len →
        (FieldUse.copy (responseName resp) (fieldPtr name RequestPutBucketset.setName)
          len).Within) ↔ AckFits resp name := by
  have hcopy : (0 : UInt8) ∈ name → ((FieldUse.copy (responseName resp)
      (fieldPtr name RequestPutBucketset.setName) (textOf name).length).Within ↔
        (0 : UInt8) ∈ (responseName resp).drop (textOf name).length) := by
    intro hterm
    obtain ⟨hs, t, ht⟩ := CString.eq_append_of_mem hterm
    have hiff := strncpyMem_within_iff hs (0 :: t) (responseName resp)
    rw [← ht] at hiff
    exact hiff
  constructor
  · rintro ⟨hscan, hall⟩
    have hterm := CString.strlen_isOk_iff.1 hscan
    exact ⟨hterm, (hcopy hterm).1 (hall _ (CString.strlen_textOf hterm))⟩
  · rintro ⟨hterm, hroom⟩
    refine ⟨CString.strlen_isOk_iff.2 hterm, ?_⟩
    intro len hlen
    rw [CString.strlen_textOf hterm] at hlen
    cases hlen
    exact (hcopy hterm).2 hroom

namespace ReadCbCall

variable {c : ReadCbCall} {req : Bytes} {src : Source}
  {ans : Server × Source × Bytes × Option ℤ}

/-- A request to put an object is answered where no set is found, and only there. -/
theorem answers_object (hobj : c.reqType = RequestType.putObject.toUInt8)
    (hreads : c.Reads req src) (hans : c.Answers ans) :
    scanSets c.sv (fieldPtr req RequestPutObject.setName) = .ok none ∧
      ans.2.2.1 = c.locals.reqBucketset := by
  obtain ⟨req', src', hreads', hans⟩ := hans
  rw [Reads] at hreads hreads'
  rw [hreads] at hreads'
  cases hreads'
  rw [answer, if_pos hobj] at hans
  rw [Outcome.bind_eq_ok] at hans
  obtain ⟨put, hput, hans⟩ := hans
  cases hans
  exact ⟨c.shortNames.noBuckets.scanSets_of_handled hput, rfl⟩

theorem answers_object_of_none (hobj : c.reqType = RequestType.putObject.toUInt8)
    (hreads : c.Reads req src) (huid : (0 : UInt8) ∈ uidField req)
    (hscan : scanSets c.sv (fieldPtr req RequestPutObject.setName) = .ok none) :
    c.Answers (c.sv, src, c.locals.reqBucketset, some (-1)) := by
  have hput := handlePutObject_of_none (List.mem_of_mem_take huid) hscan (c.io.putIo src)
    c.locals.bucketIndex
  refine ⟨req, src, hreads, ?_⟩
  rw [answer, if_pos hobj, hput]
  rfl

/-- The name in the answer to a request for a set is that of the request. -/
theorem answers_bucketset (hset : c.reqType = RequestType.putBucketset.toUInt8)
    (hreads : c.Reads req src) (hans : c.Answers ans) : ans.2.2.1 = req := by
  have hobj : c.reqType ≠ RequestType.putObject.toUInt8 := by
    rw [hset]
    exact RequestType.putObject_ne_putBucketset.symm
  obtain ⟨req', src', hreads', hans⟩ := hans
  rw [Reads] at hreads hreads'
  rw [hreads] at hreads'
  cases hreads'
  rw [answer, if_neg hobj, if_pos hset] at hans
  rw [Outcome.bind_eq_ok] at hans
  obtain ⟨sv', -, hans⟩ := hans
  cases hans
  rfl

/-- It is given when the request is handled. -/
theorem answers_bucketset_of_handled (hset : c.reqType = RequestType.putBucketset.toUInt8)
    (hreads : c.Reads req src) {sv' : Server}
    (hok : handlePutBucketset c.io.chance c.sv (fieldPtr req RequestPutBucketset.setName) =
      .ok sv') : c.Answers (sv', src, req, some 0) := by
  have hobj : c.reqType ≠ RequestType.putObject.toUInt8 := by
    rw [hset]
    exact RequestType.putObject_ne_putBucketset.symm
  refine ⟨req, src, hreads, ?_⟩
  rw [answer, if_neg hobj, if_pos hset, hok]
  rfl

/-- Requests of any other type are answered with the name of an uninitialised variable. -/
theorem answers_other_iff (hobj : c.reqType ≠ RequestType.putObject.toUInt8)
    (hset : c.reqType ≠ RequestType.putBucketset.toUInt8) :
    c.Answers ans ↔ ans = (c.sv, c.sock, c.locals.reqBucketset, none) := by
  constructor
  · rintro ⟨req, src, hreads, hans⟩
    rw [Reads, readRequest, if_neg hobj, if_neg hset] at hreads
    cases hreads
    rw [answer, if_neg hobj, if_neg hset] at hans
    cases hans
    rfl
  · rintro rfl
    refine ⟨[], c.sock, ?_, ?_⟩
    · rw [Reads, readRequest, if_neg hobj, if_neg hset]
    · rw [answer, if_neg hobj, if_neg hset]

/-- The structure of a request has its size. -/
theorem length_object (hobj : c.reqType = RequestType.putObject.toUInt8)
    (hreads : c.Reads req src) : req.length = RequestPutObject.size := by
  rw [Reads, readRequest, if_pos hobj] at hreads
  rw [Outcome.bind_eq_ok] at hreads
  obtain ⟨rn, hread, h⟩ := hreads
  cases h
  exact length_fillBuffer_readN RequestPutObject.size_lt c.locals.reqObject_length hread

/-- The name of the response is used as the response it is answered with. -/
theorem ackFits_of_safe (hsafe : ∀ u, c.Uses u → u.Within) (hans : c.Answers ans) :
    AckFits c.locals.resp ans.2.2.1 :=
  ack_within_iff.1 ⟨hsafe _ (.ackLength hans), fun _ hlen => hsafe _ (.ackName hans hlen)⟩

/-- The name of a request for a set ends in its structure, if every use of it stays within. -/
theorem mem_of_safe (hset : c.reqType = RequestType.putBucketset.toUInt8)
    (hreads : c.Reads req src) (hsafe : ∀ u, c.Uses u → u.Within) : (0 : UInt8) ∈ req := by
  have hlen : bucketBufferLength ≤ req.length := (length_readRequest hset hreads).ge
  obtain ⟨found, hscan⟩ := scanSets_returns c.shortNames hlen
  cases found with
  | none => exact CString.strlen_isOk_iff.1 (hsafe _ (.newSet hset hreads hscan))
  | some a =>
      have hans := answers_bucketset_of_handled hset hreads
        (handlePutBucketset_of_found hscan c.io.chance)
      exact CString.strlen_isOk_iff.1 (hsafe _ (.ackLength hans))

theorem fits_of_safe (hsafe : ∀ u, c.Uses u → u.Within) : c.Fits where
  uid hobj req src hreads := CString.strlen_isOk_iff.1 (hsafe _ (.uid hobj hreads))
  objectName hobj req src a hreads hscan :=
    CString.strlen_isOk_iff.1 (hsafe _ (.objectName hobj hreads hscan))
  ackObject hobj req src hreads hscan := by
    have huid := CString.strlen_isOk_iff.1 (hsafe _ (.uid hobj hreads))
    exact ackFits_of_safe hsafe (answers_object_of_none hobj hreads huid hscan)
  ackBucketset hset req src hreads := by
    have hterm := mem_of_safe hset hreads hsafe
    obtain ⟨sv', hok⟩ := c.shortNames.handlePutBucketset_isOk hterm c.io.chance
    exact ackFits_of_safe hsafe (answers_bucketset_of_handled hset hreads hok)
  ackOther hobj hset := ackFits_of_safe hsafe ((answers_other_iff hobj hset).2 rfl)

/-- The name of the response takes the name of every answer. -/
theorem ackFits_of_fits (hfits : c.Fits) (hans : c.Answers ans) :
    AckFits c.locals.resp ans.2.2.1 := by
  obtain ⟨req, src, hreads, -⟩ := id hans
  by_cases hobj : c.reqType = RequestType.putObject.toUInt8
  · obtain ⟨hscan, hname⟩ := answers_object hobj hreads hans
    rw [hname]
    exact hfits.ackObject hobj req src hreads hscan
  by_cases hset : c.reqType = RequestType.putBucketset.toUInt8
  · rw [answers_bucketset hset hreads hans]
    exact hfits.ackBucketset hset req src hreads
  · rw [(answers_other_iff hobj hset).1 hans]
    exact hfits.ackOther hobj hset

theorem safe_of_fits (hfits : c.Fits) {u : FieldUse} (hu : c.Uses u) : u.Within := by
  cases hu with
  | uid hobj hreads => exact CString.strlen_isOk_iff.2 (hfits.uid hobj _ _ hreads)
  | objectSet hobj hreads hi hbst =>
      have hsize := length_object hobj hreads
      refine c.shortNames.strncmp_isOk ?_ hi hbst
      rw [setNameField, List.length_take, List.length_drop, hsize]
      decide
  | objectName hobj hreads hscan =>
      exact CString.strlen_isOk_iff.2 (hfits.objectName hobj _ _ _ hreads hscan)
  | bucketsetSet hset hreads hi hbst =>
      exact c.shortNames.strncmp_isOk (length_readRequest hset hreads).ge hi hbst
  | newSet hset hreads _ =>
      exact CString.strlen_isOk_iff.2 (hfits.ackBucketset hset _ _ hreads).1
  | ackLength hans => exact (ack_within_iff.2 (ackFits_of_fits hfits hans)).1
  | ackName hans hlen => exact (ack_within_iff.2 (ackFits_of_fits hfits hans)).2 _ hlen

/-- **The switch reads no more of a request than its fields** where its uses stay within them: the
identifier and the set come out as from arrays of their own. -/
theorem object_eq_of_fits (hfits : c.Fits) (hobj : c.reqType = RequestType.putObject.toUInt8)
    (hreads : c.Reads req src) :
    CString.strlen (req.drop RequestPutObject.uid) = CString.strlen (uidField req) ∧
      scanSets c.sv (fieldPtr req RequestPutObject.setName) =
        scanSets c.sv (.mem (setNameField req)) := by
  constructor
  · have hsplit : req.drop RequestPutObject.uid =
        uidField req ++ (req.drop RequestPutObject.uid).drop bucketObjectUidSz :=
      (List.take_append_drop _ _).symm
    rw [hsplit, CString.strlen_append_of_mem (hfits.uid hobj req src hreads)]
  · have hsplit : req.drop RequestPutObject.setName =
        setNameField req ++ (req.drop RequestPutObject.setName).drop bucketBufferLength :=
      (List.take_append_drop _ _).symm
    rw [fieldPtr, hsplit, scanSets, scanSets]
    congr 2
    funext i
    rw [scanTurn, scanTurn]
    cases hbst : c.sv.m.bucketset (vectorAt c.sv.st.sets i) with
    | error f => rfl
    | ok bst =>
        have hi : i < c.sv.st.sets.size := by
          by_contra hge
          rw [vectorAt, dif_neg hge] at hbst
          cases hbst
        obtain ⟨d, hd⟩ := safe_of_fits hfits (.objectSet hobj hreads hi hbst)
        simp only [CString.strncmp_append hd _, hd]

/-- **The response is made, and its name is terminated**, where the uses stay within the arrays. -/
theorem response_of_fits (hfits : c.Fits) (hans : c.Answers ans) :
    ∃ b, response c.locals.resp c.reqType ans.2.2.1 ans.2.2.2 = .ok b ∧
      (0 : UInt8) ∈ responseName b := by
  obtain ⟨hterm, hroom⟩ := ackFits_of_fits hfits hans
  obtain ⟨req, src, hreads, hanswer⟩ := hans
  have hshort := length_textOf_lt hterm
  rw [(answer_ok hreads hanswer).1] at hshort
  obtain ⟨hs, t, ht⟩ : CString.NoNul (textOf ans.2.2.1) ∧
      ∃ t, ans.2.2.1 = textOf ans.2.2.1 ++ 0 :: t := CString.eq_append_of_mem hterm
  have hmade := response_eq (t := t) c.reqType ans.2.2.2 c.locals.resp_length hs hshort
  rw [← ht] at hmade
  refine ⟨_, hmade, ?_⟩
  have hname := length_nameLeft c.locals.resp_length hshort.le
  rw [responseName, List.drop_take, List.drop_drop] at hroom
  rw [responseName, ResponseAck.name, List.drop_succ_cons, List.drop_zero]
  rw [List.take_left' hname]
  exact List.mem_append_right _ hroom

/-- **The callbacks that are safe.** -/
theorem safe_iff (c : ReadCbCall) : (∀ u, c.Uses u → u.Within) ↔ c.Fits :=
  ⟨fits_of_safe, fun hfits _ hu => safe_of_fits hfits hu⟩

end ReadCbCall

/-! ### Every call -/

/-- A call that uses arrays of fixed size. -/
inductive FieldCall where
  | putObject (args : PutObjectArgs)
  | putBucketset (args : PutBucketsetArgs)
  | readCb (c : ReadCbCall)

namespace FieldCall

/-- The uses of a call. -/
def Uses : FieldCall → FieldUse → Prop
  | putObject args => args.Uses
  | putBucketset args => args.Uses
  | readCb c => c.Uses

/-- **No array overflows**: every use stays within its array. -/
def Safe (call : FieldCall) : Prop := ∀ u, call.Uses u → u.Within

/-- What it takes: of the client, names with room for a terminator and no digest; of the server, the
terminators in the fields it scans. -/
def Fits : FieldCall → Prop
  | putObject args => args.Starts → args.Fits
  | putBucketset args => args.Starts → args.setName.length < bucketBufferLength
  | readCb c => c.Fits

end FieldCall

/-- **The calls that are safe.**  For every path and every set name given to the client, and every
image of a request that a server receives, whatever it has handled before: no array of fixed size
overflows exactly when the names leave room for a terminator and no digest is printed, and when the
fields that are scanned, and the leftovers that take their place, have their terminators. -/
theorem fieldCall_safe_iff (call : FieldCall) : call.Safe ↔ call.Fits := by
  cases call with
  | putObject args => exact args.safe_iff
  | putBucketset args => exact args.safe_iff
  | readCb c => exact c.safe_iff

/-- The file `f`, which is empty, put into the set `s`. -/
def putEmpty : PutObjectArgs where
  io := { putHi.io with stSize := some 0, hashed := some { arrivals := [], ended := true } }
  sock := some { answers := [.accept 0], sent := [] }
  path := putHi.path
  setName := putHi.set.name
  path_noNul := putHi.noNul
  setName_noNul := putHi.set.noNul
  buffer_length := List.length_replicate

/-- The digest of the empty file does not fit into the array for it. -/
theorem putEmpty_not_safe : ¬ (FieldCall.putObject putEmpty).Safe := by
  intro hsafe
  have htype := sendN_accept 1 0 (by decide) (by decide) (by decide) [] []
    (memOf [RequestType.putObject.toUInt8] fun _ => 0)
  have hstarts : putEmpty.Starts := ⟨_, _, rfl, rfl, htype⟩
  have huid := ((putEmpty.safe_iff).1 hsafe hstarts).uid
  exact Bool.noConfusion huid
