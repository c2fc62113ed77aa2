/-
**The client's request to put an object.**

`request_put_object_init` sends the type of the request, its header, and then the file.  The digest
of the file goes into an array of its own and not into the header; the buffer the file is read into
is never sent, the header and what lies behind it in memory are, four megabytes at a time; and the
response is read from the file.

Main definitions:

* `Sending`, `sendN`, `keeping` — calls that hand bytes over, also when they do not return;
* `requestPutObjectInit` — the function;
* `parsePutObject` — what the server makes of a stream;
* `PutObjectInput` — a readable file, names that fit, and a segmentation of the traffic;
* `PutObjectInput.RoundTrips` — the server gets what the client was given.

Main results:

* `requestHeader_eq` — the header, in which no byte of the identifier is set;
* `PutObjectInput.stream_agree` — **what is sent starts with the type and this header**, or is cut
  off before it is complete;
* `putObject_never_roundTrips` — **the server never gets the identifier**.
-/

import SdsStorage.Md5
import SdsStorage.Request

set_option relaxedAutoImplicit false
set_option autoImplicit false

/-! ### Calls that hand bytes over -/

/-- A call that hands bytes over: what it returns, or the fault and what was handed over before. -/
abbrev Sending (α : Type) := Except (Fault × Sink) α

/-- `write_n` to a descriptor: its result, and the descriptor after it. -/
def sendN (sk : Sink) (buf : ℤ → UInt8) (len : ℕ) : Sending (ℤ × Sink) :=
  match (Utils.writeN sk false buf len).1 with
  | none => .ok ((Utils.writeN sk false buf len).2.writen, (Utils.writeN sk false buf len).2.sink)
  | some f => .error (f, (Utils.writeN sk false buf len).2.sink)

/-- A call that hands nothing over. -/
def keeping {α : Type} (sk : Sink) (x : Outcome α) : Sending α := x.mapError fun f => (f, sk)

/-- `read_n` from a descriptor, or none when it did not open: its result, the stores, and the
descriptor after it. -/
def readFd (fd : Option Source) (len : ℕ) : Outcome (ℤ × List (ℤ × Bytes) × Option Source) :=
  match fd with
  | none => .ok (0, [], none)
  | some src => (Utils.readN src false len).map fun s => (s.readn, s.stores, some s.src)

/-! ### `request_put_object_init` -/

/-- `REQUEST_READ_BUFFER_LENGTH`. -/
def requestReadBufferLength : ℕ := 4 * 1024 * 1024

theorem requestReadBufferLength_lt : requestReadBufferLength < 2 ^ 31 := by decide

/-- What the function meets: the size `stat` reports, if any; the file as `md5_file` and as the
function itself open it; the context of the digest before it is initialised; the bytes of the stack
behind the array of the digits that nothing else uses; and the memory around the request. -/
structure PutObjectIo where
  stSize : Option ℤ
  hashed : Option Source
  data : Option Source
  md5 : Md5Ctx
  frame : Bytes
  heap : ℤ → UInt8

/-- The request as the function fills it in, on memory filled with zeros. -/
def requestHeader (stSize : ℤ) (path setName : CharPtr) : Outcome Bytes := do
  let name ← Utils.parseFileName path
  let req ← CString.memcpyAt (List.replicate RequestPutObject.size 0) RequestPutObject.dataLength
    (leBytes 8 (CInt.toUInt64 stSize))
  let req ← CString.strncpy req RequestPutObject.objectName (sliceValue name.2) (sliceSize name.2)
  let mem ← setName.deref
  let len ← CString.strlen mem
  CString.strncpy req RequestPutObject.setName setName len

/-- The state of the loop that sends the file. -/
structure SendLoop where
  rn : ℕ
  fd : Option Source
  sock : Sink

/-- One turn of this loop; it leaves with the value of `is_success`. -/
def sendTurn (req : ℤ → UInt8) (length : ℕ) (s : SendLoop) :
    Loop.Turn SendLoop (Sending (Bool × SendLoop)) :=
  if s.rn < length then
    match readFd s.fd requestReadBufferLength with
    | .error f => .done (.error (f, s.sock))
    | .ok n =>
        -- the request is sent, not the buffer
        match sendN s.sock req requestReadBufferLength with
        | .error e => .done (.error e)
        | .ok ret =>
            let s' : SendLoop :=
              { rn := CInt.toUInt64 (s.rn + CInt.toUInt64 n.1), fd := n.2.2, sock := ret.2 }
            if ret.1 < 0 then .done (.ok (false, s'))
            else if ret.1 = 0 then .done (.ok (true, s'))
            else .again s'
  else .done (.ok (false, s))

/-- What the function does once `stat` has succeeded: the status, the socket, and the stores into
the response. -/
def putObjectSend (io : PutObjectIo) (stSize : ℤ) (path setName : CharPtr) (sock : Sink) :
    Sending (ℤ × Sink × List (ℤ × Bytes)) := do
  let type ← sendN sock (memOf [RequestType.putObject.toUInt8] fun _ => 0) 1
  let req ← keeping type.2 (requestHeader stSize path setName)
  -- the digits are left in an array of the function
  let _ ← keeping type.2 (md5File io.md5 io.hashed (List.replicate bucketObjectUidSz 0 ++ io.frame))
  let header ← sendN type.2 (memOf req io.heap) RequestPutObject.size
  let last ← (Loop.run (sendTurn (memOf req io.heap) (CInt.toUInt64 stSize))
    (header.2.answers.length + 1) { rn := 0, fd := io.data, sock := header.2 }).getD
    (.error (.blocked, header.2))
  if last.1 then do
    -- the response is read from the file
    let ack ← keeping last.2.sock (readFd last.2.fd ResponseAck.size)
    .ok (0, last.2.sock, ack.2.1)
  else .ok (-1, last.2.sock, [])

/-- `request_put_object_init`; a socket of -1 is none. -/
def requestPutObjectInit (io : PutObjectIo) (path setName : CharPtr) (sock : Option Sink) :
    Sending (ℤ × Option Sink × List (ℤ × Bytes)) :=
  match sock with
  | none => .ok (-1, none, [])
  | some sk =>
      match io.stSize with
      | none => .ok (-1, some sk, [])
      | some stSize =>
          if path = .null then .ok (-1, some sk, [])
          else (putObjectSend io stSize path setName sk).map fun r => (r.1, some r.2.1, r.2.2)

/-- The bytes that were handed to the socket. -/
def sentBytes : Sending (ℤ × Option Sink × List (ℤ × Bytes)) → Bytes
  | .ok r => (r.2.1.map Sink.sent).getD []
  | .error e => e.2.sent

/-! ### The header -/

/-- The header for these names and this size. -/
def headerBytes (object set : Bytes) (dataLength : ℕ) : Bytes :=
  object ++ List.replicate (bucketBufferLength - object.length) 0 ++
    (set ++ (List.replicate (RequestPutObject.dataLength - bucketBufferLength - set.length) 0 ++
      leBytes 8 dataLength))

/-- **The header**: the names and the size are in their fields, and nothing else is set. -/
theorem requestHeader_eq {path : Bytes} (hpath : CString.NoNul path)
    (hshort : (Utils.baseName path).length < bucketBufferLength) (set : SetName) (stSize : ℤ) :
    requestHeader stSize (.mem (CString.cstr path)) (.mem (CString.cstr set.name)) =
      .ok (headerBytes (Utils.baseName path) set.name (CInt.toUInt64 stSize)) := by
  obtain ⟨se, hse, hrep⟩ := Utils.parseFileName_cstr hpath
  have hset := set.short
  have hnum := length_leBytes 8 (CInt.toUInt64 stSize)
  rw [bucketBufferLength] at hshort hset
  unfold requestHeader headerBytes bucketBufferLength RequestPutObject.dataLength
    RequestPutObject.objectName RequestPutObject.setName
  generalize leBytes 8 (CInt.toUInt64 stSize) = num at hnum ⊢
  generalize Utils.baseName path = object at hshort hrep ⊢
  have hfirst : CString.memcpyAt (List.replicate RequestPutObject.size 0) 544 num =
      .ok (List.replicate 544 0 ++ num) := by
    have hfit : 544 + num.length ≤ (List.replicate RequestPutObject.size (0 : UInt8)).length := by
      rw [hnum, List.length_replicate]
      decide
    have hbefore : min 544 RequestPutObject.size = 544 := by decide
    have hbehind : RequestPutObject.size - (544 + 8) = 0 := by decide
    rw [CString.memcpyAt, if_pos hfit, hnum, List.take_replicate, List.drop_replicate, hbefore,
      hbehind, List.replicate_zero, List.append_nil]
  have hwhole : 0 + object.length ≤ (List.replicate 544 (0 : UInt8) ++ num).length := by
    rw [List.length_append, List.length_replicate]
    omega
  have hsecond := hrep.strncpy hwhole
  have hdrop : (List.replicate 544 0 ++ num).drop (0 + object.length) =
      List.replicate (544 - object.length) 0 ++ num := by
    rw [List.drop_append_of_le_length (by rw [List.length_replicate]; omega), List.drop_replicate,
      Nat.zero_add]
  rw [List.take_zero, List.nil_append, hdrop] at hsecond
  have hroom : 255 + set.name.length ≤
      (object ++ (List.replicate (544 - object.length) 0 ++ num)).length := by
    rw [List.length_append, List.length_append, List.length_replicate]
    omega
  have hthird := CString.strncpy_strlen set.noNul [0] _ _ hroom
  have htake : (object ++ (List.replicate (544 - object.length) 0 ++ num)).take 255 =
      object ++ List.replicate (255 - object.length) 0 := by
    rw [List.take_append, List.take_of_length_le (by omega),
      List.take_append_of_le_length (by rw [List.length_replicate]; omega), List.take_replicate,
      Nat.min_eq_left (by omega)]
  have hrest : (object ++ (List.replicate (544 - object.length) 0 ++ num)).drop
      (255 + set.name.length) = List.replicate (544 - 255 - set.name.length) 0 ++ num := by
    have hcount : 544 - object.length - (255 + set.name.length - object.length) =
        544 - 255 - set.name.length := by omega
    rw [List.drop_append, List.drop_eq_nil_of_le (by omega), List.nil_append,
      List.drop_append_of_le_length (by rw [List.length_replicate]; omega), List.drop_replicate,
      hcount]
  rw [htake, hrest] at hthird
  have hlen : CString.strlen (CString.cstr set.name) = .ok set.name.length :=
    CString.strlen_cstr set.noNul
  simp only [hse, Outcome.ok_bind, hfirst, hsecond, CharPtr.deref, hlen]
  rw [CString.cstr, hthird, List.append_assoc]

section Header

variable {object : Bytes} (hobject : object.length < bucketBufferLength) (set : SetName)
  (dataLength : ℕ)

include hobject

theorem length_headerBytes :
    (headerBytes object set.name dataLength).length = RequestPutObject.size := by
  have hset := set.short
  rw [bucketBufferLength] at hobject hset
  simp only [headerBytes, bucketBufferLength, RequestPutObject.dataLength, RequestPutObject.size,
    List.length_append, List.length_replicate, length_leBytes]
  omega

theorem objectName_headerBytes :
    ∃ v, (headerBytes object set.name dataLength).drop RequestPutObject.objectName =
      object ++ 0 :: v := by
  obtain ⟨k, hk⟩ := Nat.exists_eq_add_of_lt hobject
  have hpad : bucketBufferLength - object.length = k + 1 := by omega
  rw [RequestPutObject.objectName, List.drop_zero, headerBytes, hpad, List.replicate_succ,
    List.append_assoc, List.cons_append]
  exact ⟨_, rfl⟩

/-- From the name of the set on. -/
theorem drop_headerBytes :
    (headerBytes object set.name dataLength).drop RequestPutObject.setName =
      set.name ++ (List.replicate
        (RequestPutObject.dataLength - bucketBufferLength - set.name.length) 0 ++
        leBytes 8 dataLength) := by
  rw [headerBytes, List.drop_left']
  rw [List.length_append, List.length_replicate, RequestPutObject.setName]
  rw [bucketBufferLength] at hobject ⊢
  omega

theorem setName_headerBytes :
    ∃ v, (headerBytes object set.name dataLength).drop RequestPutObject.setName =
      set.name ++ 0 :: v := by
  have hset := set.short
  obtain ⟨k, hk⟩ : ∃ k,
      RequestPutObject.dataLength - bucketBufferLength - set.name.length = k + 1 := by
    rw [bucketBufferLength] at hset ⊢
    refine ⟨RequestPutObject.dataLength - 255 - set.name.length - 1, ?_⟩
    rw [RequestPutObject.dataLength]
    omega
  rw [drop_headerBytes hobject, hk, List.replicate_succ, List.cons_append]
  exact ⟨_, rfl⟩

/-- No byte of the identifier is set. -/
theorem uid_headerBytes :
    ((headerBytes object set.name dataLength).drop RequestPutObject.uid).take bucketObjectUidSz =
      List.replicate bucketObjectUidSz 0 := by
  have hset := set.short
  have huid : RequestPutObject.uid = RequestPutObject.setName + 255 := rfl
  rw [bucketBufferLength] at hset
  rw [huid, ← List.drop_drop, drop_headerBytes hobject, List.drop_append,
    List.drop_eq_nil_of_le (by omega), List.nil_append, List.drop_append_of_le_length,
    List.drop_replicate, List.take_append_of_le_length, List.take_replicate]
  · rw [bucketObjectUidSz, RequestPutObject.dataLength, bucketBufferLength]
    congr 1
    omega
  · rw [List.length_replicate]
    rw [bucketObjectUidSz, RequestPutObject.dataLength, bucketBufferLength]
    omega
  · rw [List.length_replicate]
    rw [RequestPutObject.dataLength, bucketBufferLength]
    omega

theorem dataLength_headerBytes (h : dataLength < 2 ^ 64) :
    leNat (headerBytes object set.name dataLength) RequestPutObject.dataLength 8 = dataLength := by
  have hset := set.short
  have hoff : RequestPutObject.dataLength = RequestPutObject.setName + 289 := rfl
  have hdrop : (headerBytes object set.name dataLength).drop RequestPutObject.dataLength =
      leBytes 8 dataLength := by
    rw [hoff, ← List.drop_drop, drop_headerBytes hobject, ← List.append_assoc, List.drop_left']
    rw [List.length_append, List.length_replicate]
    rw [bucketBufferLength, RequestPutObject.dataLength] at *
    omega
  have hread := leNat_leBytes (n := 8) (x := dataLength) (by omega)
  rw [leNat] at hread ⊢
  rw [hdrop]
  exact hread

end Header

/-! ### What is handed over -/

/-- What was handed over to a descriptor, whether the call returns or not. -/
def handed {α : Type} (f : α → Sink) : Sending α → Bytes
  | .ok a => (f a).sent
  | .error e => e.2.sent

section Sent

variable {sk : Sink} {buf : ℤ → UInt8} {len : ℕ}

/-- A call to `write_n` that returns on a descriptor that only takes bytes has handed over the whole
buffer. -/
theorem sendN_ok (hlen : len < 2 ^ 31) (hacc : Utils.Sink.Accepts sk) {r : ℤ × Sink}
    (h : sendN sk buf len = .ok r) :
    r.2.sent = sk.sent ++ memBytes buf 0 len ∧ Utils.Sink.Accepts r.2 := by
  obtain ⟨hinv, hdone⟩ := Utils.writeN_of_accepts buf hlen hacc
  rw [sendN] at h
  split at h
  · rename_i hnone
    cases h
    have hsent := hinv.sent_eq
    rw [hdone hnone, Int.toNat_natCast] at hsent
    exact ⟨hsent, hinv.accepts⟩
  · cases h

/-- Whether it returns or not, it has handed over a first part of the buffer. -/
theorem sendN_handed (buf : ℤ → UInt8) (hlen : len < 2 ^ 31) (hacc : Utils.Sink.Accepts sk) :
    ∃ n ≤ len, handed Prod.snd (sendN sk buf len) = sk.sent ++ memBytes buf 0 n := by
  obtain ⟨hinv, -⟩ := Utils.writeN_of_accepts buf hlen hacc
  have hle : (Utils.writeN sk false buf len).2.writen.toNat ≤ len := by
    have := hinv.le_len
    omega
  refine ⟨_, hle, ?_⟩
  rw [← hinv.sent_eq]
  rw [sendN]
  split <;> rfl

/-- What is handed over is a first part of what would be. -/
theorem sendN_handed_prefix (buf : ℤ → UInt8) (hlen : len < 2 ^ 31)
    (hacc : Utils.Sink.Accepts sk) {t : Bytes} (ht : sk.sent ++ memBytes buf 0 len <+: t) :
    handed Prod.snd (sendN sk buf len) <+: t := by
  obtain ⟨n, hn, hhanded⟩ := sendN_handed buf hlen hacc
  rw [hhanded]
  exact ((List.prefix_append_right_inj sk.sent).2 (Utils.memBytes_prefix buf hn)).trans ht

/-- A call that returns and has something to hand over has used up answers. -/
theorem sendN_answers (hpos : 0 < len) {r : ℤ × Sink} (h : sendN sk buf len = .ok r) :
    r.2.answers.length < sk.answers.length := by
  rw [sendN] at h
  split at h
  · rename_i hnone
    cases h
    exact Utils.writeN_answers hpos hnone
  · cases h

/-- A turn of the loop that does not return has called `write_n`. -/
theorem sendTurn_again_eq {length : ℕ} {s s' : SendLoop}
    (h : sendTurn buf length s = .again s') :
    ∃ ret, sendN s.sock buf requestReadBufferLength = .ok ret ∧ s'.sock = ret.2 := by
  rw [sendTurn] at h
  split at h
  · split at h
    · cases h
    · split at h
      · cases h
      · rename_i ret hsend
        dsimp only at h
        split at h
        · cases h
        · split at h
          · cases h
          · cases h
            exact ⟨ret, hsend, rfl⟩
  · cases h

/-- **The loop comes to an end**, or waits: every turn uses up answers of the socket. -/
theorem sendLoop_isSome (length : ℕ) (s : SendLoop) :
    (Loop.run (sendTurn buf length) (s.sock.answers.length + 1) s).isSome := by
  refine Loop.run_isSome_of_variant (I := fun _ => True) (fun s => s.sock.answers.length) ?_ trivial
    (Nat.lt_succ_self _)
  intro t t' _ h
  refine ⟨trivial, ?_⟩
  have hpos : 0 < requestReadBufferLength := by
    rw [requestReadBufferLength]
    omega
  obtain ⟨ret, hsend, hsock⟩ := sendTurn_again_eq h
  rw [hsock]
  exact sendN_answers hpos hsend

/-- A turn of the loop that does not return hands more bytes over. -/
theorem sendTurn_again {length : ℕ} {s s' : SendLoop} (hacc : Utils.Sink.Accepts s.sock)
    (h : sendTurn buf length s = .again s') :
    s.sock.sent <+: s'.sock.sent ∧ Utils.Sink.Accepts s'.sock := by
  obtain ⟨ret, hsend, hsock⟩ := sendTurn_again_eq h
  obtain ⟨hsent, hacc'⟩ := sendN_ok requestReadBufferLength_lt hacc hsend
  rw [hsock]
  exact ⟨hsent ▸ List.prefix_append _ _, hacc'⟩

/-- So does the turn that returns. -/
theorem sendTurn_done {length : ℕ} {s : SendLoop} {r : Sending (Bool × SendLoop)}
    (hacc : Utils.Sink.Accepts s.sock) (h : sendTurn buf length s = .done r) :
    s.sock.sent <+: handed (fun a => a.2.sock) r := by
  have hlen := requestReadBufferLength_lt
  obtain ⟨n, -, hhanded⟩ := sendN_handed buf hlen hacc
  rw [sendTurn] at h
  split at h
  · split at h
    · cases h
      exact List.prefix_rfl
    · split at h
      · rename_i e hsend
        cases h
        rw [hsend] at hhanded
        exact ⟨_, hhanded.symm⟩
      · rename_i ret hsend
        rw [hsend] at hhanded
        dsimp only at h
        split at h
        · cases h
          exact ⟨_, hhanded.symm⟩
        · split at h
          · cases h
            exact ⟨_, hhanded.symm⟩
          · cases h
  · cases h
    exact List.prefix_rfl

/-- What was handed over before the loop stays in front. -/
theorem sendLoop_handed {length fuel : ℕ} {s : SendLoop} (hacc : Utils.Sink.Accepts s.sock) :
    s.sock.sent <+: handed (fun a => a.2.sock)
      ((Loop.run (sendTurn buf length) fuel s).getD (.error (.blocked, s.sock))) := by
  cases hrun : Loop.run (sendTurn buf length) fuel s with
  | none => exact List.prefix_rfl
  | some r =>
      refine Loop.run_inv (I := fun t => s.sock.sent <+: t.sock.sent ∧ Utils.Sink.Accepts t.sock)
        (Q := fun r => s.sock.sent <+: handed (fun a => a.2.sock) r) ?_ ?_
        ⟨List.prefix_rfl, hacc⟩ hrun
      · rintro t t' ⟨hpre, hacc⟩ hturn
        obtain ⟨hmore, hacc'⟩ := sendTurn_again hacc hturn
        exact ⟨hpre.trans hmore, hacc'⟩
      · rintro t r ⟨hpre, hacc⟩ hturn
        exact hpre.trans (sendTurn_done hacc hturn)

end Sent

/-- What holds of the bytes of a sequence of two calls. -/
theorem handed_bind {α β : Type} {P : Bytes → Prop} {f : β → Sink} {x : Sending α}
    {k : α → Sending β} (herror : ∀ e, x = .error e → P e.2.sent)
    (hok : ∀ a, x = .ok a → P (handed f (k a))) : P (handed f (x >>= k)) := by
  cases x with
  | error e => exact herror e rfl
  | ok a => exact hok a rfl

theorem handed_keeping {α β : Type} {P : Bytes → Prop} {f : β → Sink} {sk : Sink} {x : Outcome α}
    {k : α → Sending β} (hsk : P sk.sent) (hok : ∀ a, x = .ok a → P (handed f (k a))) :
    P (handed f (keeping sk x >>= k)) := by
  cases x with
  | error e => exact hsk
  | ok a => exact hok a rfl

/-- One of two streams is a first part of the other. -/
def Agree (s t : Bytes) : Prop := s <+: t ∨ t <+: s

/-- **What is sent starts with the type and the header**, or is cut off before the header is
complete. -/
theorem putObjectSend_handed {io : PutObjectIo} {stSize : ℤ} {path setName : CharPtr} {sock : Sink}
    (hacc : Utils.Sink.Accepts sock) (hsent : sock.sent = []) {req : Bytes}
    (hreq : requestHeader stSize path setName = .ok req)
    (hlen : req.length = RequestPutObject.size) :
    Agree (handed (fun r => r.2.1) (putObjectSend io stSize path setName sock))
      (RequestType.putObject.toUInt8 :: req) := by
  have hone : 1 < 2 ^ 31 := by simp
  have hsize := RequestPutObject.size_lt
  have htype : memBytes (memOf [RequestType.putObject.toUInt8] fun _ => 0) 0 1 =
      [RequestType.putObject.toUInt8] := Utils.memBytes_memOf _ _
  have hheader : memBytes (memOf req io.heap) 0 RequestPutObject.size = req := by
    rw [← hlen]
    exact Utils.memBytes_memOf _ _
  have hstart : [RequestType.putObject.toUInt8] <+: RequestType.putObject.toUInt8 :: req :=
    ⟨req, rfl⟩
  rw [putObjectSend]
  refine handed_bind (P := fun s => Agree s (RequestType.putObject.toUInt8 :: req)) ?_ ?_
  · -- the type is not accepted
    intro e he
    have hpre := sendN_handed_prefix (memOf [RequestType.putObject.toUInt8] fun _ => 0) hone hacc
      (t := RequestType.putObject.toUInt8 :: req)
      (by rw [hsent, List.nil_append, htype]; exact hstart)
    rw [he] at hpre
    exact Or.inl hpre
  intro type htypeOk
  obtain ⟨hsent₁, hacc₁⟩ := sendN_ok hone hacc htypeOk
  rw [hsent, List.nil_append, htype] at hsent₁
  have hagree₁ : Agree type.2.sent (RequestType.putObject.toUInt8 :: req) :=
    Or.inl (hsent₁ ▸ hstart)
  refine handed_keeping (P := fun s => Agree s (RequestType.putObject.toUInt8 :: req)) hagree₁ ?_
  intro req' hreq'
  rw [hreq] at hreq'
  cases hreq'
  refine handed_keeping (P := fun s => Agree s (RequestType.putObject.toUInt8 :: req)) hagree₁ ?_
  intro _ _
  refine handed_bind (P := fun s => Agree s (RequestType.putObject.toUInt8 :: req)) ?_ ?_
  · -- the header is cut off
    intro e he
    have hpre := sendN_handed_prefix (memOf req io.heap) hsize hacc₁
      (t := RequestType.putObject.toUInt8 :: req) (by rw [hsent₁, hheader]; exact List.prefix_rfl)
    rw [he] at hpre
    exact Or.inl hpre
  intro header hheaderOk
  obtain ⟨hsent₂, hacc₂⟩ := sendN_ok hsize hacc₁ hheaderOk
  rw [hsent₁, hheader, List.singleton_append] at hsent₂
  -- from here on the type and the header are in front
  have hloop : ∀ r, (Loop.run (sendTurn (memOf req io.heap) (CInt.toUInt64 stSize))
      (header.2.answers.length + 1) { rn := 0, fd := io.data, sock := header.2 }).getD
      (.error (.blocked, header.2)) = r →
      RequestType.putObject.toUInt8 :: req <+: handed (fun a => a.2.sock) r := by
    rintro r rfl
    rw [← hsent₂]
    exact sendLoop_handed (s := { rn := 0, fd := io.data, sock := header.2 }) hacc₂
  refine handed_bind (P := fun s => Agree s (RequestType.putObject.toUInt8 :: req)) ?_ ?_
  · intro e he
    exact Or.inr (hloop _ he)
  intro last hlast
  have hagree₃ : Agree last.2.sock.sent (RequestType.putObject.toUInt8 :: req) :=
    Or.inr (hloop _ hlast)
  split
  · refine handed_keeping (P := fun s => Agree s (RequestType.putObject.toUInt8 :: req)) hagree₃ ?_
    intro ack _
    exact hagree₃
  · exact hagree₃

/-- With a socket and a file, what was sent is what is handed over after `stat`. -/
theorem sentBytes_eq {io : PutObjectIo} {stSize : ℤ} (hstat : io.stSize = some stSize)
    {path : CharPtr} (hpath : path ≠ .null) (setName : CharPtr) (sock : Sink) :
    sentBytes (requestPutObjectInit io path setName (some sock)) =
      handed (fun r => r.2.1) (putObjectSend io stSize path setName sock) := by
  simp only [requestPutObjectInit, hstat, if_neg hpath]
  cases putObjectSend io stSize path setName sock with
  | error e => rfl
  | ok r => rfl

/-! ### What the server makes of it -/

/-- A request as the server takes it from a stream: its type, its header, its data, and what comes
after them. -/
structure ParsedPutObject where
  reqType : UInt8
  header : Bytes
  payload : Bytes
  rest : Bytes

/-- One byte is taken for the type, the size of a request for the header, and as many bytes as the
header says for the data. -/
def parsePutObject : Bytes → Option ParsedPutObject
  | [] => none
  | type :: s =>
      if s.length < RequestPutObject.size then none
      else
        let header := s.take RequestPutObject.size
        let data := s.drop RequestPutObject.size
        let n := leNat header RequestPutObject.dataLength 8
        some { reqType := type, header := header, payload := data.take n, rest := data.drop n }

/-- A stream that starts like a type and a header is parsed into these. -/
theorem parsePutObject_header {s header : Bytes} {type : UInt8} {p : ParsedPutObject}
    (hlen : header.length = RequestPutObject.size) (hagree : Agree s (type :: header))
    (hp : parsePutObject s = some p) : p.reqType = type ∧ p.header = header := by
  cases s with
  | nil => cases hp
  | cons t s =>
      by_cases hshort : s.length < RequestPutObject.size
      · rw [parsePutObject, if_pos hshort] at hp
        cases hp
      · rw [parsePutObject, if_neg hshort] at hp
        obtain rfl := Option.some.inj hp
        rcases hagree with hpre | hpre
        · obtain ⟨rfl, htail⟩ := List.cons_prefix_cons.1 hpre
          have heq := htail.eq_of_length_le (by omega)
          exact ⟨rfl, by rw [heq, ← hlen, List.take_length]⟩
        · obtain ⟨rfl, htail⟩ := List.cons_prefix_cons.1 hpre
          exact ⟨rfl, by rw [← hlen, ← List.prefix_iff_eq_take.1 htail]⟩

/-! ### Every request of a client -/

/-- The segments in which the content of a file is read. -/
structure Delivery (content : Bytes) where
  segments : List (UInt8 × Bytes)
  bytes_eq : (segments.flatMap fun seg => seg.1 :: seg.2) = content

/-- The open file. -/
def Delivery.source {content : Bytes} (d : Delivery content) : Source where
  arrivals := d.segments.map fun seg => .data seg.1 seg.2
  ended := true

/-- What a client can be asked to put: a readable file under a path whose last part fits, a set
name that fits, how the file is read, how many bytes each call to `write` takes at most, and what
the memory around holds. -/
structure PutObjectInput where
  path : Bytes
  noNul : CString.NoNul path
  short : (Utils.baseName path).length < bucketBufferLength
  set : SetName
  content : Bytes
  length_lt : content.length < 2 ^ 63
  hashed : Delivery content
  data : Delivery content
  accepted : List ℕ
  md5 : Md5Ctx
  frame : Bytes
  heap : ℤ → UInt8

namespace PutObjectInput

/-- What the client meets. -/
def io (input : PutObjectInput) : PutObjectIo where
  stSize := some input.content.length
  hashed := some input.hashed.source
  data := some input.data.source
  md5 := input.md5
  frame := input.frame
  heap := input.heap

/-- The socket before anything is sent. -/
def sock (input : PutObjectInput) : Sink :=
  { answers := input.accepted.map .accept, sent := [] }

/-- The stream that is sent. -/
def stream (input : PutObjectInput) : Bytes :=
  sentBytes (requestPutObjectInit input.io (.mem (CString.cstr input.path))
    (.mem (CString.cstr input.set.name)) (some input.sock))

/-- What `md5_file` computes for the file, into a buffer that has room for the terminator. -/
def digits (input : PutObjectInput) : Outcome (ℤ × Bytes) :=
  md5File input.md5 (some input.hashed.source) (List.replicate (bucketObjectUidSz + 1) 0)

/-- The request carries what the client was asked to put, under this identifier. -/
structure Carries (input : PutObjectInput) (uid : Bytes) (p : ParsedPutObject) : Prop where
  reqType : p.reqType = RequestType.putObject.toUInt8
  objectName : ∃ v, p.header.drop RequestPutObject.objectName =
    Utils.baseName input.path ++ 0 :: v
  setName : ∃ v, p.header.drop RequestPutObject.setName = input.set.name ++ 0 :: v
  uid : (p.header.drop RequestPutObject.uid).take bucketObjectUidSz = uid
  dataLength : leNat p.header RequestPutObject.dataLength 8 = input.content.length
  payload : p.payload = input.content
  rest : p.rest = []

/-- The server gets what the client was asked to put. -/
def RoundTrips (input : PutObjectInput) : Prop :=
  ∃ p str, parsePutObject input.stream = some p ∧ input.digits = .ok (0, str) ∧
    input.Carries (str.take bucketObjectUidSz) p

/-- The header of the request. -/
def header (input : PutObjectInput) : Bytes :=
  headerBytes (Utils.baseName input.path) input.set.name input.content.length

theorem stream_agree (input : PutObjectInput) :
    Agree input.stream (RequestType.putObject.toUInt8 :: input.header) := by
  have hreq := requestHeader_eq input.noNul input.short input.set input.content.length
  have hlt := input.length_lt
  rw [CInt.toUInt64_natCast_of_lt (by omega)] at hreq
  have hacc : Utils.Sink.Accepts input.sock := by
    intro ev hev
    obtain ⟨k, -, rfl⟩ := List.mem_map.1 hev
    exact ⟨k, rfl⟩
  have hagree : Agree (handed (fun r => r.2.1) (putObjectSend input.io input.content.length
      (.mem (CString.cstr input.path)) (.mem (CString.cstr input.set.name)) input.sock)) _ :=
    putObjectSend_handed hacc rfl hreq (length_headerBytes input.short input.set _)
  have hnull : (.mem (CString.cstr input.path) : CharPtr) ≠ .null := CharPtr.noConfusion
  rw [stream, sentBytes_eq rfl hnull]
  exact hagree

/-- What the server gets of the request: the type, the names and the size are right, and the
identifier is all zeros. -/
theorem parsed_header (input : PutObjectInput) {p : ParsedPutObject}
    (hp : parsePutObject input.stream = some p) :
    p.reqType = RequestType.putObject.toUInt8 ∧
      (∃ v, p.header.drop RequestPutObject.objectName = Utils.baseName input.path ++ 0 :: v) ∧
      (∃ v, p.header.drop RequestPutObject.setName = input.set.name ++ 0 :: v) ∧
      (p.header.drop RequestPutObject.uid).take bucketObjectUidSz =
        List.replicate bucketObjectUidSz 0 ∧
      leNat p.header RequestPutObject.dataLength 8 = input.content.length := by
  have hlen := length_headerBytes input.short input.set input.content.length
  have hlt := input.length_lt
  obtain ⟨htype, hheader⟩ := parsePutObject_header hlen input.stream_agree hp
  rw [hheader]
  exact ⟨htype, objectName_headerBytes input.short input.set _,
    setName_headerBytes input.short input.set _, uid_headerBytes input.short input.set _,
    dataLength_headerBytes input.short input.set _ (by omega)⟩

theorem not_roundTrips (input : PutObjectInput) : ¬ input.RoundTrips := by
  rintro ⟨p, str, hp, hdigits, hcarries⟩
  obtain ⟨-, -, -, hzero, -⟩ := input.parsed_header hp
  obtain ⟨md5Value, hstr⟩ := md5File_ok hdigits
  have huid : List.replicate bucketObjectUidSz (0 : UInt8) = md5Digits md5Value := by
    rw [← hzero, hcarries.uid, ← hstr]
    rfl
  have hmem : (0 : UInt8) ∈ md5Digits md5Value := by
    rw [← huid]
    exact List.mem_replicate.2 ⟨by decide, rfl⟩
  exact md5Digits_noNul md5Value hmem

end PutObjectInput

/-- **The server never gets the identifier.**  Whatever a client is asked to put, the server does
not get what was asked for: of every request that arrives with its header, the type, the names and
the size are right, and the identifier is all zeros. -/
theorem putObject_never_roundTrips (input : PutObjectInput) :
    ¬ input.RoundTrips ∧ ∀ p, parsePutObject input.stream = some p →
      p.reqType = RequestType.putObject.toUInt8 ∧
      (∃ v, p.header.drop RequestPutObject.objectName = Utils.baseName input.path ++ 0 :: v) ∧
      (∃ v, p.header.drop RequestPutObject.setName = input.set.name ++ 0 :: v) ∧
      (p.header.drop RequestPutObject.uid).take bucketObjectUidSz =
        List.replicate bucketObjectUidSz 0 ∧
      leNat p.header RequestPutObject.dataLength 8 = input.content.length :=
  ⟨input.not_roundTrips, fun _ hp => input.parsed_header hp⟩

/-- The file `f` with the content `hi`, put into the set `s`. -/
def putHi : PutObjectInput where
  path := [102]
  noNul := by decide
  short := by decide
  set := setS
  content := [104, 105]
  length_lt := by decide
  hashed := { segments := [(104, [105])], bytes_eq := rfl }
  data := { segments := [(104, [105])], bytes_eq := rfl }
  accepted := [0, 551, 4194303]
  md5 := { count0 := 0, count1 := 0, state := ⟨0, 0, 0, 0⟩, buffer := List.replicate 64 0 }
  frame := [0]
  heap := fun _ => 0

/-- The server does not get this file under its digest. -/
theorem putHi_not_roundTrips : ¬ putHi.RoundTrips := putHi.not_roundTrips
