/-
**What `read_cb` answers.**

The response is a local variable of `read_cb`.  Its status is assigned where no set is found and
where a set is asked for, its name is copied from the structure of a request for a set, which a
request to put an object does not fill in, and the copy writes neither a terminator nor what comes
behind it.  All of it is sent: what was never assigned is what the variables happened to hold.

The test of the result of `recv` is the wrong way round, too.  A byte that was received is taken for
an error, and where none was, the type that was set beforehand is handled: that of a request to put
an object.

Main definitions:

* `Locals`, `CallbackIo` — the uninitialised variables, and what the calls meet;
* `readRequest`, `answer`, `response` — the parts of the switch;
* `Sends` — a run of the switch that sends a whole response;
* `NoLeak` — the response does not depend on what the variables held;
* `Truthful`, `LeftoversTell` — a response that tells the truth, and the leftovers that do;
* `ActsOnReceived` — the callback handles the request it received.

Main results:

* `Sends.made` — **the response is made of the request and the leftovers**;
* `sends_eq_iff` — two runs send the same exactly when their leftovers agree where they show;
* `noLeak_iff` — **leftovers reach every response**;
* `sends_truthful_iff` — **the response is true exactly when the leftovers happen to be**;
* `readCb_never_actsOnReceived` — **the callback never handles the request it received**.
-/

import SdsStorage.ObjectRequest
import SdsStorage.Placement
import SdsStorage.PutStatus

set_option relaxedAutoImplicit false
set_option autoImplicit false

/-! ### The parts of the switch -/

/-- The uninitialised variables of `read_cb`, each of its size. -/
structure Locals where
  resp : Bytes
  reqBucketset : Bytes
  reqObject : Bytes
  bucketIndex : UInt64
  resp_length : resp.length = ResponseAck.size
  reqBucketset_length : reqBucketset.length = RequestPutBucketset.size
  reqObject_length : reqObject.length = RequestPutObject.size

/-- What the calls of `read_cb` meet. -/
structure CallbackIo where
  answers : List WriteEvent
  chance : ℕ → FsChance

/-- The surroundings of a callback with these variables. -/
def Locals.env (l : Locals) (io : CallbackIo) : CallbackEnv where
  reqBucketset := l.reqBucketset
  reqObject := l.reqObject
  bucketIndex := l.bucketIndex
  resp := l.resp
  answers := io.answers
  chance := io.chance

/-- The request of the given type as the switch decodes it, and the socket behind it. -/
def readRequest (l : Locals) (reqType : UInt8) (sock : Source) : Outcome (Bytes × Source) :=
  if reqType = RequestType.putObject.toUInt8 then do
    let rn ← Utils.readN sock false RequestPutObject.size
    .ok (fillBuffer l.reqObject rn.stores, rn.src)
  else if reqType = RequestType.putBucketset.toUInt8 then do
    let rn ← Utils.readN sock false RequestPutBucketset.size
    .ok (fillBuffer l.reqBucketset rn.stores, rn.src)
  else .ok ([], sock)

/-- What the handling of a request finds at the data file. -/
def CallbackIo.putIo (io : CallbackIo) (src : Source) : PutIo :=
  { sock := src, answers := io.answers, chance := io.chance 0 }

/-- What the switch leaves for the response: the server, the socket, the structure the name is
copied from, and the status, if one is assigned. -/
def answer (l : Locals) (io : CallbackIo) (reqType : UInt8) (sv : Server) (req : Bytes)
    (src : Source) : Outcome (Server × Source × Bytes × Option ℤ) :=
  if reqType = RequestType.putObject.toUInt8 then do
    let put ← handlePutObject sv (io.putIo src) l.bucketIndex req
    .ok (put.1, put.2.1, l.reqBucketset, put.2.2)
  else if reqType = RequestType.putBucketset.toUInt8 then do
    let sv ← handlePutBucketset io.chance sv (fieldPtr req RequestPutBucketset.setName)
    .ok (sv, src, req, some 0)
  else .ok (sv, src, l.reqBucketset, none)

/-- The assignment of the status, if there is one. -/
def assignRet (resp : Bytes) : Option ℤ → Outcome Bytes
  | none => .ok resp
  | some r => CString.memcpyAt resp ResponseAck.ret (leBytes 4 (CInt.toUInt32 r))

/-- The response, as it is handed to `send`. -/
def response (resp : Bytes) (reqType : UInt8) (reqBucketset : Bytes) (ret : Option ℤ) :
    Outcome Bytes := do
  let resp ← assignRet resp ret
  let resp ← CString.memcpyAt resp ResponseAck.reqType [reqType]
  let len ← CString.strlen reqBucketset
  CString.strncpy resp ResponseAck.name (fieldPtr reqBucketset RequestPutBucketset.setName) len

theorem respond_eq (env : CallbackEnv) (reqType : UInt8) (reqBucketset : Bytes) (ret : Option ℤ)
    (out : Sink) :
    respond env reqType reqBucketset ret out =
      (response env.resp reqType reqBucketset ret >>= fun resp =>
        out.write false (memOf resp fun _ => 0) 0 ResponseAck.size >>= fun sent => .ok sent.2) := by
  cases ret with
  | none => simp only [respond, response, assignRet, bind_assoc]
  | some r => simp only [respond, response, assignRet, bind_assoc]

/-- **The switch**, put together from its parts. -/
theorem readCbSwitch_eq (l : Locals) (io : CallbackIo) (reqType : UInt8) (sv : Server)
    (sock : Source) (out : Sink) :
    readCbSwitch (l.env io) reqType sv sock out =
      (readRequest l reqType sock >>= fun req =>
        answer l io reqType sv req.1 req.2 >>= fun ans =>
          respond (l.env io) reqType ans.2.2.1 ans.2.2.2 out >>= fun out =>
            .ok (ans.1, ans.2.1, out)) := by
  rw [readCbSwitch, readRequest]
  by_cases hobj : reqType = RequestType.putObject.toUInt8
  · simp only [answer, if_pos hobj, bind_assoc, Outcome.ok_bind]
    rfl
  · by_cases hset : reqType = RequestType.putBucketset.toUInt8
    · simp only [answer, if_neg hobj, if_pos hset, bind_assoc, Outcome.ok_bind]
      rfl
    · simp only [answer, if_neg hobj, if_neg hset, Outcome.ok_bind]
      rfl

/-! ### The bytes of the response -/

/-- The text of a field: the bytes before its terminator. -/
def textOf (mem : Bytes) : Bytes := mem.takeWhile (· ≠ 0)

/-- The name of a response, after the text `s` was copied to it: what lies behind is left over. -/
def nameLeft (resp s : Bytes) : Bytes :=
  s ++ (resp.drop (ResponseAck.name + s.length)).take (bucketBufferLength - s.length)

/-- The status of a response, which is left over unless it was assigned. -/
def retLeft (resp : Bytes) : Option ℤ → Bytes
  | none => resp.drop ResponseAck.ret
  | some r => leBytes 4 (CInt.toUInt32 r)

theorem length_nameLeft {resp s : Bytes} (hresp : resp.length = ResponseAck.size)
    (hs : s.length ≤ bucketBufferLength) : (nameLeft resp s).length = bucketBufferLength := by
  simp only [nameLeft, List.length_append, List.length_take, List.length_drop, hresp,
    ResponseAck.size, ResponseAck.name, bucketBufferLength] at hs ⊢
  omega

theorem length_retLeft {resp : Bytes} (hresp : resp.length = ResponseAck.size) (ret : Option ℤ) :
    (retLeft resp ret).length = 4 := by
  cases ret with
  | none => rw [retLeft, List.length_drop, hresp]; rfl
  | some r => exact length_leBytes 4 _

theorem textOf_append {s : Bytes} (hs : CString.NoNul s) (t : Bytes) :
    textOf (s ++ t) = s ++ textOf t := by
  rw [textOf, textOf, List.takeWhile_append_of_pos]
  intro b hb
  have hne : b ≠ 0 := fun h => hs (h ▸ hb)
  simpa using hne

theorem textOf_terminated {s : Bytes} (hs : CString.NoNul s) (t : Bytes) :
    textOf (s ++ 0 :: t) = s := by
  have hnil : textOf (0 :: t) = [] := by simp [textOf]
  rw [textOf_append hs, hnil, List.append_nil]

theorem noNul_textOf (mem : Bytes) : CString.NoNul (textOf mem) := by
  intro h
  simpa using List.mem_takeWhile_imp h

/-- There is no text exactly where the terminator comes first. -/
theorem textOf_eq_nil_iff {mem : Bytes} (h : mem ≠ []) : textOf mem = [] ↔ mem.head? = some 0 := by
  cases mem with
  | nil => exact absurd rfl h
  | cons b mem => simp [textOf, List.takeWhile_cons]

/-- **What the response is**: its type, the name over what was left there, and its status. -/
theorem response_eq {resp s t : Bytes} (reqType : UInt8) (ret : Option ℤ)
    (hresp : resp.length = ResponseAck.size) (hs : CString.NoNul s)
    (hshort : s.length < bucketBufferLength) :
    response resp reqType (s ++ 0 :: t) ret =
      .ok (reqType :: (nameLeft resp s ++ retLeft resp ret)) := by
  have htake : (resp.take ResponseAck.ret).length = ResponseAck.ret := by
    rw [List.length_take, hresp]
    rfl
  have hret : assignRet resp ret = .ok (resp.take ResponseAck.ret ++ retLeft resp ret) := by
    cases ret with
    | none => rw [assignRet, retLeft, List.take_append_drop]
    | some r =>
        have hend : resp.drop (ResponseAck.ret + 4) = [] :=
          List.drop_of_length_le (Nat.le_of_eq hresp)
        rw [assignRet, CString.memcpyAt, length_leBytes, hresp, if_pos (by decide), hend,
          List.append_nil, retLeft]
  have hsize : (resp.take ResponseAck.ret ++ retLeft resp ret).length = ResponseAck.size := by
    rw [List.length_append, length_retLeft hresp, htake]
    rfl
  have htype : CString.memcpyAt (resp.take ResponseAck.ret ++ retLeft resp ret) ResponseAck.reqType
      [reqType] = .ok ([reqType] ++ (resp.take ResponseAck.ret ++ retLeft resp ret).drop 1) := by
    rw [CString.memcpyAt, hsize, List.length_singleton, if_pos (by decide)]
    rfl
  unfold bucketBufferLength at hshort
  have hfit : ResponseAck.name + s.length ≤
      ([reqType] ++ (resp.take ResponseAck.ret ++ retLeft resp ret).drop 1).length := by
    rw [List.length_append, List.length_singleton, List.length_drop, hsize]
    unfold ResponseAck.name ResponseAck.size
    omega
  -- what the copy of the name leaves alone: the rest of the name, and the status
  have hbehind : ([reqType] ++ (resp.take ResponseAck.ret ++ retLeft resp ret).drop 1).drop
        (ResponseAck.name + s.length) =
      (resp.drop (ResponseAck.name + s.length)).take (bucketBufferLength - s.length) ++
        retLeft resp ret := by
    have hle : 1 + s.length ≤ (resp.take ResponseAck.ret).length := by
      rw [htake]
      unfold ResponseAck.ret
      omega
    have hrest : ResponseAck.ret - (1 + s.length) = bucketBufferLength - s.length := by
      unfold ResponseAck.ret bucketBufferLength
      omega
    rw [← List.drop_drop, ResponseAck.name, List.drop_left' List.length_singleton,
      List.drop_drop, List.drop_append_of_le_length hle, List.drop_take, hrest]
  rw [response, hret, Outcome.ok_bind, htype, Outcome.ok_bind, CString.strlen_append hs,
    Outcome.ok_bind, fieldPtr, RequestPutBucketset.setName, List.drop_zero,
    CString.strncpy_strlen hs (0 :: t) _ ResponseAck.name hfit, hbehind, nameLeft]
  simp only [List.append_assoc]
  rfl

/-- A response that is made was made from a name that ends within its structure. -/
theorem exists_name_of_response {resp reqBucketset b : Bytes} {reqType : UInt8} {ret : Option ℤ}
    (hreq : reqBucketset.length = RequestPutBucketset.size)
    (h : response resp reqType reqBucketset ret = .ok b) :
    ∃ s t, CString.NoNul s ∧ s.length < bucketBufferLength ∧ reqBucketset = s ++ 0 :: t := by
  -- without a terminator `strlen` reads past the structure
  have hzero : (0 : UInt8) ∈ reqBucketset := by
    by_contra hnul
    simp only [response, CString.strlen_noNul hnul, Outcome.error_bind, Outcome.bind_eq_ok] at h
    obtain ⟨_, -, _, -, h⟩ := h
    cases h
  obtain ⟨s, t, hs, rfl⟩ : ∃ s t, CString.NoNul s ∧ reqBucketset = s ++ 0 :: t := by
    obtain ⟨hs, t, ht⟩ := CString.eq_append_of_mem hzero
    exact ⟨_, t, hs, ht⟩
  refine ⟨s, t, hs, ?_, rfl⟩
  rw [List.length_append, List.length_cons] at hreq
  unfold RequestPutBucketset.size at hreq
  unfold bucketBufferLength
  omega

theorem response_ok {resp reqBucketset b : Bytes} {reqType : UInt8} {ret : Option ℤ}
    (hresp : resp.length = ResponseAck.size)
    (hreq : reqBucketset.length = RequestPutBucketset.size)
    (h : response resp reqType reqBucketset ret = .ok b) :
    (textOf reqBucketset).length < bucketBufferLength ∧
      b = reqType :: (nameLeft resp (textOf reqBucketset) ++ retLeft resp ret) := by
  obtain ⟨s, t, hs, hshort, rfl⟩ := exists_name_of_response hreq h
  rw [response_eq reqType ret hresp hs hshort] at h
  cases h
  rw [textOf_terminated hs]
  exact ⟨hshort, rfl⟩

/-! ### What is sent -/

/-- The request of the given type that the switch decodes. -/
def requestOf (l : Locals) (reqType : UInt8) (sock : Source) : Bytes :=
  match readRequest l reqType sock with
  | .ok req => req.1
  | .error _ => []

/-- The name that is copied into the response: that of the structure of a request for a set. -/
def copiedName (l : Locals) (reqType : UInt8) (req : Bytes) : Bytes :=
  if reqType = RequestType.putBucketset.toUInt8 then textOf req else textOf l.reqBucketset

/-- The status that is assigned, if one is. -/
def assignedRet (sv : Server) (reqType : UInt8) (req : Bytes) : Option ℤ :=
  if reqType = RequestType.putObject.toUInt8 then
    match scanSets sv (fieldPtr req RequestPutObject.setName) with
    | .ok none => some (-1)
    | _ => none
  else if reqType = RequestType.putBucketset.toUInt8 then some 0
  else none

/-- A run of the switch that returns, and hands over the whole of the response `b`. -/
def Sends (l : Locals) (io : CallbackIo) (reqType : UInt8) (sv : Server) (sock : Source)
    (out : Sink) (b : Bytes) : Prop :=
  ∃ r, readCbSwitch (l.env io) reqType sv sock out = .ok r ∧ r.2.2.sent = out.sent ++ b ∧
    b.length = ResponseAck.size

theorem length_fillBuffer {buf : Bytes} {stores : List (ℤ × Bytes)}
    (h : ∀ st ∈ stores, st.1.toNat + st.2.length ≤ buf.length) :
    (fillBuffer buf stores).length = buf.length := by
  induction stores generalizing buf with
  | nil => rfl
  | cons st stores ih =>
      have hst := h st (by simp)
      have hlen : (buf.take st.1.toNat ++ st.2 ++ buf.drop (st.1.toNat + st.2.length)).length =
          buf.length := by
        simp only [List.length_append, List.length_take, List.length_drop]
        omega
      rw [fillBuffer, List.foldl_cons]
      refine (ih ?_).trans hlen
      intro st' hst'
      rw [hlen]
      exact h st' (List.mem_cons_of_mem _ hst')

/-- A structure that a request is read into keeps its size. -/
theorem length_fillBuffer_readN {buf : Bytes} {src : Source} {len : ℕ} {rn : Utils.ReadN}
    (hlen : len < 2 ^ 31) (hbuf : buf.length = len) (h : Utils.readN src false len = .ok rn) :
    (fillBuffer buf rn.stores).length = len := by
  rw [← hbuf]
  refine length_fillBuffer ?_
  intro st hst
  rw [hbuf]
  exact ((Utils.readN_inv hlen h).stores_le st hst).2

section

variable {l : Locals} {io : CallbackIo} {reqType : UInt8} {sv : Server} {sock src : Source}
  {out : Sink} {req b : Bytes}

/-- A request for a set fills its structure. -/
theorem length_readRequest (hset : reqType = RequestType.putBucketset.toUInt8)
    (h : readRequest l reqType sock = .ok (req, src)) : req.length = RequestPutBucketset.size := by
  have hne : reqType ≠ RequestType.putObject.toUInt8 := by
    rw [hset]
    exact RequestType.putObject_ne_putBucketset.symm
  rw [readRequest, if_neg hne, if_pos hset] at h
  rw [Outcome.bind_eq_ok] at h
  obtain ⟨rn, hread, h⟩ := h
  cases h
  exact length_fillBuffer_readN (by decide) l.reqBucketset_length hread

/-- What the switch leaves for the response. -/
theorem answer_ok {ans : Server × Source × Bytes × Option ℤ}
    (hreq : readRequest l reqType sock = .ok (req, src))
    (h : answer l io reqType sv req src = .ok ans) :
    ans.2.2.1.length = RequestPutBucketset.size ∧
      textOf ans.2.2.1 = copiedName l reqType req ∧ ans.2.2.2 = assignedRet sv reqType req := by
  rw [answer] at h
  rw [copiedName, assignedRet]
  by_cases hobj : reqType = RequestType.putObject.toUInt8
  · have hne : ¬ reqType = RequestType.putBucketset.toUInt8 := by
      rw [hobj]
      exact RequestType.putObject_ne_putBucketset
    rw [if_pos hobj, handlePutObject_eq, bind_assoc] at h
    rw [if_neg hne, if_pos hobj]
    rw [Outcome.bind_eq_ok] at h
    obtain ⟨selected, hselected, h⟩ := h
    rw [Outcome.bind_eq_ok] at h
    obtain ⟨put, hput, h⟩ := h
    cases h
    refine ⟨l.reqBucketset_length, rfl, ?_⟩
    obtain ⟨sets, hscan, hsome⟩ := selectedBucket_ok hselected
    rw [hscan]
    rcases putSelected_ok hput with ⟨rfl, hret⟩ | ⟨found, r, rfl, -, hret⟩
    · cases sets with
      | none => exact hret
      | some a => cases hsome
    · cases sets with
      | none => cases hsome
      | some a => exact hret
  · rw [if_neg hobj] at h
    rw [if_neg hobj]
    by_cases hset : reqType = RequestType.putBucketset.toUInt8
    · rw [if_pos hset] at h
      rw [if_pos hset, if_pos hset]
      rw [Outcome.bind_eq_ok] at h
      obtain ⟨sv', -, h⟩ := h
      cases h
      exact ⟨length_readRequest hset hreq, rfl, rfl⟩
    · rw [if_neg hset] at h
      rw [if_neg hset, if_neg hset]
      cases h
      exact ⟨l.reqBucketset_length, rfl, rfl⟩

/-- The descriptor takes a whole response at once. -/
def TakesResponse (out : Sink) : Prop :=
  ∃ k rest, out.answers = .accept k :: rest ∧ ResponseAck.size ≤ k + 1

/-- **When a whole response is sent**: it is made, and the descriptor takes it. -/
theorem respond_sends_iff {env : CallbackEnv} {reqBucketset : Bytes} {ret : Option ℤ}
    (hresp : env.resp.length = ResponseAck.size)
    (hreq : reqBucketset.length = RequestPutBucketset.size) :
    (∃ out', respond env reqType reqBucketset ret out = .ok out' ∧ out'.sent = out.sent ++ b ∧
        b.length = ResponseAck.size) ↔
      TakesResponse out ∧ response env.resp reqType reqBucketset ret = .ok b := by
  rw [respond_eq]
  cases hmade : response env.resp reqType reqBucketset ret with
  | error f =>
      refine iff_of_false ?_ fun h => by cases h.2
      rintro ⟨out', h, -⟩
      cases h
  | ok resp =>
      have hsize : resp.length = ResponseAck.size := by
        obtain ⟨hshort, rfl⟩ := response_ok hresp hreq hmade
        rw [List.length_cons, List.length_append, length_nameLeft hresp hshort.le,
          length_retLeft hresp]
        rfl
      obtain ⟨answers, sent⟩ := out
      simp only [Outcome.ok_bind, Outcome.bind_eq_ok, Except.ok.injEq]
      constructor
      · rintro ⟨out', ⟨⟨wr, sink⟩, hwrite, rfl⟩, hsent, hlen⟩
        have hne : b ≠ [] := by
          rintro rfl
          cases hlen
        cases answers with
        | nil => simp [Sink.write] at hwrite
        | cons ev rest =>
            cases ev with
            | accept k =>
                simp only [Sink.write, Bool.false_eq_true, if_false] at hwrite
                cases hwrite
                -- all of the response was taken, since as much was handed over
                have hb := (List.append_cancel_left hsent).symm
                have hcount := congrArg List.length hb
                rw [Utils.length_memBytes, hlen] at hcount
                refine ⟨⟨k, rest, rfl, by omega⟩, ?_⟩
                rw [hb, ← hcount, ← hsize, Utils.memBytes_memOf]
            | zero | intr | fail =>
                simp only [Sink.write, Bool.false_eq_true, if_false] at hwrite
                cases hwrite
                exact absurd (List.self_eq_append_right.1 hsent) hne
      · rintro ⟨⟨k, rest, rfl, hk⟩, rfl⟩
        refine ⟨_, ⟨_, rfl, rfl⟩, ?_, hsize⟩
        simp only [Nat.min_eq_right hk]
        rw [← hsize, Utils.memBytes_memOf]

/-- **When the switch sends a whole response**, and which. -/
theorem sends_iff :
    Sends l io reqType sv sock out b ↔ ∃ req src ans, readRequest l reqType sock = .ok (req, src) ∧
      answer l io reqType sv req src = .ok ans ∧ TakesResponse out ∧
      response l.resp reqType ans.2.2.1 ans.2.2.2 = .ok b := by
  constructor
  · rintro ⟨r, hrun, hsent, hlen⟩
    rw [readCbSwitch_eq] at hrun
    rw [Outcome.bind_eq_ok] at hrun
    obtain ⟨⟨req, src⟩, hreq, hrun⟩ := hrun
    rw [Outcome.bind_eq_ok] at hrun
    obtain ⟨ans, hans, hrun⟩ := hrun
    rw [Outcome.bind_eq_ok] at hrun
    obtain ⟨out', hrespond, hrun⟩ := hrun
    cases hrun
    have hresp : (l.env io).resp.length = ResponseAck.size := l.resp_length
    exact ⟨req, src, ans, hreq, hans,
      (respond_sends_iff hresp (answer_ok hreq hans).1).1 ⟨out', hrespond, hsent, hlen⟩⟩
  · rintro ⟨req, src, ans, hreq, hans, hsend⟩
    have hresp : (l.env io).resp.length = ResponseAck.size := l.resp_length
    obtain ⟨out', hrespond, hsent, hlen⟩ :=
      (respond_sends_iff hresp (answer_ok hreq hans).1).2 hsend
    refine ⟨(ans.1, ans.2.1, out'), ?_, hsent, hlen⟩
    rw [readCbSwitch_eq, hreq, Outcome.ok_bind, hans, Outcome.ok_bind, hrespond, Outcome.ok_bind]

/-- **The response is made of the request and the leftovers.** -/
theorem Sends.made (h : Sends l io reqType sv sock out b) :
    (copiedName l reqType (requestOf l reqType sock)).length < bucketBufferLength ∧
      b = reqType :: (nameLeft l.resp (copiedName l reqType (requestOf l reqType sock)) ++
        retLeft l.resp (assignedRet sv reqType (requestOf l reqType sock))) := by
  obtain ⟨req, src, ans, hreq, hans, -, hmade⟩ := sends_iff.1 h
  obtain ⟨hbucketset, hname, hret⟩ := answer_ok hreq hans
  have hrequest : requestOf l reqType sock = req := by rw [requestOf, hreq]
  rw [hrequest, ← hname, ← hret]
  exact response_ok l.resp_length hbucketset hmade

end

/-! ### Two runs -/

/-- **Two runs send the same exactly when their leftovers agree where they show.**  Of any two runs
of the switch, on one server and one socket, that send a whole response each, whatever their
variables held: the responses are equal exactly when the copied names followed by the leftovers of
the name are, and the assigned status or, where none is assigned, its leftovers are. -/
theorem sends_eq_iff {l₁ l₂ : Locals} {io : CallbackIo} {reqType : UInt8} {sv : Server}
    {sock : Source} {out : Sink} {b₁ b₂ : Bytes} (h₁ : Sends l₁ io reqType sv sock out b₁)
    (h₂ : Sends l₂ io reqType sv sock out b₂) :
    b₁ = b₂ ↔
      nameLeft l₁.resp (copiedName l₁ reqType (requestOf l₁ reqType sock)) =
          nameLeft l₂.resp (copiedName l₂ reqType (requestOf l₂ reqType sock)) ∧
        retLeft l₁.resp (assignedRet sv reqType (requestOf l₁ reqType sock)) =
          retLeft l₂.resp (assignedRet sv reqType (requestOf l₂ reqType sock)) := by
  obtain ⟨hshort₁, rfl⟩ := h₁.made
  obtain ⟨hshort₂, rfl⟩ := h₂.made
  have hlen := (length_nameLeft l₁.resp_length hshort₁.le).trans
    (length_nameLeft l₂.resp_length hshort₂.le).symm
  rw [List.cons.injEq]
  constructor
  · rintro ⟨-, htail⟩
    exact List.append_inj htail hlen
  · rintro ⟨hname, hret⟩
    exact ⟨rfl, by rw [hname, hret]⟩

/-- The last byte of the name in a response: no name that is copied reaches it. -/
def lastOfName : ℕ := 255

/-- The variables, with another byte there. -/
def Locals.flip (l : Locals) : Locals where
  resp := l.resp.set lastOfName (l.resp.getD lastOfName 0 + 1)
  reqBucketset := l.reqBucketset
  reqObject := l.reqObject
  bucketIndex := l.bucketIndex
  resp_length := by rw [List.length_set, l.resp_length]
  reqBucketset_length := l.reqBucketset_length
  reqObject_length := l.reqObject_length

/-- The last byte of the name is left over. -/
theorem nameLeft_last (resp : Bytes) {s : Bytes} (hs : s.length < bucketBufferLength) :
    (nameLeft resp s)[bucketBufferLength - 1]? = resp[lastOfName]? := by
  unfold bucketBufferLength at hs ⊢
  rw [nameLeft, List.getElem?_append_right (by omega), List.getElem?_take_of_lt
    (by unfold bucketBufferLength; omega), List.getElem?_drop]
  congr 1
  unfold ResponseAck.name lastOfName
  omega

theorem nameLeft_flip_ne (l : Locals) {s : Bytes} (hs : s.length < bucketBufferLength) :
    nameLeft l.flip.resp s ≠ nameLeft l.resp s := by
  intro h
  have hlt : lastOfName < l.resp.length := by
    rw [l.resp_length]
    decide
  have hlast := congrArg (fun name => name[bucketBufferLength - 1]?) h
  rw [nameLeft_last _ hs, nameLeft_last _ hs, Locals.flip, List.getElem?_set_self hlt,
    List.getD_eq_getElem?_getD, List.getElem?_eq_getElem hlt, Option.getD_some,
    Option.some.injEq] at hlast
  exact absurd hlast (by simp)

/-- A run that sends a response has another, which differs from it in one byte of an uninitialised
variable only, and sends another response. -/
theorem Sends.flip {l : Locals} {io : CallbackIo} {reqType : UInt8} {sv : Server}
    {sock : Source} {out : Sink} {b : Bytes} (h : Sends l io reqType sv sock out b) :
    ∃ b', Sends l.flip io reqType sv sock out b' ∧ b' ≠ b := by
  obtain ⟨req, src, ans, hreq, hans, htakes, hmade⟩ := sends_iff.1 h
  obtain ⟨s, t, hs, hshort, hname⟩ := exists_name_of_response (answer_ok hreq hans).1 hmade
  have hflip := response_eq (t := t) reqType ans.2.2.2 l.flip.resp_length hs hshort
  rw [hname, response_eq reqType ans.2.2.2 l.resp_length hs hshort] at hmade
  cases hmade
  refine ⟨_, sends_iff.2 ⟨req, src, ans, hreq, hans, htakes, by rw [hname]; exact hflip⟩, ?_⟩
  intro hsame
  rw [List.cons.injEq] at hsame
  have hlen := (length_nameLeft l.flip.resp_length hshort.le).trans
    (length_nameLeft l.resp_length hshort.le).symm
  exact nameLeft_flip_ne l hshort (List.append_inj hsame.2 hlen).1

/-- All runs of the switch that send a whole response send the same, whatever their variables
held. -/
def NoLeak (io : CallbackIo) (reqType : UInt8) (sv : Server) (sock : Source) (out : Sink) : Prop :=
  ∀ (l₁ l₂ : Locals) (b₁ b₂ : Bytes), Sends l₁ io reqType sv sock out b₁ →
    Sends l₂ io reqType sv sock out b₂ → b₁ = b₂

/-- **Leftovers reach every response.**  For every server, every type and every socket: the response
does not depend on what the variables held exactly when there is none. -/
theorem noLeak_iff (io : CallbackIo) (reqType : UInt8) (sv : Server) (sock : Source) (out : Sink) :
    NoLeak io reqType sv sock out ↔
      ∀ (l : Locals) (b : Bytes), ¬ Sends l io reqType sv sock out b := by
  constructor
  · intro h l b hb
    obtain ⟨b', hb', hne⟩ := hb.flip
    exact hne (h l.flip l b' b hb' hb)
  · intro h l₁ l₂ b₁ b₂ h₁ _
    exact absurd h₁ (h l₁ b₁)

/-- A request to put an object that has arrived in one piece is decoded as it is. -/
theorem readRequest_of_data (l : Locals) {b : UInt8} {bs : Bytes}
    (hlen : (b :: bs).length = RequestPutObject.size) (rest : List ReadEvent) (ended : Bool) :
    readRequest l RequestType.putObject.toUInt8
        { arrivals := .data b bs :: rest, ended := ended } =
      .ok (b :: bs, { arrivals := rest, ended := ended }) := by
  have hfill : fillBuffer l.reqObject [(0, b :: bs)] = b :: bs := by
    have hall : l.reqObject.drop (0 + (b :: bs).length) = [] := by
      rw [Nat.zero_add, hlen]
      exact List.drop_of_length_le (Nat.le_of_eq l.reqObject_length)
    rw [fillBuffer, List.foldl_cons, List.foldl_nil, Int.toNat_zero, hall, List.append_nil]
    rfl
  rw [readRequest, if_pos rfl, Utils.readN_of_data hlen (by decide), Outcome.ok_bind]
  dsimp only
  rw [hfill]

/-- Nothing is found in a store without sets. -/
theorem scanSets_of_size_eq_zero {sv : Server} (h : sv.st.sets.size = 0) (name : CharPtr) :
    scanSets sv name = .ok none := by
  have hnone := Loop.forInt_of_none (scanTurn sv name) (n := 0) (by omega) fun i hi => by omega
  rw [scanSets, h, hnone]
  rfl

/-- A request to put an object into a store without sets is answered. -/
theorem sends_of_size_eq_zero {l : Locals} {sv : Server} {sock src : Source} {out : Sink}
    {req : Bytes} (hsets : sv.st.sets.size = 0)
    (hreq : readRequest l RequestType.putObject.toUInt8 sock = .ok (req, src))
    (huid : (0 : UInt8) ∈ req.drop RequestPutObject.uid) (hname : (0 : UInt8) ∈ l.reqBucketset)
    (htakes : TakesResponse out) (io : CallbackIo) :
    ∃ b, Sends l io RequestType.putObject.toUInt8 sv sock out b := by
  obtain ⟨hs, t, ht⟩ := CString.eq_append_of_mem huid
  have hstrlen : ∃ len, CString.strlen (req.drop RequestPutObject.uid) = .ok len := by
    rw [ht, CString.strlen_append hs]
    exact ⟨_, rfl⟩
  obtain ⟨len, hlen⟩ := hstrlen
  obtain ⟨hash, hhash⟩ := Hash.gfsHashfn_isOk (CString.strlen_lt hlen).le
  have hselected : selectedBucket sv req = .ok none := by
    rw [selectedBucket, objectHash, hlen, Outcome.ok_bind, fieldPtr, hhash, Outcome.ok_bind,
      scanSets_of_size_eq_zero hsets, Outcome.ok_bind]
  have hans : answer l io RequestType.putObject.toUInt8 sv req src =
      .ok (sv, src, l.reqBucketset, some (-1)) := by
    rw [answer, if_pos rfl, handlePutObject_eq, hselected]
    rfl
  obtain ⟨hs', t', ht'⟩ := CString.eq_append_of_mem hname
  have hshort : (l.reqBucketset.takeWhile (· ≠ 0)).length < bucketBufferLength := by
    have htotal := congrArg List.length ht'
    rw [l.reqBucketset_length, List.length_append, List.length_cons] at htotal
    unfold RequestPutBucketset.size at htotal
    unfold bucketBufferLength
    omega
  have hmade := response_eq (t := t') RequestType.putObject.toUInt8 (some (-1)) l.resp_length hs'
    hshort
  rw [← ht'] at hmade
  exact ⟨_, sends_iff.2 ⟨req, src, _, hreq, hans, htakes, hmade⟩⟩

/-- Variables that are all zero. -/
def zeroLocals : Locals where
  resp := List.replicate ResponseAck.size 0
  reqBucketset := List.replicate RequestPutBucketset.size 0
  reqObject := List.replicate RequestPutObject.size 0
  bucketIndex := 0
  resp_length := List.length_replicate
  reqBucketset_length := List.length_replicate
  reqObject_length := List.length_replicate

/-- Calls that all succeed. -/
def zeroIo : CallbackIo where
  answers := []
  chance := fun _ => { openFails := false, fallocateFails := false }

/-- A socket on which a request to put an object into the set `s` has arrived. -/
def socketForS : Source := { arrivals := [.data 0 (objectForS.drop 1)], ended := true }

/-- A descriptor that takes a whole response. -/
def wholeSink : Sink := { answers := [.accept (ResponseAck.size - 1)], sent := [] }

theorem readRequest_socketForS (l : Locals) :
    readRequest l RequestType.putObject.toUInt8 socketForS =
      .ok (objectForS, { arrivals := [], ended := true }) := by
  have hcons : (0 : UInt8) :: objectForS.drop 1 = objectForS := rfl
  have hlen : objectForS.length = RequestPutObject.size := by
    rw [objectForS, List.length_append, List.length_replicate, List.length_cons,
      List.length_replicate]
    rfl
  have hwhole : ((0 : UInt8) :: objectForS.drop 1).length = RequestPutObject.size := by
    rw [hcons, hlen]
  have hread := readRequest_of_data l hwhole [] true
  rwa [hcons] at hread

/-- The request is answered by a new server. -/
theorem sends_socketForS :
    ∃ ss b, sdsStoreInit parseEmptyObject emptyObjectIo = .ok ss ∧
      Sends zeroLocals zeroIo RequestType.putObject.toUInt8 (Server.start Fs.empty ss) socketForS
        wholeSink b := by
  obtain ⟨ss, hss, -⟩ := sdsStoreInit_emptyObject
  have hsets : (Server.start Fs.empty ss).st.sets.size = 0 := (sdsStoreInit_ok hss).1
  have huid : (0 : UInt8) ∈ objectForS.drop RequestPutObject.uid := by
    rw [uid_objectForS]
    exact List.mem_cons_self
  have hname : (0 : UInt8) ∈ zeroLocals.reqBucketset := by
    rw [zeroLocals, List.mem_replicate]
    exact ⟨by decide, rfl⟩
  have htakes : TakesResponse wholeSink := ⟨_, [], rfl, by decide⟩
  obtain ⟨b, hb⟩ := sends_of_size_eq_zero hsets (readRequest_socketForS zeroLocals) huid hname
    htakes zeroIo
  exact ⟨ss, b, hss, hb⟩

/-- Two runs on one request, whose variables differ in one byte, send different responses. -/
theorem socketForS_leaks :
    ∃ ss b b', sdsStoreInit parseEmptyObject emptyObjectIo = .ok ss ∧
      Sends zeroLocals zeroIo RequestType.putObject.toUInt8 (Server.start Fs.empty ss) socketForS
        wholeSink b ∧
      Sends zeroLocals.flip zeroIo RequestType.putObject.toUInt8 (Server.start Fs.empty ss)
        socketForS wholeSink b' ∧ b' ≠ b ∧
      ¬ NoLeak zeroIo RequestType.putObject.toUInt8 (Server.start Fs.empty ss) socketForS
        wholeSink := by
  obtain ⟨ss, b, hss, hb⟩ := sends_socketForS
  obtain ⟨b', hb', hne⟩ := hb.flip
  exact ⟨ss, b, b', hss, hb, hb', hne, fun h => hne (h _ _ b' b hb' hb)⟩

/-! ### The truth -/

/-- The name field of a response. -/
def responseName (b : Bytes) : Bytes := (b.drop ResponseAck.name).take bucketBufferLength

/-- The status a response reports. -/
def responseRet (b : Bytes) : ℤ := CInt.toInt32 (leNat b ResponseAck.ret 4)

/-- The length of the data a request to put an object announces. -/
def objectLength (req : Bytes) : UInt64 := UInt64.ofNat (leNat req RequestPutObject.dataLength 8)

/-- The set that a request to put an object names exists. -/
def NamedExists (sv : Server) (req : Bytes) : Prop :=
  ∃ i, ShowsName sv (textOf (setNameField req)) i

/-- `bucket_put` is called for the object of the request, and returns 0. -/
def PutReturnsZero (l : Locals) (io : CallbackIo) (sv : Server) (sock : Source) : Prop :=
  ∃ req src found r, readRequest l RequestType.putObject.toUInt8 sock = .ok (req, src) ∧
    selectedBucket sv req = .ok (some found) ∧
    putFound sv (io.putIo src) l.bucketIndex req found = .ok r ∧ r.1 = 0

/-- The response tells the type of the request, the name of its set, and for an object whether it
was stored in the set it names. -/
structure Truthful (l : Locals) (io : CallbackIo) (reqType : UInt8) (sv : Server) (sock : Source)
    (b : Bytes) : Prop where
  type_eq : b.head? = some reqType
  object_name : reqType = RequestType.putObject.toUInt8 →
    textOf (responseName b) = textOf (setNameField (requestOf l reqType sock))
  bucketset_name : reqType = RequestType.putBucketset.toUInt8 →
    textOf (responseName b) = textOf (requestOf l reqType sock)
  stored : reqType = RequestType.putObject.toUInt8 →
    NamedExists sv (requestOf l reqType sock) → PutReturnsZero l io sv sock → responseRet b = 0
  not_stored : reqType = RequestType.putObject.toUInt8 →
    ¬ (NamedExists sv (requestOf l reqType sock) ∧ PutReturnsZero l io sv sock) →
    responseRet b = -1

/-- The leftovers happen to tell the truth.  For an object, those of the request for a set and of
the name behind it spell the name of the set; for a set, the name of the response is left over with
a terminator behind the name; and where the object of a request is put, the status is left over
with 0 exactly when the named set exists and the length of the object is accepted, and otherwise
with -1. -/
structure LeftoversTell (l : Locals) (reqType : UInt8) (sv : Server) (sock : Source) : Prop where
  object_name : reqType = RequestType.putObject.toUInt8 →
    textOf (nameLeft l.resp (textOf l.reqBucketset)) =
      textOf (setNameField (requestOf l reqType sock))
  bucketset_name : reqType = RequestType.putBucketset.toUInt8 →
    l.resp[ResponseAck.name + (textOf (requestOf l reqType sock)).length]? = some 0
  stored : reqType = RequestType.putObject.toUInt8 → ∀ a,
    scanSets sv (fieldPtr (requestOf l reqType sock) RequestPutObject.setName) = .ok (some a) →
    NamedExists sv (requestOf l reqType sock) → Accepted (objectLength (requestOf l reqType sock)) →
    responseRet l.resp = 0
  not_stored : reqType = RequestType.putObject.toUInt8 → ∀ a,
    scanSets sv (fieldPtr (requestOf l reqType sock) RequestPutObject.setName) = .ok (some a) →
    ¬ (NamedExists sv (requestOf l reqType sock) ∧
      Accepted (objectLength (requestOf l reqType sock))) → responseRet l.resp = -1

section

variable {l : Locals} {io : CallbackIo} {reqType : UInt8} {sv : Server} {sock : Source}
  {out : Sink} {b : Bytes}

theorem putFound_status {pio : PutIo} {bucketIndex : UInt64} {req : Bytes} {found : Option Addr}
    {r : ℤ × Bucket × Fs × Source} (h : putFound sv pio bucketIndex req found = .ok r) :
    r.1 = 0 ↔ Accepted (objectLength req) := by
  rw [putFound] at h
  simp only [Outcome.bind_eq_ok] at h
  obtain ⟨bt, -, nameLen, -, hput⟩ := h
  have hstatus := bucketPut_status hput
  exact hstatus

/-- For a request to put an object that is answered, the scan has come to an end; the object was
stored exactly when the scan selected a set and its length is accepted. -/
theorem Sends.putReturnsZero_iff (h : Sends l io RequestType.putObject.toUInt8 sv sock out b) :
    ∃ sets, scanSets sv (fieldPtr (requestOf l RequestType.putObject.toUInt8 sock)
        RequestPutObject.setName) = .ok sets ∧
      (PutReturnsZero l io sv sock ↔ sets.isSome ∧
        Accepted (objectLength (requestOf l RequestType.putObject.toUInt8 sock))) := by
  obtain ⟨req, src, ans, hreq, hans, -⟩ := sends_iff.1 h
  have hrequest : requestOf l RequestType.putObject.toUInt8 sock = req := by rw [requestOf, hreq]
  rw [hrequest]
  rw [answer, if_pos rfl, handlePutObject_eq] at hans
  simp only [Outcome.bind_eq_ok] at hans
  obtain ⟨put, ⟨selected, hselected, hput⟩, -⟩ := hans
  obtain ⟨sets, hscan, hsome⟩ := selectedBucket_ok hselected
  refine ⟨sets, hscan, ?_⟩
  rw [← hsome]
  constructor
  · rintro ⟨req', src', found, r, hreq', hselected', hfound, hzero⟩
    rw [hreq] at hreq'
    cases hreq'
    rw [hselected] at hselected'
    cases hselected'
    exact ⟨rfl, (putFound_status hfound).1 hzero⟩
  · rintro ⟨hbucket, hacc⟩
    rcases putSelected_ok hput with ⟨rfl, -⟩ | ⟨found, r, rfl, hfound, -⟩
    · cases hbucket
    · exact ⟨req, src, found, r, hreq, hselected, hfound, (putFound_status hfound).2 hacc⟩

/-- Behind a name, the response shows a terminator only when one was left there. -/
theorem textOf_nameLeft_eq_iff {resp s : Bytes} (hresp : resp.length = ResponseAck.size)
    (hs : CString.NoNul s) (hshort : s.length < bucketBufferLength) :
    textOf (nameLeft resp s) = s ↔ resp[ResponseAck.name + s.length]? = some 0 := by
  have hpos : 0 < bucketBufferLength - s.length := Nat.sub_pos_of_lt hshort
  have hne :
      (resp.drop (ResponseAck.name + s.length)).take (bucketBufferLength - s.length) ≠ [] := by
    rw [← List.length_pos_iff, List.length_take, List.length_drop, hresp]
    unfold ResponseAck.size ResponseAck.name
    unfold bucketBufferLength at hshort ⊢
    omega
  rw [nameLeft, textOf_append hs, List.append_right_eq_self, textOf_eq_nil_iff hne,
    List.head?_take, if_neg (by omega), List.head?_drop]

theorem responseRet_some (reqType : UInt8) {name : Bytes} (resp : Bytes)
    (hname : name.length = bucketBufferLength) (r : ℤ) :
    responseRet (reqType :: (name ++ retLeft resp (some r))) = CInt.toInt32 (CInt.toUInt32 r) := by
  have hdrop : (reqType :: (name ++ retLeft resp (some r))).drop ResponseAck.ret =
      leBytes 4 (CInt.toUInt32 r) := by
    have hret : ResponseAck.ret = bucketBufferLength + 1 := rfl
    rw [hret, List.drop_succ_cons, List.drop_left' hname, retLeft]
  have hlt : CInt.toUInt32 r < 256 ^ 4 := by
    unfold CInt.toUInt32
    omega
  have hread := leNat_leBytes hlt
  rw [leNat, List.drop_zero] at hread
  rw [responseRet, leNat, hdrop, hread]

theorem responseRet_none (reqType : UInt8) {name : Bytes} (resp : Bytes)
    (hname : name.length = bucketBufferLength) :
    responseRet (reqType :: (name ++ retLeft resp none)) = responseRet resp := by
  have hdrop : (reqType :: (name ++ retLeft resp none)).drop ResponseAck.ret =
      resp.drop ResponseAck.ret := by
    have hret : ResponseAck.ret = bucketBufferLength + 1 := rfl
    rw [retLeft, hret, List.drop_succ_cons, List.drop_left' hname]
  rw [responseRet, responseRet, leNat, leNat, hdrop]

/-- The name that a whole response shows. -/
theorem Sends.responseName_eq (h : Sends l io reqType sv sock out b) :
    responseName b = nameLeft l.resp (copiedName l reqType (requestOf l reqType sock)) := by
  obtain ⟨hshort, hb⟩ := h.made
  rw [hb, responseName, ResponseAck.name, List.drop_succ_cons, List.drop_zero,
    List.take_left' (length_nameLeft l.resp_length hshort.le)]

/-- The status that a whole response reports. -/
theorem Sends.responseRet_eq (h : Sends l io reqType sv sock out b) :
    responseRet b = match assignedRet sv reqType (requestOf l reqType sock) with
      | none => responseRet l.resp
      | some r => CInt.toInt32 (CInt.toUInt32 r) := by
  obtain ⟨hshort, hb⟩ := h.made
  have hname := length_nameLeft l.resp_length hshort.le
  rw [hb]
  cases assignedRet sv reqType (requestOf l reqType sock) with
  | none => exact responseRet_none reqType l.resp hname
  | some r => exact responseRet_some reqType l.resp hname r

theorem Sends.type_eq (h : Sends l io reqType sv sock out b) : b.head? = some reqType := by
  rw [h.made.2, List.head?_cons]

/-- For a request to put an object.  Where no set is found the status is assigned, and right;
elsewhere it is left over. -/
theorem Sends.truthful_object_iff (h : Sends l io RequestType.putObject.toUInt8 sv sock out b) :
    Truthful l io RequestType.putObject.toUInt8 sv sock b ↔
      LeftoversTell l RequestType.putObject.toUInt8 sv sock := by
  have hname := h.responseName_eq
  have hret := h.responseRet_eq
  have hne := RequestType.putObject_ne_putBucketset
  obtain ⟨sets, hscan, hstored⟩ := h.putReturnsZero_iff
  rw [copiedName, if_neg hne] at hname
  rw [assignedRet, if_pos rfl, hscan] at hret
  cases sets with
  | none =>
      have hval : CInt.toInt32 (CInt.toUInt32 (-1)) = -1 := by decide
      have hfail : responseRet b = -1 := hret.trans hval
      -- the scan found nothing, so the leftover status does not show
      have hnoset : ∀ a, scanSets sv (fieldPtr (requestOf l RequestType.putObject.toUInt8 sock)
          RequestPutObject.setName) ≠ .ok (some a) := by
        intro a ha
        rw [hscan] at ha
        cases ha
      have hnot : ¬ PutReturnsZero l io sv sock := fun hput => by cases (hstored.1 hput).1
      constructor
      · intro ht
        exact ⟨fun _ => hname ▸ ht.object_name rfl, fun h2 => absurd h2 hne,
          fun _ a ha => absurd ha (hnoset a), fun _ a ha => absurd ha (hnoset a)⟩
      · intro hl
        exact ⟨h.type_eq, fun _ => hname ▸ hl.object_name rfl, fun h2 => absurd h2 hne,
          fun _ _ hput => absurd hput hnot, fun _ _ => hfail⟩
  | some a =>
      have hleft : responseRet b = responseRet l.resp := hret
      have hput : PutReturnsZero l io sv sock ↔
          Accepted (objectLength (requestOf l RequestType.putObject.toUInt8 sock)) :=
        hstored.trans (and_iff_right rfl)
      constructor
      · intro ht
        refine ⟨fun _ => hname ▸ ht.object_name rfl, fun h2 => absurd h2 hne, ?_, ?_⟩
        · intro _ a' _ hexists hacc
          exact hleft ▸ ht.stored rfl hexists (hput.2 hacc)
        · intro _ a' _ hnot
          exact hleft ▸ ht.not_stored rfl fun hboth => hnot ⟨hboth.1, hput.1 hboth.2⟩
      · intro hl
        refine ⟨h.type_eq, fun _ => hname ▸ hl.object_name rfl, fun h2 => absurd h2 hne, ?_, ?_⟩
        · intro _ hexists hzero
          exact hleft ▸ hl.stored rfl a hscan hexists (hput.1 hzero)
        · intro _ hnot
          exact hleft ▸ hl.not_stored rfl a hscan
            fun hboth => hnot ⟨hboth.1, hput.2 hboth.2⟩

/-- For a request for a set, only what is behind the name is left over. -/
theorem Sends.truthful_bucketset_iff (hset : reqType = RequestType.putBucketset.toUInt8)
    (h : Sends l io reqType sv sock out b) :
    Truthful l io reqType sv sock b ↔ LeftoversTell l reqType sv sock := by
  have hobj : reqType ≠ RequestType.putObject.toUInt8 := by
    rw [hset]
    exact RequestType.putObject_ne_putBucketset.symm
  have hname := h.responseName_eq
  have hshort := h.made.1
  rw [copiedName, if_pos hset] at hname hshort
  have hiff := textOf_nameLeft_eq_iff l.resp_length (noNul_textOf (requestOf l reqType sock)) hshort
  rw [← hname] at hiff
  constructor
  · intro ht
    exact ⟨fun h0 => absurd h0 hobj, fun _ => hiff.1 (ht.bucketset_name hset),
      fun h0 => absurd h0 hobj, fun h0 => absurd h0 hobj⟩
  · intro hl
    exact ⟨h.type_eq, fun h0 => absurd h0 hobj, fun _ => hiff.2 (hl.bucketset_name hset),
      fun h0 => absurd h0 hobj, fun h0 => absurd h0 hobj⟩

/-- **The response is true exactly when the leftovers happen to be.**  Whatever the server and the
request: a response that is sent whole tells the type of the request, the name of its set, and for
an object whether it was stored in the set it names, exactly when the leftovers of the variables
tell the truth where they show. -/
theorem sends_truthful_iff (h : Sends l io reqType sv sock out b) :
    Truthful l io reqType sv sock b ↔ LeftoversTell l reqType sv sock := by
  by_cases hobj : reqType = RequestType.putObject.toUInt8
  · subst hobj
    exact h.truthful_object_iff
  by_cases hset : reqType = RequestType.putBucketset.toUInt8
  · exact h.truthful_bucketset_iff hset
  -- of any other request nothing but the type is claimed
  · exact iff_of_true
      ⟨h.type_eq, fun h0 => absurd h0 hobj, fun h2 => absurd h2 hset, fun h0 => absurd h0 hobj,
        fun h0 => absurd h0 hobj⟩
      ⟨fun h0 => absurd h0 hobj, fun h2 => absurd h2 hset, fun h0 => absurd h0 hobj,
        fun h0 => absurd h0 hobj⟩

end

/-- The result applied to the request to put an object into the set `s`. -/
theorem sends_truthful_iff_socketForS :
    ∃ ss b, sdsStoreInit parseEmptyObject emptyObjectIo = .ok ss ∧
      Sends zeroLocals zeroIo RequestType.putObject.toUInt8 (Server.start Fs.empty ss) socketForS
        wholeSink b ∧
      (Truthful zeroLocals zeroIo RequestType.putObject.toUInt8 (Server.start Fs.empty ss)
          socketForS b ↔
        LeftoversTell zeroLocals RequestType.putObject.toUInt8 (Server.start Fs.empty ss)
          socketForS) := by
  obtain ⟨ss, b, hss, hb⟩ := sends_socketForS
  exact ⟨ss, b, hss, hb, sends_truthful_iff hb⟩

/-- The response does not tell the name of the set. -/
theorem socketForS_not_truthful :
    ∃ ss b, sdsStoreInit parseEmptyObject emptyObjectIo = .ok ss ∧
      Sends zeroLocals zeroIo RequestType.putObject.toUInt8 (Server.start Fs.empty ss) socketForS
        wholeSink b ∧
      ¬ Truthful zeroLocals zeroIo RequestType.putObject.toUInt8 (Server.start Fs.empty ss)
        socketForS b := by
  obtain ⟨ss, b, hss, hb⟩ := sends_socketForS
  refine ⟨ss, b, hss, hb, ?_⟩
  intro ht
  have hname := ht.object_name rfl
  rw [hb.responseName_eq, requestOf, readRequest_socketForS] at hname
  dsimp only at hname
  have hleft : textOf (nameLeft zeroLocals.resp
      (copiedName zeroLocals RequestType.putObject.toUInt8 objectForS)) = [] := rfl
  have hright : textOf (setNameField objectForS) = [115] := by
    have hfield := CharPtr.mem.inj setName_objectForS
    rw [setNameField, hfield]
    rfl
  rw [hleft, hright] at hname
  cases hname

/-! ### What the callback acts on -/

/-- The callback acts exactly on what it received: the switch handles the byte that was received,
on the bytes that follow it; and where none was, everything is left as it is. -/
def ActsOnReceived (env : CallbackEnv) (sv : Server) (sock : Source) (out : Sink) : Prop :=
  ∀ (r : ℤ) (bytes : Bytes) (sock' : Source), sock.read false 1 = .ok (r, bytes, sock') →
    (∀ b, bytes = [b] → readCb env false sv sock out = readCbSwitch env b sv sock' out) ∧
      (bytes = [] → readCb env false sv sock out = .ok (sv, sock', out))

section

variable {env : CallbackEnv} {sv : Server} {sock sock' : Source} {out : Sink}

/-- A response that is sent, in whole or in part, uses up an answer of the descriptor. -/
theorem respond_answers {reqType : UInt8} {reqBucketset : Bytes} {ret : Option ℤ} {out' : Sink}
    (h : respond env reqType reqBucketset ret out = .ok out') :
    out'.answers.length < out.answers.length := by
  rw [respond_eq] at h
  simp only [Outcome.bind_eq_ok] at h
  obtain ⟨resp, -, ⟨wr, sink⟩, hwrite, h⟩ := h
  cases h
  obtain ⟨answers, sent⟩ := out
  cases answers with
  | nil => simp [Sink.write] at hwrite
  | cons ev rest =>
      cases ev with
      | accept | zero | intr | fail =>
          simp only [Sink.write, Bool.false_eq_true, if_false] at hwrite
          cases hwrite
          exact Nat.lt_succ_self _

theorem readCbSwitch_answers {reqType : UInt8} {r : Server × Source × Sink}
    (h : readCbSwitch env reqType sv sock out = .ok r) :
    r.2.2.answers.length < out.answers.length := by
  rw [readCbSwitch] at h
  split at h
  · simp only [Outcome.bind_eq_ok] at h
    obtain ⟨_, -, _, -, out', hrespond, h⟩ := h
    cases h
    exact respond_answers hrespond
  · split at h
    · simp only [Outcome.bind_eq_ok] at h
      obtain ⟨_, -, _, -, out', hrespond, h⟩ := h
      cases h
      exact respond_answers hrespond
    · simp only [Outcome.bind_eq_ok] at h
      obtain ⟨out', hrespond, h⟩ := h
      cases h
      exact respond_answers hrespond

/-- A call for one byte receives one, or nothing. -/
theorem read_one {r : ℤ} {bytes : Bytes} (h : sock.read false 1 = .ok (r, bytes, sock')) :
    (∃ b, bytes = [b] ∧ 0 < r) ∨ (bytes = [] ∧ ¬ 0 < r) := by
  cases Source.reads_of_read h with
  | @took b bs => exact Or.inl ⟨b, rfl, by simp⟩
  | stayed hle => exact Or.inr ⟨rfl, Int.not_lt.2 hle⟩
  | passed hle => exact Or.inr ⟨rfl, Int.not_lt.2 hle⟩

theorem readCb_of_received {r : ℤ} {bytes : Bytes} (hpos : 0 < r)
    (h : sock.read false 1 = .ok (r, bytes, sock')) :
    readCb env false sv sock out = .ok (sv, sock', out) := by
  rw [readCb, if_neg Bool.false_ne_true, h, Outcome.ok_bind, if_pos hpos]

/-- **Where nothing was received, a request to put an object is handled.** -/
theorem readCb_of_nothing {r : ℤ} {bytes : Bytes} (hpos : ¬ 0 < r)
    (h : sock.read false 1 = .ok (r, bytes, sock')) :
    readCb env false sv sock out =
      readCbSwitch env RequestType.putObject.toUInt8 sv sock' out := by
  rw [readCb, if_neg Bool.false_ne_true, h, Outcome.ok_bind, if_neg hpos]
  rfl

/-- **The callback never acts on the request it received.**  Whatever the store and the result of
`recv`: a byte that was received is not handled, and where none was a request is. -/
theorem readCb_never_actsOnReceived {res : ℤ × Bytes × Source}
    (h : sock.read false 1 = .ok res) : ¬ ActsOnReceived env sv sock out := by
  obtain ⟨r, bytes, sock'⟩ := res
  intro hacts
  obtain ⟨hbyte, hnothing⟩ := hacts r bytes sock' h
  rcases read_one h with ⟨b, hb, hpos⟩ | ⟨hb, hpos⟩
  · have hswitch := hbyte b hb
    rw [readCb_of_received hpos h] at hswitch
    exact absurd (readCbSwitch_answers hswitch.symm) (Nat.lt_irrefl _)
  · have hleft := hnothing hb
    rw [readCb_of_nothing hpos h] at hleft
    exact absurd (readCbSwitch_answers hleft) (Nat.lt_irrefl _)

end

/-- A socket whose peer has closed it. -/
def closedSocket : Source := { arrivals := [], ended := true }

/-- A socket on which the type of a request for a set has arrived. -/
def typeSocket : Source :=
  { arrivals := [.data RequestType.putBucketset.toUInt8 []], ended := true }

/-- The result applied to both. -/
theorem readCb_never_actsOnReceived_new :
    ∃ ss, sdsStoreInit parseEmptyObject emptyObjectIo = .ok ss ∧
      ¬ ActsOnReceived (zeroLocals.env zeroIo) (Server.start Fs.empty ss) typeSocket wholeSink ∧
      ¬ ActsOnReceived (zeroLocals.env zeroIo) (Server.start Fs.empty ss) closedSocket
        wholeSink := by
  obtain ⟨ss, hss, -⟩ := sdsStoreInit_emptyObject
  exact ⟨ss, hss, readCb_never_actsOnReceived rfl,
    readCb_never_actsOnReceived rfl⟩

/-- When the peer has closed the socket, a request to put an object is handled; a type that was
received is not. -/
theorem closedSocket_not_actsOnReceived :
    ∃ ss, sdsStoreInit parseEmptyObject emptyObjectIo = .ok ss ∧
      readCb (zeroLocals.env zeroIo) false (Server.start Fs.empty ss) closedSocket wholeSink =
        readCbSwitch (zeroLocals.env zeroIo) RequestType.putObject.toUInt8
          (Server.start Fs.empty ss) closedSocket wholeSink ∧
      readCb (zeroLocals.env zeroIo) false (Server.start Fs.empty ss) typeSocket wholeSink =
        .ok (Server.start Fs.empty ss, closedSocket, wholeSink) ∧
      ¬ ActsOnReceived (zeroLocals.env zeroIo) (Server.start Fs.empty ss) closedSocket
        wholeSink := by
  obtain ⟨ss, hss, -⟩ := sdsStoreInit_emptyObject
  have hclosed : closedSocket.read false 1 = .ok (0, [], closedSocket) := rfl
  have htype : typeSocket.read false 1 =
      .ok (1, [RequestType.putBucketset.toUInt8], closedSocket) := rfl
  have hphantom : readCb (zeroLocals.env zeroIo) false (Server.start Fs.empty ss) closedSocket
      wholeSink = readCbSwitch (zeroLocals.env zeroIo) RequestType.putObject.toUInt8
        (Server.start Fs.empty ss) closedSocket wholeSink :=
    readCb_of_nothing (by decide) hclosed
  refine ⟨ss, hss, hphantom, readCb_of_received (by decide) htype, ?_⟩
  intro hacts
  have hleft := (hacts 0 [] closedSocket hclosed).2 rfl
  rw [hphantom] at hleft
  exact absurd (readCbSwitch_answers hleft) (Nat.lt_irrefl _)
