/-
**The handshake of `REQ_PUT_BUCKETSET`.**

The client hands over the type of the request and then, where it should hand over the request, reads
one: `request_put_bucketset_init` calls `read_n` on the socket with the buffer it has just filled.
The server takes the type and reads the request.  Both wait, and nothing is under way.

The two functions are given by their turns, which are those of `read_n` and `write_n`; the type byte
is taken as received and dispatched, as the comparison in `read_cb` means it to be.

Main definitions:

* `ClientPhase`, `clientTurn` — where `request_put_bucketset_init` stands, and its next call;
* `ServerPhase`, `serverTurn` — the same for `read_cb`;
* `Handshake.Reachable`, `Handshake.Stuck` — the states of a run, and those where both wait for
  bytes and none are under way;
* `Handshake.Safe` — what is expected of every run;
* `Handshake.Stage` — the states the runs really go through.

Main results:

* `Handshake.reachable_iff` — **every run goes through the stages, and through nothing else**;
* `Handshake.never_safe` — every run can be continued to a state where both wait for ever.
-/

import SdsStorage.Link
import SdsStorage.NetSocket

set_option relaxedAutoImplicit false
set_option autoImplicit false

/-! ### The client -/

/-- Where `request_put_bucketset_init` stands: in `write_n` for the type, in `read_n` for the
request or for the response, with the counter and the stores made so far, or at its end. -/
inductive ClientPhase where
  | writeType (writen : ℤ)
  | readReq (req : Bytes) (readn : ℤ) (stores : List (ℤ × Bytes))
  | readAck (readn : ℤ) (stores : List (ℤ × Bytes))
  | returned (status : ℤ)

/-- The request the client fills in. -/
def clientRequest (set : SetName) : Outcome Bytes :=
  CString.strncpy (List.replicate RequestPutBucketset.size 0) RequestPutBucketset.setName
    (.mem (CString.cstr set.name)) set.name.length

/-- The next call of the client, and what it hands over; a call to `write` is accepted for at most
`k + 1` bytes.  There is none while it waits, and after its end. -/
def clientTurn (set : SetName) (k : ℕ) :
    ClientPhase → Source → Option (ClientPhase × Source × Bytes)
  | .writeType writen, inbox =>
      match Utils.writeNTurn false (memOf [RequestType.putBucketset.toUInt8] fun _ => 0) 1
        { writen := writen, sink := { answers := [.accept k], sent := [] } } with
      | .again s => some (.writeType s.writen, inbox, s.sink.sent)
      | .done (some _, _) => none
      | .done (none, s) =>
          (clientRequest set).toOption.map fun req => (.readReq req 0 [], inbox, s.sink.sent)
  | .readReq req readn stores, inbox =>
      -- the request is read where it should be written
      match Utils.readNTurn false RequestPutBucketset.size
        { readn := readn, stores := stores, src := inbox } with
      | .again s => some (.readReq req s.readn s.stores, s.src, [])
      | .done (.error _) => none
      | .done (.ok s) =>
          if CInt.toUInt64 s.readn ≠ RequestPutBucketset.size then some (.returned (-1), s.src, [])
          else some (.readAck 0 [], s.src, [])
  | .readAck readn stores, inbox =>
      match Utils.readNTurn false ResponseAck.size
        { readn := readn, stores := stores, src := inbox } with
      | .again s => some (.readAck s.readn s.stores, s.src, [])
      | .done (.error _) => none
      | .done (.ok s) => some (.returned 0, s.src, [])
  | .returned _, _ => none

/-! ### The server -/

/-- Where `read_cb` stands: in `recv` for the type, in `read_n` for the request, before or after the
response to the request it has decoded, in another case of the switch, or after a fault. -/
inductive ServerPhase where
  | recvType
  | readReq (readn : ℤ) (stores : List (ℤ × Bytes))
  | respond (req : Bytes)
  | stopped (req : Bytes) (sv : Server)
  | otherCase
  | faulted (f : Fault)

/-- The next call of the server, and what it hands over. -/
def serverTurn (env : CallbackEnv) (sv : Server) (k : ℕ) :
    ServerPhase → Source → Option (ServerPhase × Source × Bytes)
  | .recvType, inbox =>
      match inbox.read false 1 with
      | .error _ => none
      | .ok (_, bytes, src) =>
          if bytes = [RequestType.putBucketset.toUInt8] then some (.readReq 0 [], src, [])
          else some (.otherCase, src, [])
  | .readReq readn stores, inbox =>
      match Utils.readNTurn false RequestPutBucketset.size
        { readn := readn, stores := stores, src := inbox } with
      | .again s => some (.readReq s.readn s.stores, s.src, [])
      | .done (.error _) => none
      | .done (.ok s) => some (.respond (fillBuffer env.reqBucketset s.stores), s.src, [])
  | .respond req, inbox =>
      match handlePutBucketset env.chance sv (fieldPtr req RequestPutBucketset.setName) with
      | .error f => some (.faulted f, inbox, [])
      | .ok sv' =>
          match respond env RequestType.putBucketset.toUInt8 req (some 0)
            { answers := [.accept k], sent := [] } with
          | .error f => some (.faulted f, inbox, [])
          | .ok out => some (.stopped req sv', inbox, out.sent)
  | .stopped _ _, _ => none
  | .otherCase, _ => none
  | .faulted _, _ => none

namespace Handshake

/-! ### The two together -/

/-- Segments arrive at a descriptor. -/
def socket : Link.Inbox Source UInt8 where
  put src b bs := { src with arrivals := src.arrivals ++ [.data b bs] }
  finish src := { src with ended := true }

/-- The client closes its socket when it returns. -/
def client (set : SetName) : Link.Party Source UInt8 ClientPhase where
  Step s i s' i' bs := ∃ k, clientTurn set k s i = some (s', i', bs)
  Closed s := ∃ status, s = .returned status

/-- The server leaves the socket open. -/
def server (env : CallbackEnv) (sv : Server) : Link.Party Source UInt8 ServerPhase where
  Step s i s' i' bs := ∃ k, serverTurn env sv k s i = some (s', i', bs)
  Closed _ := False

/-- The client and the server with their channels. -/
abbrev State := Link.System Source UInt8 ClientPhase ServerPhase

/-- Nothing has arrived. -/
def nothing : Source := { arrivals := [], ended := false }

/-- The client is about to hand over the type, and the server to receive it. -/
def start : State where
  left := { state := .writeType 0, inbox := nothing, out := [] }
  right := { state := .recvType, inbox := nothing, out := [] }

section

variable (env : CallbackEnv) (sv : Server) (set : SetName)

/-- A run leads from the first state to the second. -/
def Reaches (s t : State) : Prop := Link.Reaches socket (client set) (server env sv) s t

def Reachable (s : State) : Prop := Reaches env sv set start s

end

/-- The client is in a call to `read`. -/
def ClientReads : ClientPhase → Prop
  | .readReq _ _ _ | .readAck _ _ => True
  | _ => False

/-- The server is in a call to `read` or `recv`. -/
def ServerReads : ServerPhase → Prop
  | .recvType | .readReq _ _ => True
  | _ => False

/-- Both wait for bytes, and none are under way. -/
structure Stuck (env : CallbackEnv) (sv : Server) (set : SetName) (s : State) : Prop where
  clientReads : ClientReads s.left.state
  clientWaits : ∀ k, clientTurn set k s.left.state s.left.inbox = none
  serverReads : ServerReads s.right.state
  serverWaits : ∀ k, serverTurn env sv k s.right.state s.right.inbox = none
  toServer : s.left.out = [] ∧ s.right.inbox.bytes = []
  toClient : s.right.out = [] ∧ s.left.inbox.bytes = []

/-- The server has decoded this name. -/
def Decodes (req name : Bytes) : Prop :=
  ∃ v, req.drop RequestPutBucketset.setName = name ++ 0 :: v

/-- What is expected of every run: it never gets stuck, and the server has decoded the name of the
client once it has handed over its response. -/
structure Safe (env : CallbackEnv) (sv : Server) (set : SetName) : Prop where
  not_stuck : ∀ s, Reachable env sv set s → ¬ Stuck env sv set s
  decodes : ∀ s req sv', Reachable env sv set s → s.right.state = .stopped req sv' →
    Decodes req set.name

/-! ### The stages of a run -/

/-- How far the client is after it has handed over the type: about to leave `write_n`, or in
`read_n`. -/
inductive ClientStage where
  | written
  | waits

/-- How far the type is. -/
inductive TypeStage where
  | underWay
  | arrived
  | taken

/-- How far a run is. -/
inductive Stage where
  | start
  | sent (c : ClientStage) (t : TypeStage)

/-- The type that has arrived. -/
def typeArrived : Source :=
  { arrivals := [.data RequestType.putBucketset.toUInt8 []], ended := false }

def ClientStage.phase (req : Bytes) : ClientStage → ClientPhase
  | written => .writeType 1
  | waits => .readReq req 0 []

def TypeStage.out : TypeStage → Bytes
  | underWay => [RequestType.putBucketset.toUInt8]
  | arrived | taken => []

def TypeStage.server : TypeStage → Link.Side Source UInt8 ServerPhase
  | underWay => { state := .recvType, inbox := nothing, out := [] }
  | arrived => { state := .recvType, inbox := typeArrived, out := [] }
  | taken => { state := .readReq 0 [], inbox := nothing, out := [] }

/-- The state at a stage; `req` is the request the client has filled in. -/
def Stage.state (req : Bytes) : Stage → State
  | .start => Handshake.start
  | .sent c t =>
      { left := { state := c.phase req, inbox := nothing, out := t.out }, right := t.server }

section

variable {env : CallbackEnv} {sv : Server} {set : SetName}

theorem clientRequest_isOk (set : SetName) : ∃ req, clientRequest set = .ok req := by
  have hfit : RequestPutBucketset.setName + set.name.length ≤
      (List.replicate RequestPutBucketset.size (0 : UInt8)).length := by
    have hshort := set.short
    rw [List.length_replicate]
    rw [bucketBufferLength] at hshort
    rw [RequestPutBucketset.setName, RequestPutBucketset.size]
    omega
  exact ⟨_, CString.strncpy_strlen set.noNul [0] _ _ hfit⟩

/-! The client's calls. -/

theorem clientTurn_start (k : ℕ) (inbox : Source) :
    clientTurn set k (.writeType 0) inbox =
      some (.writeType 1, inbox, [RequestType.putBucketset.toUInt8]) := by
  have hmin : min (k + 1) 1 = 1 := by omega
  have hturn : Utils.writeNTurn false (memOf [RequestType.putBucketset.toUInt8] fun _ => 0) 1
      { writen := 0, sink := { answers := [.accept k], sent := [] } } =
      .again { writen := 1, sink := { answers := [],
                                      sent := [RequestType.putBucketset.toUInt8] } } := by
    have hlt : CInt.toUInt64 0 < 1 := by decide
    have hlen : CInt.toUInt64 ((1 : ℕ) - 0) = 1 := by decide
    simp only [Utils.writeNTurn, if_pos hlt, Sink.write, Bool.false_eq_true, if_false, hlen, hmin]
    rfl
  simp only [clientTurn, hturn]

theorem clientTurn_written {req : Bytes} (hreq : clientRequest set = .ok req) (k : ℕ)
    (inbox : Source) :
    clientTurn set k (.writeType 1) inbox = some (.readReq req 0 [], inbox, []) := by
  have hturn : Utils.writeNTurn false (memOf [RequestType.putBucketset.toUInt8] fun _ => 0) 1
      { writen := 1, sink := { answers := [.accept k], sent := [] } } =
      .done (none, { writen := 1, sink := { answers := [.accept k], sent := [] } }) := by
    have hnot : ¬ CInt.toUInt64 1 < 1 := by decide
    simp only [Utils.writeNTurn, if_neg hnot]
  simp only [clientTurn, hturn, hreq]
  rfl

/-- A call to `read` for a part of the request waits when nothing has arrived. -/
theorem readNTurn_nothing : Utils.readNTurn false RequestPutBucketset.size
    { readn := 0, stores := [], src := nothing } = .done (.error .blocked) := by
  have hlt : CInt.toUInt64 0 < RequestPutBucketset.size := by decide
  simp only [Utils.readNTurn, if_pos hlt, nothing, Source.read, Bool.false_eq_true, if_false]

theorem clientTurn_waits (k : ℕ) (req : Bytes) :
    clientTurn set k (.readReq req 0 []) nothing = none := by
  simp only [clientTurn, readNTurn_nothing]

/-! The server's calls. -/

theorem serverTurn_nothing (k : ℕ) : serverTurn env sv k .recvType nothing = none := rfl

theorem serverTurn_arrived (k : ℕ) :
    serverTurn env sv k .recvType typeArrived = some (.readReq 0 [], nothing, []) := rfl

theorem serverTurn_taken (k : ℕ) : serverTurn env sv k (.readReq 0 []) nothing = none := by
  simp only [serverTurn, readNTurn_nothing]

/-! ### Every run goes through the stages -/

/-- A step of the client from a stage leads to the next one. -/
theorem client_stage {req : Bytes} (hreq : clientRequest set = .ok req) {c : ClientStage}
    {s : ClientPhase} {i : Source} {bs : Bytes}
    (h : (client set).Step (c.phase req) nothing s i bs) :
    s = ClientStage.waits.phase req ∧ i = nothing ∧ bs = [] := by
  obtain ⟨k, hk⟩ := h
  cases c with
  | written =>
      rw [ClientStage.phase, clientTurn_written hreq] at hk
      cases hk
      exact ⟨rfl, rfl, rfl⟩
  | waits =>
      rw [ClientStage.phase, clientTurn_waits] at hk
      cases hk

/-- A step of the server takes the type once it has arrived. -/
theorem server_stage {t : TypeStage} {s : ServerPhase} {i : Source} {bs : Bytes}
    (h : (server env sv).Step t.server.state t.server.inbox s i bs) :
    t = .arrived ∧ s = TypeStage.taken.server.state ∧ i = nothing ∧ bs = [] := by
  obtain ⟨k, hk⟩ := h
  cases t with
  | underWay =>
      rw [TypeStage.server, serverTurn_nothing] at hk
      cases hk
  | arrived =>
      rw [TypeStage.server, serverTurn_arrived] at hk
      cases hk
      exact ⟨rfl, rfl, rfl, rfl⟩
  | taken =>
      rw [TypeStage.server, serverTurn_taken] at hk
      cases hk

/-- From the start only the client can take a step. -/
theorem step_start {s : State}
    (h : Link.Step socket (client set) (server env sv) start s) (req : Bytes) :
    s = (Stage.sent .written .underWay).state req := by
  rw [start] at h
  cases h with
  | left hc =>
      obtain ⟨k, hk⟩ := hc
      rw [clientTurn_start] at hk
      cases hk
      rfl
  | right hs =>
      obtain ⟨k, hk⟩ := hs
      rw [serverTurn_nothing] at hk
      cases hk
  | toRight b bs rest hout => cases hout
  | toLeft b bs rest hout => cases hout
  | leftClosed hclosed _ =>
      obtain ⟨status, hstatus⟩ := hclosed
      cases hstatus
  | rightClosed hclosed _ => exact hclosed.elim

/-- After the type was handed over, the client, the channel or the server takes a step, and leaves
the others as they are. -/
theorem step_sent {req : Bytes} (hreq : clientRequest set = .ok req) {c : ClientStage}
    {t : TypeStage} {s : State}
    (h : Link.Step socket (client set) (server env sv) ((Stage.sent c t).state req) s) :
    ∃ c' t', s = (Stage.sent c' t').state req := by
  rw [Stage.state] at h
  cases h with
  | left hc =>
      obtain ⟨rfl, rfl, rfl⟩ := client_stage hreq hc
      exact ⟨.waits, t, by simp only [Stage.state, List.append_nil]⟩
  | right hs =>
      obtain ⟨rfl, rfl, rfl, rfl⟩ := server_stage hs
      exact ⟨c, .taken, rfl⟩
  | toRight b bs rest hout =>
      -- only the type is under way, so the segment is the type
      cases t with
      | underWay =>
          simp only [TypeStage.out, List.cons_append, List.cons.injEq,
            List.nil_eq_append_iff] at hout
          obtain ⟨rfl, rfl, rfl⟩ := hout
          exact ⟨c, .arrived, rfl⟩
      | arrived => cases hout
      | taken => cases hout
  | toLeft b bs rest hout => cases t <;> cases hout
  | leftClosed hclosed _ =>
      obtain ⟨status, hstatus⟩ := hclosed
      cases c <;> cases hstatus
  | rightClosed hclosed _ => exact hclosed.elim

/-! The steps from one stage to the next. -/

theorem start_to_sent (env : CallbackEnv) (sv : Server) (set : SetName) (req : Bytes) :
    Link.Step socket (client set) (server env sv) (Stage.start.state req)
      ((Stage.sent .written .underWay).state req) :=
  .left ⟨0, clientTurn_start 0 nothing⟩

theorem written_to_waits (env : CallbackEnv) (sv : Server) {req : Bytes}
    (hreq : clientRequest set = .ok req) (t : TypeStage) :
    Link.Step socket (client set) (server env sv) ((Stage.sent .written t).state req)
      ((Stage.sent .waits t).state req) := by
  have hstep : Link.Step socket (client set) (server env sv) _ _ :=
    .left (l := { state := .writeType 1, inbox := nothing, out := t.out }) (r := t.server)
      ⟨0, clientTurn_written hreq 0 nothing⟩
  rw [List.append_nil] at hstep
  exact hstep

theorem underWay_to_arrived (env : CallbackEnv) (sv : Server) (set : SetName) (req : Bytes)
    (c : ClientStage) :
    Link.Step socket (client set) (server env sv) ((Stage.sent c .underWay).state req)
      ((Stage.sent c .arrived).state req) :=
  .toRight _ [] [] rfl

theorem arrived_to_taken (env : CallbackEnv) (sv : Server) (set : SetName) (req : Bytes)
    (c : ClientStage) :
    Link.Step socket (client set) (server env sv) ((Stage.sent c .arrived).state req)
      ((Stage.sent c .taken).state req) :=
  .right ⟨0, serverTurn_arrived 0⟩

/-- Every stage is reached. -/
theorem reaches_stage {req : Bytes} (hreq : clientRequest set = .ok req) (st : Stage) :
    Reaches env sv set (Stage.start.state req) (st.state req) := by
  cases st with
  | start => exact Link.Reaches.refl _
  | sent c t =>
      have hwritten : Reaches env sv set (Stage.start.state req)
          ((Stage.sent .written t).state req) := by
        have hsent := (Link.Reaches.refl _).tail (start_to_sent env sv set req)
        cases t with
        | underWay => exact hsent
        | arrived => exact hsent.tail (underWay_to_arrived env sv set req .written)
        | taken =>
            exact (hsent.tail (underWay_to_arrived env sv set req .written)).tail
              (arrived_to_taken env sv set req .written)
      cases c with
      | written => exact hwritten
      | waits => exact hwritten.tail (written_to_waits env sv hreq t)

/-- Every stage leads to the last one. -/
theorem stage_reaches_last {req : Bytes} (hreq : clientRequest set = .ok req) (st : Stage) :
    Reaches env sv set (st.state req) ((Stage.sent .waits .taken).state req) := by
  have hsent : ∀ t : TypeStage, Reaches env sv set ((Stage.sent .waits t).state req)
      ((Stage.sent .waits .taken).state req) := by
    intro t
    have hstart : Reaches env sv set ((Stage.sent .waits t).state req)
        ((Stage.sent .waits t).state req) := Link.Reaches.refl _
    cases t with
    | underWay =>
        exact (hstart.tail (underWay_to_arrived env sv set req .waits)).tail
          (arrived_to_taken env sv set req .waits)
    | arrived => exact hstart.tail (arrived_to_taken env sv set req .waits)
    | taken => exact hstart
  have hwritten : ∀ t : TypeStage, Reaches env sv set ((Stage.sent .written t).state req)
      ((Stage.sent .waits .taken).state req) := by
    intro t
    exact Link.Reaches.head (written_to_waits env sv hreq t) (hsent t)
  cases st with
  | start => exact Link.Reaches.head (start_to_sent env sv set req) (hwritten .underWay)
  | sent c t =>
      cases c with
      | written => exact hwritten t
      | waits => exact hsent t

/-- **Every run goes through the stages, and through nothing else.** -/
theorem reachable_iff {req : Bytes} (hreq : clientRequest set = .ok req) {s : State} :
    Reachable env sv set s ↔ ∃ st : Stage, s = st.state req := by
  refine Link.reaches_iff_of_stages (f := fun st : Stage => st.state req) .start ?_
    (reaches_stage hreq)
  intro st s h
  cases st with
  | start => exact ⟨_, step_start h req⟩
  | sent c t =>
      obtain ⟨c', t', hs⟩ := step_sent hreq h
      exact ⟨_, hs⟩

/-! ### Where every run ends -/

/-- In the last stage both wait, and nothing is under way. -/
theorem stuck_last (env : CallbackEnv) (sv : Server) (set : SetName) (req : Bytes) :
    Stuck env sv set ((Stage.sent .waits .taken).state req) where
  clientReads := trivial
  clientWaits k := clientTurn_waits k req
  serverReads := trivial
  serverWaits k := serverTurn_taken k
  toServer := ⟨rfl, rfl⟩
  toClient := ⟨rfl, rfl⟩

/-- In no stage has the client returned, or the server handed over its response. -/
theorem stage_unfinished (req : Bytes) (st : Stage) :
    (∀ status, (st.state req).left.state ≠ .returned status) ∧
      ∀ req' sv', (st.state req).right.state ≠ .stopped req' sv' := by
  cases st with
  | start => exact ⟨fun _ => ClientPhase.noConfusion, fun _ _ => ServerPhase.noConfusion⟩
  | sent c t =>
      constructor
      · intro status hstatus
        cases c <;> cases hstatus
      · intro req' sv' hstopped
        cases t <;> cases hstopped

end

/-- **The handshake never succeeds.**  For every name and every server, runs are not safe: no run
comes to its end, and every run can be continued to a state where the client and the server both
wait for bytes while none are under way. -/
theorem never_safe (env : CallbackEnv) (sv : Server) (set : SetName) :
    ¬ Safe env sv set ∧
      ∀ s, Reachable env sv set s →
        ((∀ status, s.left.state ≠ .returned status) ∧
          ∀ req sv', s.right.state ≠ .stopped req sv') ∧
        ∃ t, Reaches env sv set s t ∧ Stuck env sv set t := by
  obtain ⟨req, hreq⟩ := clientRequest_isOk set
  have hstuck := stuck_last env sv set req
  constructor
  · intro hsafe
    exact hsafe.not_stuck _ (reaches_stage hreq _) hstuck
  · intro s hs
    obtain ⟨st, rfl⟩ := (reachable_iff hreq).1 hs
    exact ⟨stage_unfinished req st, _, stage_reaches_last hreq st, hstuck⟩

/-- The surroundings of a callback whose variables are zero. -/
def zeroEnv : CallbackEnv where
  reqBucketset := List.replicate RequestPutBucketset.size 0
  reqObject := List.replicate RequestPutObject.size 0
  bucketIndex := 0
  resp := List.replicate ResponseAck.size 0
  answers := []
  chance := fun _ => { openFails := false, fallocateFails := false }

/-- A request for the set `s` gets stuck. -/
theorem setS_not_safe :
    ∃ ss, sdsStoreInit parseEmptyObject emptyObjectIo = .ok ss ∧
      ¬ Safe zeroEnv (Server.start Fs.empty ss) setS := by
  obtain ⟨ss, hss, -⟩ := sdsStoreInit_emptyObject
  refine ⟨ss, hss, ?_⟩
  intro hsafe
  obtain ⟨req, hreq⟩ := clientRequest_isOk setS
  exact hsafe.not_stuck _ (reaches_stage hreq _) (stuck_last zeroEnv _ setS req)

end Handshake
