/-
**Calls of `read_cb` on many connections.**

The event loop calls `read_cb` whenever something has arrived on a connection, in whatever order
the clients send.  What a call does is decided by whether it receives a byte, never by which byte
it is: the store and the responses come out the same whatever the clients sent and in whichever
segments it arrived, as long as each sent as much.  Every call allocates a buffer of 4 MiB for
itself and returns without freeing it.

Main definitions:

* `Calls`, `ReadCall`, `callStep` — the connections with the server, and one call on one of them;
* `Source.Plain` — a connection on which no call fails;
* `Waiting`, `Shown`, `shownStep` — what a call can tell about a connection, and a call that has
  nothing else to go by;
* `Calls.effects` — the server, and what was sent on each connection.

Main results:

* `shown_calls` — **a run of calls is a run of calls that only count**;
* `calls_blind` — **the bytes the clients send make no difference**;
* `calls_beforeClose` — **nothing is handled before a client closes its connection**.
-/

import SdsStorage.Response

set_option relaxedAutoImplicit false
set_option autoImplicit false

/-! ### Calls -/

/-- The connections of a server: what arrives on each, what is sent on it, and how many of the
buffers that the calls allocate are held. -/
structure Calls (κ : Type) where
  sv : Server
  conns : κ → Source
  outs : κ → Sink
  buffers : ℕ

/-- A call of `read_cb`: the connection, whether it is made for an error, and what its variables
hold. -/
structure ReadCall (κ : Type) where
  conn : κ
  evError : Bool
  env : CallbackEnv

section

variable {κ : Type} [DecidableEq κ]

/-- One call, where the memory has room for `limit` buffers. -/
def callStep (limit : ℕ) (s : Calls κ) (call : ReadCall κ) : Outcome (Calls κ) :=
  -- the buffer is allocated first, and freed on no path
  if s.buffers < limit then do
    let r ← readCb call.env call.evError s.sv (s.conns call.conn) (s.outs call.conn)
    .ok { sv := r.1, conns := Function.update s.conns call.conn r.2.1,
          outs := Function.update s.outs call.conn r.2.2, buffers := s.buffers + 1 }
  else .error .abort

/-! ### What a call can tell -/

/-- No call on the connection fails: there is data, and perhaps an end behind it. -/
def Source.Plain (src : Source) : Prop := ∀ ev ∈ src.arrivals, ∃ b bs, ev = .data b bs

/-- A connection that was closed, and has nothing left. -/
def Source.drained : Source := { arrivals := [], ended := true }

/-- What a call can tell about a connection: how many bytes are to come, and whether the client
closes it behind them. -/
structure Waiting where
  left : ℕ
  closes : Bool

/-- The connections, as far as that. -/
structure Shown (κ : Type) where
  sv : Server
  conns : κ → Waiting
  outs : κ → Sink
  buffers : ℕ

/-- What a connection shows. -/
def Source.waiting (src : Source) : Waiting := { left := src.bytes.length, closes := src.ended }

/-- What all connections show. -/
def Calls.shown (s : Calls κ) : Shown κ :=
  { sv := s.sv, conns := fun k => (s.conns k).waiting, outs := s.outs, buffers := s.buffers }

/-- A call that has nothing else to go by: it counts a byte, or handles a request to put an object
that is made of nothing. -/
def shownRead (env : CallbackEnv) (sv : Server) (out : Sink) :
    Waiting → Outcome (Server × Waiting × Sink)
  | { left := n + 1, closes := closes } => .ok (sv, { left := n, closes := closes }, out)
  | { left := 0, closes := true } => do
      let r ← readCbSwitch env RequestType.putObject.toUInt8 sv Source.drained out
      .ok (r.1, { left := 0, closes := true }, r.2.2)
  | { left := 0, closes := false } => .error .blocked

/-- One call, of which the connections show that much only. -/
def shownStep (limit : ℕ) (s : Shown κ) (call : ReadCall κ) : Outcome (Shown κ) :=
  if s.buffers < limit then do
    let r ← if call.evError then
        .ok (s.sv, s.conns call.conn, s.outs call.conn)
      else shownRead call.env s.sv (s.outs call.conn) (s.conns call.conn)
    .ok { sv := r.1, conns := Function.update s.conns call.conn r.2.1,
          outs := Function.update s.outs call.conn r.2.2, buffers := s.buffers + 1 }
  else .error .abort

/-! ### A drained connection -/

/-- Nothing is read from a drained connection. -/
theorem readN_drained (null : Bool) (len : ℕ) :
    Utils.readN Source.drained null len =
      .ok { readn := 0, stores := [], src := Source.drained } := by
  have hturn : Utils.readNTurn null len { readn := 0, stores := [], src := Source.drained } =
      .done (.ok { readn := 0, stores := [], src := Source.drained }) := by
    rw [Utils.readNTurn]
    split
    · simp [Source.drained, Source.read]
    · rfl
  rw [Utils.readN, Loop.run_done hturn, Option.getD_some]

/-- The copy of an object leaves a drained connection as it is. -/
theorem writeBucketObject_drained (file : Sink) (dataLen : UInt64) :
    ∃ ret, writeBucketObject Source.drained file dataLen = .ok (ret, Source.drained, file) := by
  by_cases hacc : Accepted dataLen
  · have hread := readN_drained true (CInt.toUInt64 (CInt.toInt64 dataLen.toNat))
    have hturn := copyTurn_of_nothing
      (s := { readLen := 0, sock := Source.drained, file := file }) hacc hread rfl
    exact ⟨0, by rw [writeBucketObject_of_done hturn, Except.bind]⟩
  · exact ⟨-1, writeBucketObject_refused _ _ hacc⟩

theorem bucketPut_drained {fs : Fs} {io : PutIo} {bt : Bucket} {obj : BucketObject}
    {r : ℤ × Bucket × Fs × Source} (hio : io.sock = Source.drained)
    (h : bucketPut fs io bt obj = .ok r) : r.2.2.2 = Source.drained := by
  rw [bucketPut, Outcome.bind_eq_ok] at h
  obtain ⟨checked, -, h⟩ := h
  split at h
  · cases h
  · obtain ⟨ret, hwrite⟩ :=
      writeBucketObject_drained { answers := io.answers, sent := [] } obj.dataLen
    simp only [hio, hwrite, Outcome.ok_bind, Outcome.bind_eq_ok] at h
    obtain ⟨listed, -, h⟩ := h
    split at h
    · cases h
      rfl
    · rw [Outcome.bind_eq_ok] at h
      obtain ⟨bt', -, h⟩ := h
      cases h
      rfl

/-- A request that is made of nothing leaves a drained connection as it is. -/
theorem readCbSwitch_drained {env : CallbackEnv} {sv : Server} {out : Sink}
    {r : Server × Source × Sink}
    (h : readCbSwitch env RequestType.putObject.toUInt8 sv Source.drained out = .ok r) :
    r.2.1 = Source.drained := by
  rw [readCbSwitch, if_pos rfl] at h
  simp only [readN_drained, Outcome.ok_bind, Outcome.bind_eq_ok] at h
  obtain ⟨put, hput, out', -, h⟩ := h
  cases h
  rw [handlePutObject] at hput
  simp only [Outcome.bind_eq_ok] at hput
  obtain ⟨len, -, hash, -, sets, -, hput⟩ := hput
  cases sets with
  | none =>
      cases hput
      rfl
  | some a =>
      simp only [Outcome.bind_eq_ok] at hput
      obtain ⟨bst, -, found, -, bt, -, nameLen, -, res, hres, hput⟩ := hput
      cases hput
      exact bucketPut_drained rfl hres

/-! ### One call -/

/-- What a call receives on a connection on which no call fails. -/
inductive Receives (src : Source) : Outcome (ℤ × Bytes × Source) → Prop
  | byte (b : UInt8) (src' : Source) (hplain : src'.Plain) (hended : src'.ended = src.ended)
      (hbytes : src.bytes = b :: src'.bytes) : Receives src (.ok (1, [b], src'))
  | nothing (hsrc : src = Source.drained) : Receives src (.ok (0, [], src))
  | blocked (hsrc : src.Silent) : Receives src (.error .blocked)

theorem Source.Plain.receives {src : Source} (h : src.Plain) :
    Receives src (src.read false 1) := by
  obtain ⟨arrivals, ended⟩ := src
  cases arrivals with
  | nil =>
      cases ended with
      | true => exact .nothing rfl
      | false => exact .blocked ⟨rfl, rfl⟩
  | cons ev rest =>
      obtain ⟨b, bs, rfl⟩ := h ev List.mem_cons_self
      have hrest : ∀ ev ∈ rest, ∃ b bs, ev = ReadEvent.data b bs :=
        fun ev hev => h ev (List.mem_cons_of_mem _ hev)
      cases bs with
      | nil => exact .byte b _ hrest rfl rfl
      | cons c bs =>
          refine .byte b { arrivals := .data c bs :: rest, ended := ended } ?_ rfl rfl
          intro ev hev
          rcases List.mem_cons.1 hev with rfl | hev
          · exact ⟨c, bs, rfl⟩
          · exact hrest ev hev

/-- **One call**: what it does is what a call does that only counts. -/
theorem shown_readCb (env : CallbackEnv) (sv : Server) {src : Source} (out : Sink)
    (hsrc : src.Plain) :
    (readCb env false sv src out).map (fun r => (r.1, r.2.1.waiting, r.2.2)) =
      shownRead env sv out src.waiting := by
  have hrec := hsrc.receives
  cases hread : src.read false 1 with
  | error f =>
      rw [hread] at hrec
      cases hrec with
      | blocked hsilent =>
          obtain ⟨arrivals, ended⟩ := src
          obtain ⟨rfl, rfl⟩ := hsilent
          rfl
  | ok res =>
      rw [hread] at hrec
      cases hrec with
      | byte b src' hplain hended hbytes =>
          rw [readCb_of_received Int.one_pos hread, Source.waiting, hbytes, List.length_cons,
            ← hended]
          rfl
      | nothing hdrained =>
          subst hdrained
          rw [readCb_of_nothing (Int.lt_irrefl 0) hread]
          cases hswitch : readCbSwitch env RequestType.putObject.toUInt8 sv Source.drained out with
          | error f =>
              change _ =
                (readCbSwitch env RequestType.putObject.toUInt8 sv Source.drained out >>= _)
              rw [hswitch]
              rfl
          | ok r =>
              change _ =
                (readCbSwitch env RequestType.putObject.toUInt8 sv Source.drained out >>= _)
              rw [hswitch, Outcome.ok_bind, Except.map, readCbSwitch_drained hswitch]
              rfl

/-- A call on a connection on which no call fails leaves such a connection. -/
theorem plain_readCb {env : CallbackEnv} {evError : Bool} {sv : Server} {src : Source} {out : Sink}
    {r : Server × Source × Sink} (hsrc : src.Plain)
    (h : readCb env evError sv src out = .ok r) : r.2.1.Plain := by
  cases evError with
  | true =>
      cases h
      exact hsrc
  | false =>
      have hrec := hsrc.receives
      cases hread : src.read false 1 with
      | error f =>
          rw [readCb, if_neg Bool.false_ne_true, hread] at h
          cases h
      | ok res =>
          rw [hread] at hrec
          cases hrec with
          | byte b src' hplain hended hbytes =>
              rw [readCb_of_received Int.one_pos hread] at h
              cases h
              exact hplain
          | nothing hdrained =>
              subst hdrained
              rw [readCb_of_nothing (Int.lt_irrefl 0) hread] at h
              rw [readCbSwitch_drained h]
              exact hsrc

/-! ### Runs -/

/-- No call on any connection fails. -/
def Calls.Plain (s : Calls κ) : Prop := ∀ k, (s.conns k).Plain

theorem plain_callStep {limit : ℕ} {s t : Calls κ} {call : ReadCall κ}
    (h : callStep limit s call = .ok t) (hs : s.Plain) : t.Plain := by
  rw [callStep] at h
  split at h
  · rw [Outcome.bind_eq_ok] at h
    obtain ⟨r, hr, h⟩ := h
    cases h
    intro k
    by_cases hk : k = call.conn
    · subst hk
      simp only [Function.update_self]
      exact plain_readCb (hs _) hr
    · simp only [Function.update_of_ne hk]
      exact hs k
  · cases h

/-- A connection that is replaced shows its replacement. -/
theorem waiting_update (conns : κ → Source) (k : κ) (src : Source) :
    (fun k' => (Function.update conns k src k').waiting) =
      Function.update (fun k' => (conns k').waiting) k src.waiting := by
  funext k'
  by_cases hk : k' = k
  · rw [hk, Function.update_self, Function.update_self]
  · rw [Function.update_of_ne hk, Function.update_of_ne hk]

/-- **The step lemma**: a call does what a call does that only counts. -/
theorem shown_callStep {limit : ℕ} {s : Calls κ} (call : ReadCall κ) (hs : s.Plain) :
    (callStep limit s call).map Calls.shown = shownStep limit s.shown call := by
  by_cases hroom : s.buffers < limit
  · have hshown : s.shown.buffers < limit := hroom
    rw [callStep, shownStep, if_pos hroom, if_pos hshown]
    simp only [Calls.shown]
    cases herr : call.evError with
    | true =>
        simp only [readCb, if_true, Outcome.ok_bind, Except.map, Calls.shown, waiting_update]
    | false =>
        have hone := shown_readCb call.env s.sv (s.outs call.conn) (hs call.conn)
        simp only [Bool.false_eq_true, if_false, ← hone]
        cases readCb call.env false s.sv (s.conns call.conn) (s.outs call.conn) with
        | error f => rfl
        | ok r => simp only [Outcome.ok_bind, Except.map, Calls.shown, waiting_update]
  · have hshown : ¬ s.shown.buffers < limit := hroom
    rw [callStep, shownStep, if_neg hroom, if_neg hshown]
    rfl

/-- **A run of calls is a run of calls that only count.** -/
theorem shown_calls {limit : ℕ} {s : Calls κ} (calls : List (ReadCall κ)) (hs : s.Plain) :
    (calls.foldlM (callStep limit) s).map Calls.shown = calls.foldlM (shownStep limit) s.shown :=
  Outcome.map_foldlM (I := Calls.Plain) hs (fun _ call _ hs => shown_callStep call hs)
    fun _ _ _ _ h hs => plain_callStep h hs

/-- The server, and what was sent on each connection. -/
def Calls.effects (s : Calls κ) : Server × (κ → Sink) := (s.sv, s.outs)

/-- **The bytes the clients send make no difference.**  For any two states of the connections, on
none of which a call fails, that have as many bytes to come on each and end alike: every sequence of
calls, in any order and whatever the variables of the calls hold, ends in the same store and the
same responses, or in the same fault. -/
theorem calls_blind {limit : ℕ} {s s' : Calls κ} (hs : s.Plain) (hs' : s'.Plain)
    (heffects : s.effects = s'.effects) (hbuffers : s.buffers = s'.buffers)
    (hlength : ∀ k, (s.conns k).bytes.length = (s'.conns k).bytes.length)
    (hended : ∀ k, (s.conns k).ended = (s'.conns k).ended) (calls : List (ReadCall κ)) :
    (calls.foldlM (callStep limit) s).map Calls.effects =
      (calls.foldlM (callStep limit) s').map Calls.effects := by
  have hshown : s.shown = s'.shown := by
    obtain ⟨hsv, houts⟩ := Prod.mk.inj heffects
    have hconns : (fun k => (s.conns k).waiting) = fun k => (s'.conns k).waiting := by
      funext k
      rw [Source.waiting, hlength k, hended k]
      rfl
    rw [Calls.shown, hsv, houts, hbuffers, hconns]
    rfl
  have heff : ∀ run : Outcome (Calls κ), run.map Calls.effects =
      (run.map Calls.shown).map fun sh : Shown κ => (sh.sv, sh.outs) := by
    intro run
    cases run with
    | error f => rfl
    | ok t => rfl
  rw [heff, heff, shown_calls calls hs, shown_calls calls hs', hshown]

/-! ### Before the end -/

/-- How many of the calls are to receive something on a connection. -/
def callsOn (k : κ) (calls : List (ReadCall κ)) : ℕ :=
  calls.countP fun call => decide (call.conn = k) && !call.evError

theorem callsOn_cons (k : κ) (call : ReadCall κ) (calls : List (ReadCall κ)) :
    callsOn k (call :: calls) = callsOn k [call] + callsOn k calls := by
  simp only [callsOn, List.countP_cons, List.countP_nil]
  omega

theorem callsOn_of_error {call : ReadCall κ} (h : call.evError = true) (k : κ) :
    callsOn k [call] = 0 := by
  simp [callsOn, h]

theorem callsOn_self {call : ReadCall κ} (h : call.evError = false) :
    callsOn call.conn [call] = 1 := by
  simp [callsOn, h]

theorem callsOn_of_ne {call : ReadCall κ} {k : κ} (h : k ≠ call.conn) :
    callsOn k [call] = 0 := by
  simp [callsOn, Ne.symm h]

/-- A state of a run before the end of any connection: nothing was handled, and each connection has
lost one byte for each call on it. -/
structure OnlyRead (s : Calls κ) (calls : List (ReadCall κ)) (t : Calls κ) : Prop where
  plain : t.Plain
  effects : t.effects = s.effects
  buffers : t.buffers = s.buffers + calls.length
  bytes : ∀ k, (t.conns k).bytes = (s.conns k).bytes.drop (callsOn k calls)

theorem OnlyRead.cons {s t u : Calls κ} {call : ReadCall κ} {calls : List (ReadCall κ)}
    (h : OnlyRead s [call] t) (hrest : OnlyRead t calls u) : OnlyRead s (call :: calls) u where
  plain := hrest.plain
  effects := hrest.effects.trans h.effects
  buffers := by
    have hone := h.buffers
    rw [List.length_singleton] at hone
    rw [hrest.buffers, hone, List.length_cons]
    omega
  bytes := by
    intro k
    rw [hrest.bytes k, h.bytes k, List.drop_drop, callsOn_cons k call calls]

/-- A call before the end of its connection takes a byte off it and does nothing else. -/
theorem callStep_onlyRead {limit : ℕ} {s : Calls κ} {call : ReadCall κ} (hs : s.Plain)
    (hroom : s.buffers < limit)
    (hfew : callsOn call.conn [call] ≤ (s.conns call.conn).bytes.length) :
    ∃ t, callStep limit s call = .ok t ∧ OnlyRead s [call] t := by
  rw [callStep, if_pos hroom]
  cases herr : call.evError with
  | true =>
      have hread : readCb call.env true s.sv (s.conns call.conn) (s.outs call.conn) =
          .ok (s.sv, s.conns call.conn, s.outs call.conn) := rfl
      simp only [hread, Outcome.ok_bind, Function.update_eq_self]
      refine ⟨_, rfl, hs, rfl, rfl, ?_⟩
      intro k
      rw [callsOn_of_error herr, List.drop_zero]
  | false =>
      rw [callsOn_self herr] at hfew
      have hrec := (hs call.conn).receives
      cases hread : (s.conns call.conn).read false 1 with
      | error f =>
          rw [hread] at hrec
          cases hrec with
          | blocked hsilent =>
              rw [Source.bytes, hsilent.1] at hfew
              cases hfew
      | ok res =>
          rw [hread] at hrec
          cases hrec with
          | nothing hdrained =>
              rw [hdrained] at hfew
              cases hfew
          | byte b src' hplain hended hbytes =>
              simp only [readCb_of_received Int.one_pos hread, Outcome.ok_bind,
                Function.update_eq_self]
              refine ⟨_, rfl, ?_, rfl, rfl, ?_⟩
              · intro k
                by_cases hk : k = call.conn
                · subst hk
                  simp only [Function.update_self]
                  exact hplain
                · simp only [Function.update_of_ne hk]
                  exact hs k
              · intro k
                by_cases hk : k = call.conn
                · subst hk
                  dsimp only
                  rw [Function.update_self, callsOn_self herr, hbytes, List.drop_succ_cons,
                    List.drop_zero]
                · dsimp only
                  rw [Function.update_of_ne hk, callsOn_of_ne hk, List.drop_zero]

/-- **The run lemma**: as long as there is room for the buffers, calls before the end only read. -/
theorem calls_onlyRead {limit : ℕ} (calls : List (ReadCall κ)) : ∀ {s : Calls κ}, s.Plain →
    (∀ k, callsOn k calls ≤ (s.conns k).bytes.length) → s.buffers + calls.length ≤ limit →
      ∃ t, calls.foldlM (callStep limit) s = .ok t ∧ OnlyRead s calls t := by
  induction calls with
  | nil =>
      intro s hs _ _
      exact ⟨s, rfl, hs, rfl, rfl, fun k => by rw [callsOn, List.countP_nil, List.drop_zero]⟩
  | cons call calls ih =>
      intro s hs hfew hroom
      rw [List.length_cons] at hroom
      have hhead : callsOn call.conn [call] ≤ (s.conns call.conn).bytes.length := by
        have hall := hfew call.conn
        rw [callsOn_cons _ call calls] at hall
        omega
      have hlt : s.buffers < limit := by omega
      obtain ⟨t, hstep, ht⟩ := callStep_onlyRead hs hlt hhead
      have htail : ∀ k, callsOn k calls ≤ (t.conns k).bytes.length := by
        intro k
        have hall := hfew k
        rw [callsOn_cons k call calls] at hall
        rw [ht.bytes k, List.length_drop]
        omega
      have hbuffers := ht.buffers
      rw [List.length_singleton] at hbuffers
      obtain ⟨u, hrun, hu⟩ := ih ht.plain htail (by omega)
      exact ⟨u, by rw [List.foldlM_cons, hstep, Outcome.ok_bind, hrun], ht.cons hu⟩

/-- Without room for its buffer a call ends the process. -/
theorem callStep_of_full {limit : ℕ} {s : Calls κ} (h : limit ≤ s.buffers) (call : ReadCall κ) :
    callStep limit s call = .error .abort := by
  rw [callStep, if_neg (Nat.not_lt.2 h)]

/-- **Nothing is handled before a client closes its connection, and the server does not outlive its
memory.**  For any connections on which no call fails and every sequence of calls that has for none
of them more calls than bytes: if there is room for a buffer for each call, the store is as it was
and nothing was sent, while every connection has lost one byte for each call on it; if there is not,
the process is aborted. -/
theorem calls_beforeClose {limit : ℕ} {s : Calls κ} (hs : s.Plain) (hstart : s.buffers ≤ limit)
    {calls : List (ReadCall κ)} (hfew : ∀ k, callsOn k calls ≤ (s.conns k).bytes.length) :
    (s.buffers + calls.length ≤ limit →
        ∃ t, calls.foldlM (callStep limit) s = .ok t ∧ OnlyRead s calls t) ∧
      (limit < s.buffers + calls.length →
        calls.foldlM (callStep limit) s = .error .abort) := by
  refine ⟨calls_onlyRead calls hs hfew, ?_⟩
  intro hmany
  -- the run goes well until the room is used up, and the next call aborts
  have hlt : limit - s.buffers < calls.length := by omega
  have hsplit := (List.take_append_drop (limit - s.buffers) calls).symm
  rw [List.drop_eq_getElem_cons hlt] at hsplit
  have hlen : (calls.take (limit - s.buffers)).length = limit - s.buffers := by
    rw [List.length_take]
    omega
  have hfew' : ∀ k, callsOn k (calls.take (limit - s.buffers)) ≤ (s.conns k).bytes.length := by
    intro k
    refine le_trans ?_ (hfew k)
    exact (List.take_sublist _ _).countP_le
  have hroom : s.buffers + (calls.take (limit - s.buffers)).length ≤ limit := by omega
  obtain ⟨t, hrun, ht⟩ := calls_onlyRead _ hs hfew' hroom
  have hfull : limit ≤ t.buffers := by
    rw [ht.buffers, hlen]
    omega
  rw [hsplit, List.foldlM_append, hrun, Outcome.ok_bind, List.foldlM_cons,
    callStep_of_full hfull]
  rfl

end

/-! ### Two clients -/

/-- A server without sets and two connections, on which three bytes arrive each, in segments of
these lengths, before the client closes. -/
def twoClients (sv : Server) (a b : ReadEvent) : Calls Bool where
  sv := sv
  conns := fun k => { arrivals := if k then [a, .data 7 []] else [b], ended := true }
  outs := fun _ => wholeSink
  buffers := 0

theorem plain_twoClients (sv : Server) (x y z : UInt8) (bs : Bytes) :
    (twoClients sv (.data x [y]) (.data z bs)).Plain := by
  intro k ev hev
  cases k with
  | true =>
      rcases List.mem_cons.1 hev with rfl | hev
      · exact ⟨x, [y], rfl⟩
      · rw [List.mem_singleton.1 hev]
        exact ⟨7, [], rfl⟩
  | false =>
      rw [List.mem_singleton.1 hev]
      exact ⟨z, bs, rfl⟩

/-- Calls that read both connections to their end, and one more. -/
def closingCalls : List (ReadCall Bool) :=
  [true, false, true, false, true, false, true].map fun k =>
    { conn := k, evError := false, env := zeroLocals.env zeroIo }

/-- The result applied to two clients that send other bytes. -/
theorem calls_blind_two :
    ∃ ss, sdsStoreInit parseEmptyObject emptyObjectIo = .ok ss ∧
      (closingCalls.foldlM (callStep 9) (twoClients (Server.start Fs.empty ss) (.data 1 [0])
          (.data 2 [3, 4]))).map Calls.effects =
        (closingCalls.foldlM (callStep 9) (twoClients (Server.start Fs.empty ss) (.data 5 [6])
          (.data 0 [0, 0]))).map Calls.effects := by
  obtain ⟨ss, hss, -⟩ := sdsStoreInit_emptyObject
  have hplain := plain_twoClients (Server.start Fs.empty ss) 1 0 2 [3, 4]
  have hplain' := plain_twoClients (Server.start Fs.empty ss) 5 6 0 [0, 0]
  refine ⟨ss, hss, calls_blind hplain hplain' rfl rfl ?_ ?_ closingCalls⟩
  · intro k
    cases k <;> rfl
  · intro k
    cases k <;> rfl

/-- The result applied to the first six of these calls, with room for nine buffers and for four. -/
theorem calls_beforeClose_six :
    ∃ ss, sdsStoreInit parseEmptyObject emptyObjectIo = .ok ss ∧
      (∃ t, (closingCalls.take 6).foldlM (callStep 9)
          (twoClients (Server.start Fs.empty ss) (.data 1 [0]) (.data 2 [3, 4])) = .ok t ∧
        OnlyRead (twoClients (Server.start Fs.empty ss) (.data 1 [0]) (.data 2 [3, 4]))
          (closingCalls.take 6) t) ∧
      (closingCalls.take 6).foldlM (callStep 4)
        (twoClients (Server.start Fs.empty ss) (.data 1 [0]) (.data 2 [3, 4])) =
          .error .abort := by
  obtain ⟨ss, hss, -⟩ := sdsStoreInit_emptyObject
  have hfew : ∀ k, callsOn k (closingCalls.take 6) ≤
      ((twoClients (Server.start Fs.empty ss) (.data 1 [0]) (.data 2 [3, 4])).conns
        k).bytes.length := by
    intro k
    cases k <;> simp [callsOn, closingCalls, twoClients, Source.bytes, Source.eventBytes]
  have hplain := plain_twoClients (Server.start Fs.empty ss) 1 0 2 [3, 4]
  have hlen : (closingCalls.take 6).length = 6 := by simp [closingCalls]
  refine ⟨ss, hss, (calls_beforeClose hplain (Nat.zero_le 9) hfew).1 ?_,
    (calls_beforeClose hplain (Nat.zero_le 4) hfew).2 ?_⟩
  · rw [hlen]
    exact Nat.le_of_ble_eq_true rfl
  · rw [hlen]
    exact Nat.le_of_ble_eq_true rfl
