/-
**The status of the client.**

`request_put_object_init` returns 0 when a call to `write_n` in its loop returns 0, which it does
when the socket has failed or takes no more, and -1 when the loop has counted the whole file.  What
these calls hand over is the memory of the request, and the response is read from the file.

What `read_n` and `write_n` return is written down as a schedule: the descriptors may stop at any
byte of any call.

Main definitions:

* `PutObjectCall` — a call to the function, with the file, the response, and what the calls meet;
* `PutObjectCall.StatusRight` — the status says whether everything was sent;
* `Turns`, `Schedule`, `PutObjectCall.Follows` — what `read_n` and `write_n` return.

Main results:

* `Turns.sent_eq`, `Turns.file_eq` — what the loop has sent, and what it has left of the file;
* `PutObjectCall.follows_of_run` — **what a call returns, in terms of its schedule**;
* `putObject_statusRight_iff` — **the status is right exactly under these schedules**.
-/

import SdsStorage.Client
import SdsStorage.NetSocket

set_option relaxedAutoImplicit false
set_option autoImplicit false

/-! ### The calls to `read_n` and `write_n` -/

/-- A call to `write_n` that returns has counted, and handed over, a first part of its buffer. -/
theorem sendN_counted {sk : Sink} {buf : ℤ → UInt8} {len : ℕ} (hlen : len < 2 ^ 31)
    {r : ℤ × Sink} (h : sendN sk buf len = .ok r) :
    ∃ w : ℕ, r.1 = w ∧ w ≤ len ∧ r.2.sent = sk.sent ++ memBytes buf 0 w := by
  have hsent := Utils.writeN_sent buf hlen sk
  obtain ⟨w, hw⟩ := Int.eq_ofNat_of_zero_le hsent.nonneg
  have hle := hsent.le_len
  have heq := hsent.sent_eq
  rw [sendN] at h
  split at h
  · cases h
    rw [hw, Int.toNat_natCast] at heq
    exact ⟨w, hw, by omega, heq⟩
  · cases h

/-- A call that takes everything at once. -/
theorem sendN_accept (len k : ℕ) (hpos : 0 < len) (hlen : len < 2 ^ 31) (hk : len ≤ k + 1)
    (rest : List WriteEvent) (sent : Bytes) (buf : ℤ → UInt8) :
    sendN { answers := .accept k :: rest, sent := sent } buf len =
      .ok (len, { answers := rest, sent := sent ++ memBytes buf 0 len }) := by
  have hu : CInt.toUInt64 (len : ℤ) = len := CInt.toUInt64_natCast_of_lt (by omega)
  have hcond : CInt.toUInt64 0 < len := hpos
  have hfirst : Utils.writeNTurn false buf len
      { writen := 0, sink := { answers := .accept k :: rest, sent := sent } } =
      .again
        { writen := len, sink := { answers := rest, sent := sent ++ memBytes buf 0 len } } := by
    have hnext : CInt.toInt32 (0 + (len : ℤ)) = len := by
      rw [Int.zero_add, CInt.toInt32_natCast_of_lt hlen]
    rw [Utils.writeNTurn, if_pos hcond]
    simp only [Int.sub_zero, hu, Sink.write, Bool.false_eq_true, if_false, Nat.min_eq_right hk,
      if_pos hpos, hnext]
  have hlast : Utils.writeNTurn false buf len
      { writen := len, sink := { answers := rest, sent := sent ++ memBytes buf 0 len } } =
      .done (none,
        { writen := len, sink := { answers := rest, sent := sent ++ memBytes buf 0 len } }) := by
    rw [Utils.writeNTurn, hu, if_neg (Nat.lt_irrefl len)]
  have hrun : Utils.writeN { answers := .accept k :: rest, sent := sent } false buf len =
      (none,
        { writen := len, sink := { answers := rest, sent := sent ++ memBytes buf 0 len } }) := by
    rw [Utils.writeN, List.length_cons, Loop.run_again hfirst, Loop.run_done hlast]
    rfl
  rw [sendN, hrun]

/-- A call that fails at once. -/
theorem sendN_fail (len : ℕ) (hpos : 0 < len) (rest : List WriteEvent) (sent : Bytes)
    (buf : ℤ → UInt8) :
    sendN { answers := .fail :: rest, sent := sent } buf len =
      .ok (0, { answers := rest, sent := sent }) := by
  have hcond : CInt.toUInt64 0 < len := hpos
  have hturn : Utils.writeNTurn false buf len
      { writen := 0, sink := { answers := .fail :: rest, sent := sent } } =
      .done (none, { writen := 0, sink := { answers := rest, sent := sent } }) := by
    rw [Utils.writeNTurn, if_pos hcond]
    simp only [Sink.write, Bool.false_eq_true, if_false]
  have hrun : Utils.writeN { answers := .fail :: rest, sent := sent } false buf len =
      (none, { writen := 0, sink := { answers := rest, sent := sent } }) := by
    rw [Utils.writeN, List.length_cons, Loop.run_done hturn]
    rfl
  rw [sendN, hrun]

/-- A first part of memory that starts with `m` is a first part of `m`. -/
theorem memBytes_memOf_take (m : Bytes) (around : ℤ → UInt8) {k : ℕ} (hk : k ≤ m.length) :
    memBytes (memOf m around) 0 k = m.take k := by
  have hpre := Utils.memBytes_prefix (memOf m around) hk
  rw [Utils.memBytes_memOf] at hpre
  have htake := List.prefix_iff_eq_take.1 hpre
  rwa [Utils.length_memBytes] at htake

/-- What a call to `read_n` does with the bytes `content` that are to come: the first of them are
in the buffer, and the others are left. -/
structure Took (content buf : Bytes) (s : Utils.ReadN) : Prop where
  le_length : s.readn.toNat ≤ content.length
  fill_eq : fillBuffer buf s.stores =
    content.take s.readn.toNat ++ buf.drop s.readn.toNat
  left_eq : s.src.bytes = content.drop s.readn.toNat

/-- **`read_n` takes what comes first, and puts it at the front of its buffer.** -/
theorem readN_took {src : Source} {len : ℕ} (hlen : len < 2 ^ 31) (buf : Bytes)
    {rn : Utils.ReadN} (h : Utils.readN src false len = .ok rn) :
    Took src.bytes buf rn ∧ 0 ≤ rn.readn := by
  have hmain : Took src.bytes buf rn ∧ 0 ≤ rn.readn ∧ rn.readn ≤ len := by
    refine Utils.readN_rule hlen (I := Took src.bytes buf) ?_ ?_ ?_ h
    · exact ⟨Nat.zero_le _, rfl, rfl⟩
    · intro s chunk src' hs h0 _ hread
      obtain ⟨hbytes, -⟩ := Source.read_bytes hread
      obtain ⟨n, hn⟩ := Int.eq_ofNat_of_zero_le h0
      obtain ⟨hle, hfill, hleft⟩ := hs
      rw [hn, Int.toNat_natCast] at hle hfill hleft
      rw [hleft] at hbytes
      have hsum : ((n : ℤ) + chunk.length).toNat = n + chunk.length := by omega
      have hcount := congrArg List.length hbytes
      rw [List.length_drop, List.length_append] at hcount
      -- the piece that was read is the next of what is to come
      have hchunk : (src.bytes.drop n).take chunk.length = chunk := by
        rw [hbytes, List.take_left']
        rfl
      refine ⟨?_, ?_, ?_⟩
      · rw [hn, hsum]
        omega
      · have hlenTake : (src.bytes.take n).length = n := List.length_take_of_le hle
        rw [hn, hsum, fillBuffer, List.foldl_append, List.foldl_cons, List.foldl_nil]
        change (fillBuffer buf s.stores).take n ++ chunk ++
          (fillBuffer buf s.stores).drop (n + chunk.length) = _
        rw [hfill, List.take_left' hlenTake, List.take_add, hchunk, List.drop_append, hlenTake,
          List.drop_eq_nil_of_le (by omega), List.nil_append, List.drop_drop]
        congr 2
        omega
      · rw [hn, hsum, ← List.drop_drop, hbytes, List.drop_left']
        rfl
    · intro s n r chunk src' hs hread hr
      obtain ⟨hbytes, hnone⟩ := Source.read_bytes hread
      rw [hnone hr, List.nil_append] at hbytes
      exact ⟨hs.le_length, hs.fill_eq, hbytes ▸ hs.left_eq⟩
  exact ⟨hmain.1, hmain.2.1⟩

/-- The file is open and `content` is to come, or it is not open. -/
def FileAt (content : Bytes) (fd : Option Source) : Prop :=
  ∀ src, fd = some src → src.bytes = content

/-- The same of a descriptor that may not be open. -/
theorem readFd_took {content : Bytes} {fd : Option Source} (hfd : FileAt content fd) {len : ℕ}
    (hlen : len < 2 ^ 31) (buf : Bytes) {r : ℤ × List (ℤ × Bytes) × Option Source}
    (h : readFd fd len = .ok r) :
    ∃ n : ℕ, r.1 = n ∧ fillBuffer buf r.2.1 = content.take n ++ buf.drop n ∧
      FileAt (content.drop n) r.2.2 := by
  cases fd with
  | none =>
      cases h
      refine ⟨0, rfl, rfl, ?_⟩
      intro src hsrc
      cases hsrc
  | some src =>
      rw [readFd] at h
      cases hread : Utils.readN src false len with
      | error f =>
          rw [hread] at h
          cases h
      | ok rn =>
          rw [hread] at h
          cases h
          obtain ⟨htook, h0⟩ := readN_took hlen buf hread
          rw [hfd src rfl] at htook
          obtain ⟨n, hn⟩ := Int.eq_ofNat_of_zero_le h0
          have hfill := htook.fill_eq
          have hleft := htook.left_eq
          rw [hn, Int.toNat_natCast] at hfill hleft
          refine ⟨n, hn, hfill, ?_⟩
          intro src' hsrc'
          cases hsrc'
          exact hleft

/-- The result of `read_n` is a number of bytes. -/
theorem readFd_natCast {fd : Option Source} {len : ℕ} (hlen : len < 2 ^ 31)
    {r : ℤ × List (ℤ × Bytes) × Option Source} (h : readFd fd len = .ok r) : ∃ n : ℕ, r.1 = n := by
  have hfd : FileAt ((fd.map Source.bytes).getD []) fd := by
    intro src hsrc
    rw [hsrc]
    rfl
  obtain ⟨n, hn, -, -⟩ := readFd_took hfd hlen [] h
  exact ⟨n, hn⟩

/-! ### The turns of the loop -/

/-- The state after a turn in which `read_n` returned `n`. -/
def SendLoop.after (s : SendLoop) (n : ℕ) (fd : Option Source) (sock : Sink) : SendLoop where
  rn := CInt.toUInt64 (s.rn + CInt.toUInt64 n)
  fd := fd
  sock := sock

/-- What `read_n` and `write_n` return in the turns of the loop, from one state to the last. -/
inductive Turns (req : ℤ → UInt8) (length : ℕ) : SendLoop → List (ℕ × ℕ) → SendLoop → Prop
  /-- The whole file is counted. -/
  | counted {s : SendLoop} : ¬ s.rn < length → Turns req length s [] s
  /-- `write_n` returns 0. -/
  | zero {s : SendLoop} {n : ℕ} {stores : List (ℤ × Bytes)} {fd : Option Source} {sock : Sink} :
      s.rn < length → readFd s.fd requestReadBufferLength = .ok (n, stores, fd) →
      sendN s.sock req requestReadBufferLength = .ok (0, sock) →
      Turns req length s [(n, 0)] (s.after n fd sock)
  /-- `write_n` returns a number of bytes. -/
  | more {s t : SendLoop} {n w : ℕ} {stores : List (ℤ × Bytes)} {fd : Option Source} {sock : Sink}
      {turns : List (ℕ × ℕ)} :
      s.rn < length → readFd s.fd requestReadBufferLength = .ok (n, stores, fd) →
      sendN s.sock req requestReadBufferLength = .ok ((w + 1 : ℕ), sock) →
      Turns req length (s.after n fd sock) turns t →
      Turns req length s ((n, w + 1) :: turns) t

section Turns

variable {req : ℤ → UInt8} {length : ℕ} {s t : SendLoop} {turns : List (ℕ × ℕ)}

/-- A turn leaves the loop when everything is counted. -/
theorem sendTurn_counted (hge : ¬ s.rn < length) :
    sendTurn req length s = .done (.ok (false, s)) := by
  rw [sendTurn, if_neg hge]

/-- What a turn of the loop does when its two calls return. -/
theorem sendTurn_eq (hlt : s.rn < length) {n w : ℕ} {stores : List (ℤ × Bytes)}
    {fd : Option Source} {sock : Sink}
    (hread : readFd s.fd requestReadBufferLength = .ok (n, stores, fd))
    (hsend : sendN s.sock req requestReadBufferLength = .ok (w, sock)) :
    sendTurn req length s =
      if w = 0 then .done (.ok (true, s.after n fd sock)) else .again (s.after n fd sock) := by
  have hneg : ¬ (w : ℤ) < 0 := by omega
  simp only [sendTurn, if_pos hlt, hread, hsend, if_neg hneg, Int.natCast_eq_zero]
  rfl

/-- The calls of a turn that goes round again, or leaves the loop, have returned. -/
theorem sendTurn_calls (hlt : s.rn < length)
    (h : ∀ e, sendTurn req length s ≠ .done (.error e)) :
    ∃ (n w : ℕ) (stores : List (ℤ × Bytes)) (fd : Option Source) (sock : Sink),
      readFd s.fd requestReadBufferLength = .ok (n, stores, fd) ∧
      sendN s.sock req requestReadBufferLength = .ok (w, sock) := by
  have hlen := requestReadBufferLength_lt
  rw [sendTurn, if_pos hlt] at h
  cases hread : readFd s.fd requestReadBufferLength with
  | error f =>
      rw [hread] at h
      exact absurd rfl (h _)
  | ok r =>
      rw [hread] at h
      dsimp only at h
      cases hsend : sendN s.sock req requestReadBufferLength with
      | error e =>
          rw [hsend] at h
          exact absurd rfl (h _)
      | ok ret =>
          obtain ⟨w, hw, -, -⟩ := sendN_counted hlen hsend
          obtain ⟨n, hn⟩ := readFd_natCast hlen hread
          refine ⟨n, w, r.2.1, r.2.2, ret.2, ?_, ?_⟩
          · rw [← hn]
          · rw [← hw]

/-- **Every loop that returns is a sequence of turns**, and it returns true exactly when `write_n`
returned 0 in one of them. -/
theorem turns_of_run {fuel : ℕ} {b : Bool}
    (h : Loop.run (sendTurn req length) fuel s = some (.ok (b, t))) :
    ∃ turns, Turns req length s turns t ∧ (b = true ↔ ∃ turn ∈ turns, turn.2 = 0) := by
  induction fuel generalizing s with
  | zero => simp [Loop.run] at h
  | succ fuel ih =>
      by_cases hlt : s.rn < length
      · have hok : ∀ e, sendTurn req length s ≠ .done (.error e) := by
          intro e he
          rw [Loop.run_done he] at h
          cases h
        obtain ⟨n, w, stores, fd, sock, hread, hsend⟩ := sendTurn_calls hlt hok
        have hturn := sendTurn_eq hlt hread hsend
        cases w with
        | zero =>
            -- the turn leaves the loop with `is_success` set
            rw [if_pos rfl] at hturn
            rw [Loop.run_done hturn] at h
            cases h
            exact ⟨_, .zero hlt hread hsend, by simp⟩
        | succ w =>
            rw [if_neg (Nat.succ_ne_zero w)] at hturn
            rw [Loop.run_again hturn] at h
            obtain ⟨turns, hturns, hb⟩ := ih h
            exact ⟨_, .more hlt hread hsend hturns, by simpa using hb⟩
      · rw [Loop.run_done (sendTurn_counted hlt)] at h
        cases h
        exact ⟨[], .counted hlt, by simp⟩

/-- What the calls return is determined. -/
theorem Turns.unique (h : Turns req length s turns t) {turns' : List (ℕ × ℕ)} {t' : SendLoop}
    (h' : Turns req length s turns' t') : turns = turns' ∧ t = t' := by
  induction h generalizing turns' t' with
  | counted hge =>
      cases h' with
      | counted _ => exact ⟨rfl, rfl⟩
      | zero hlt => exact absurd hlt hge
      | more hlt => exact absurd hlt hge
  | zero hlt hread hsend =>
      cases h' with
      | counted hge => exact absurd hlt hge
      | zero _ hread' hsend' =>
          rw [hread] at hread'
          rw [hsend] at hsend'
          simp only [Except.ok.injEq, Prod.mk.injEq, Nat.cast_inj] at hread' hsend'
          obtain ⟨rfl, -, rfl⟩ := hread'
          obtain ⟨-, rfl⟩ := hsend'
          exact ⟨rfl, rfl⟩
      | more _ _ hsend' =>
          rw [hsend] at hsend'
          simp only [Except.ok.injEq, Prod.mk.injEq] at hsend'
          omega
  | more hlt hread hsend _ ih =>
      cases h' with
      | counted hge => exact absurd hlt hge
      | zero _ _ hsend' =>
          rw [hsend] at hsend'
          simp only [Except.ok.injEq, Prod.mk.injEq] at hsend'
          omega
      | more _ hread' hsend' hrest' =>
          rw [hread] at hread'
          rw [hsend] at hsend'
          simp only [Except.ok.injEq, Prod.mk.injEq, Nat.cast_inj, Nat.add_right_cancel_iff]
            at hread' hsend'
          obtain ⟨rfl, -, rfl⟩ := hread'
          obtain ⟨rfl, rfl⟩ := hsend'
          obtain ⟨rfl, rfl⟩ := ih hrest'
          exact ⟨rfl, rfl⟩

/-- **What the loop has sent**: in every turn, a first part of the memory of the request. -/
theorem Turns.sent_eq (h : Turns req length s turns t) :
    t.sock.sent = s.sock.sent ++ turns.flatMap fun turn => memBytes req 0 turn.2 := by
  have hlen := requestReadBufferLength_lt
  induction h with
  | counted _ => exact (List.append_nil _).symm
  | zero _ _ hsend =>
      obtain ⟨w, hw, -, hsent⟩ := sendN_counted hlen hsend
      obtain rfl := Int.ofNat.inj hw
      exact hsent
  | more _ _ hsend _ ih =>
      obtain ⟨w, hw, -, hsent⟩ := sendN_counted hlen hsend
      obtain rfl := Int.ofNat.inj hw
      rw [ih, List.flatMap_cons, ← List.append_assoc]
      exact congrArg (· ++ _) hsent

/-- **What the loop has left of the file**: what `read_n` has not returned. -/
theorem Turns.file_eq (h : Turns req length s turns t) {content : Bytes}
    (hfd : FileAt content s.fd) : FileAt (content.drop (turns.map Prod.fst).sum) t.fd := by
  have hlen := requestReadBufferLength_lt
  induction h generalizing content with
  | counted _ => exact hfd
  | zero _ hread _ =>
      obtain ⟨m, hm, -, hat⟩ := readFd_took hfd hlen [] hread
      obtain rfl := Int.ofNat.inj hm
      exact hat
  | more _ hread _ _ ih =>
      obtain ⟨m, hm, -, hat⟩ := readFd_took hfd hlen [] hread
      obtain rfl := Int.ofNat.inj hm
      have hrest := ih hat
      rw [List.drop_drop] at hrest
      rw [List.map_cons, List.sum_cons]
      exact hrest

end Turns

/-! ### What a call returns -/

section Sending

variable {α β : Type} {sk : Sink}

/-- A sequence that returns is made of two calls that return. -/
theorem sending_bind_eq_ok {x : Sending α} {f : α → Sending β} {b : β} :
    (x >>= f) = .ok b ↔ ∃ a, x = .ok a ∧ f a = .ok b := by
  cases x with
  | error e =>
      constructor
      · intro h
        cases h
      · rintro ⟨a, ha, -⟩
        cases ha
  | ok a =>
      constructor
      · intro h
        exact ⟨a, rfl, h⟩
      · rintro ⟨a', ha', h⟩
        cases ha'
        exact h

theorem keeping_eq_ok {x : Outcome α} {a : α} : keeping sk x = .ok a ↔ x = .ok a := by
  cases x with
  | error f =>
      constructor <;> intro h <;> cases h
  | ok a' =>
      constructor <;> intro h <;> cases h <;> rfl

end Sending

/-- The calls of a run that returns after `stat` has succeeded. -/
theorem putObjectSend_ok {io : PutObjectIo} {stSize : ℤ} {path setName : CharPtr} {sk : Sink}
    {r : ℤ × Sink × List (ℤ × Bytes)} (h : putObjectSend io stSize path setName sk = .ok r) :
    ∃ type header hdr turns last,
      sendN sk (memOf [RequestType.putObject.toUInt8] fun _ => 0) 1 = .ok type ∧
      requestHeader stSize path setName = .ok header ∧
      sendN type.2 (memOf header io.heap) RequestPutObject.size = .ok hdr ∧
      Turns (memOf header io.heap) (CInt.toUInt64 stSize)
        { rn := 0, fd := io.data, sock := hdr.2 } turns last ∧
      ((∃ turn ∈ turns, turn.2 = 0) →
        ∃ ack, readFd last.fd ResponseAck.size = .ok ack ∧ r = (0, last.sock, ack.2.1)) ∧
      ((¬ ∃ turn ∈ turns, turn.2 = 0) → r = (-1, last.sock, [])) := by
  rw [putObjectSend] at h
  simp only [sending_bind_eq_ok, keeping_eq_ok] at h
  obtain ⟨type, htype, header, hheader, -, -, hdr, hhdr, ⟨b, last⟩, hlast, h⟩ := h
  cases hrun : Loop.run (sendTurn (memOf header io.heap) (CInt.toUInt64 stSize))
      (hdr.2.answers.length + 1) { rn := 0, fd := io.data, sock := hdr.2 } with
  | none =>
      rw [hrun] at hlast
      cases hlast
  | some o =>
      rw [hrun, Option.getD_some] at hlast
      subst hlast
      obtain ⟨turns, hturns, hb⟩ := turns_of_run hrun
      refine ⟨type, header, hdr, turns, last, htype, hheader, hhdr, hturns, ?_, ?_⟩
      · intro hzero
        rw [hb.2 hzero, if_pos rfl, sending_bind_eq_ok] at h
        obtain ⟨ack, hack, h⟩ := h
        cases h
        exact ⟨ack, keeping_eq_ok.1 hack, rfl⟩
      · intro hnone
        rw [if_neg (mt hb.1 hnone)] at h
        cases h
        rfl

/-! ### Schedules -/

/-- What the calls of one run return: `write_n` for the type and for the header, `read_n` and
`write_n` in each turn of the loop, and `read_n` for the response. -/
structure Schedule where
  type : ℕ
  header : ℕ
  turns : List (ℕ × ℕ)
  ack : ℕ
  deriving DecidableEq, Repr

namespace Schedule

/-- Nothing is called. -/
def idle : Schedule := { type := 0, header := 0, turns := [], ack := 0 }

/-- A call to `write_n` in the loop returns 0. -/
def HitsZero (sched : Schedule) : Prop := ∃ turn ∈ sched.turns, turn.2 = 0

instance (sched : Schedule) : Decidable sched.HitsZero :=
  inferInstanceAs (Decidable (∃ turn ∈ sched.turns, turn.2 = 0))

/-- How much of the file the loop reads. -/
def fileRead (sched : Schedule) : ℕ := (sched.turns.map Prod.fst).sum

/-- What these calls let through of the type and of the memory `req` from the request on. -/
def stream (sched : Schedule) (req : ℤ → UInt8) : Bytes :=
  [RequestType.putObject.toUInt8].take sched.type ++ memBytes req 0 sched.header ++
    sched.turns.flatMap fun turn => memBytes req 0 turn.2

end Schedule

/-- A call to `request_put_object_init`: its arguments and what it meets, the content of the file,
what `*ack` holds before, and the response the server sends. -/
structure PutObjectCall where
  io : PutObjectIo
  path : CharPtr
  setName : CharPtr
  sock : Option Sink
  content : Bytes
  ack : Bytes
  response : Bytes
  sock_sent : ∀ sk, sock = some sk → sk.sent = []
  stSize_eq : ∀ n, io.stSize = some n → n = content.length
  data_eq : FileAt content io.data
  ack_length : ack.length = ResponseAck.size
  response_length : response.length ≤ ResponseAck.size

namespace PutObjectCall

/-- The call. -/
def run (call : PutObjectCall) : Sending (ℤ × Option Sink × List (ℤ × Bytes)) :=
  requestPutObjectInit call.io call.path call.setName call.sock

/-- The header of the request. -/
def header (call : PutObjectCall) : Outcome Bytes :=
  requestHeader call.content.length call.path call.setName

/-- The type, the header and every byte of the file come first in what was sent. -/
def Complete (call : PutObjectCall) (sent : Bytes) : Prop :=
  ∃ header, call.header = .ok header ∧
    RequestType.putObject.toUInt8 :: (header ++ call.content) <+: sent

/-- **The status is right**: it is 0 exactly when the header and every byte of the file were sent,
and only then is `*ack` filled in, with what the server sent. -/
structure StatusRight (call : PutObjectCall) (r : ℤ × Option Sink × List (ℤ × Bytes)) : Prop where
  zero_iff : r.1 = 0 ↔ call.Complete (sentBytes (.ok r))
  only_then : r.1 ≠ 0 → r.2.2 = []
  filled : r.1 = 0 → fillBuffer call.ack r.2.2 =
    call.response ++ call.ack.drop call.response.length

/-- What `read_n` returns for the response, if it is read. -/
def AckRead (last : SendLoop) (turns : List (ℕ × ℕ)) (ack : ℕ) : Prop :=
  if ∃ turn ∈ turns, turn.2 = 0 then
    ∃ stores fd, readFd last.fd ResponseAck.size = .ok (ack, stores, fd)
  else ack = 0

theorem AckRead.unique {last : SendLoop} {turns : List (ℕ × ℕ)} {ack ack' : ℕ}
    (h : AckRead last turns ack) (h' : AckRead last turns ack') : ack = ack' := by
  rw [AckRead] at h h'
  split at h
  · rename_i hzero
    rw [if_pos hzero] at h'
    obtain ⟨stores, fd, h⟩ := h
    obtain ⟨stores', fd', h'⟩ := h'
    rw [h] at h'
    simp only [Except.ok.injEq, Prod.mk.injEq, Nat.cast_inj] at h'
    exact h'.1
  · rename_i hnone
    rw [if_neg hnone] at h'
    rw [h, h']

/-- The descriptors answer the calls by this schedule. -/
inductive Follows (call : PutObjectCall) : Schedule → Prop
  /-- There is no socket, no path, or no file. -/
  | idle : (call.sock = none ∨ call.io.stSize = none ∨ call.path = .null) → Follows call .idle
  /-- The calls are made. -/
  | calls {sk : Sink} {stSize : ℤ} {type hdr : ℕ} {sk₁ sk₂ : Sink} {header : Bytes}
      {turns : List (ℕ × ℕ)} {last : SendLoop} {ack : ℕ} :
      call.sock = some sk → call.io.stSize = some stSize → call.path ≠ .null →
      sendN sk (memOf [RequestType.putObject.toUInt8] fun _ => 0) 1 = .ok (type, sk₁) →
      call.header = .ok header →
      sendN sk₁ (memOf header call.io.heap) RequestPutObject.size = .ok (hdr, sk₂) →
      Turns (memOf header call.io.heap) (CInt.toUInt64 call.content.length)
        { rn := 0, fd := call.io.data, sock := sk₂ } turns last →
      AckRead last turns ack →
      Follows call { type := type, header := hdr, turns := turns, ack := ack }

/-- What the calls of the schedule let through begins with the type, the header and the file. -/
def LetThrough (call : PutObjectCall) (sched : Schedule) : Prop :=
  ∃ header, call.header = .ok header ∧
    RequestType.putObject.toUInt8 :: (header ++ call.content) <+:
      sched.stream (memOf header call.io.heap)

/-- The bytes of the file behind those the loop has read leave in `*ack` what the response would. -/
def FileAnswers (call : PutObjectCall) (sched : Schedule) : Prop :=
  (call.content.drop sched.fileRead).take sched.ack ++ call.ack.drop sched.ack =
    call.response ++ call.ack.drop call.response.length

variable {call : PutObjectCall}

/-- The descriptors leave no choice. -/
theorem Follows.unique {sched sched' : Schedule} (h : call.Follows sched)
    (h' : call.Follows sched') : sched = sched' := by
  cases h with
  | idle hidle =>
      cases h' with
      | idle _ => rfl
      | calls hsock hstat hpath =>
          rw [hsock, hstat] at hidle
          simp [hpath] at hidle
  | calls hsock hstat hpath htype hheader hhdr hturns hack =>
      cases h' with
      | idle hidle =>
          rw [hsock, hstat] at hidle
          simp [hpath] at hidle
      | calls hsock' _ _ htype' hheader' hhdr' hturns' hack' =>
          rw [hsock] at hsock'
          obtain rfl := Option.some.inj hsock'
          rw [hheader] at hheader'
          obtain rfl := Except.ok.inj hheader'
          rw [htype] at htype'
          simp only [Except.ok.injEq, Prod.mk.injEq, Nat.cast_inj] at htype'
          obtain ⟨rfl, rfl⟩ := htype'
          rw [hhdr] at hhdr'
          simp only [Except.ok.injEq, Prod.mk.injEq, Nat.cast_inj] at hhdr'
          obtain ⟨rfl, rfl⟩ := hhdr'
          obtain ⟨rfl, rfl⟩ := hturns.unique hturns'
          obtain rfl := hack.unique hack'
          rfl

/-- What a call by a schedule returns. -/
structure Returns (call : PutObjectCall) (sched : Schedule)
    (r : ℤ × Option Sink × List (ℤ × Bytes)) : Prop where
  sent_eq : ∀ header, call.header = .ok header →
    sentBytes (.ok r) = sched.stream (memOf header call.io.heap)
  of_zero : sched.HitsZero → r.1 = 0 ∧ fillBuffer call.ack r.2.2 =
    (call.content.drop sched.fileRead).take sched.ack ++ call.ack.drop sched.ack
  of_not_zero : ¬ sched.HitsZero → r.1 = -1 ∧ r.2.2 = []

/-- Without a socket, a path or a file nothing is sent. -/
theorem follows_of_idle {r : ℤ × Option Sink × List (ℤ × Bytes)}
    (hidle : call.sock = none ∨ call.io.stSize = none ∨ call.path = .null)
    (h : call.run = .ok r) : call.Follows .idle ∧ call.Returns .idle r := by
  have hnone : ¬ Schedule.idle.HitsZero := by
    rintro ⟨turn, hturn, -⟩
    cases hturn
  have hr : r = (-1, call.sock, []) := by
    unfold run requestPutObjectInit at h
    cases hsock : call.sock with
    | none =>
        rw [hsock] at h
        cases h
        rfl
    | some sk =>
        rw [hsock] at h
        dsimp only at h
        cases hstat : call.io.stSize with
        | none =>
            rw [hstat] at h
            cases h
            rfl
        | some stSize =>
            rw [hsock, hstat] at hidle
            have hpath : call.path = .null := by simpa using hidle
            rw [hstat, hpath] at h
            cases h
            rfl
  refine ⟨.idle hidle, ?_, fun hzero => absurd hzero hnone, fun _ => ?_⟩
  · intro header _
    rw [hr, sentBytes]
    cases hsock : call.sock with
    | none => rfl
    | some sk => exact call.sock_sent sk hsock
  · rw [hr]
    exact ⟨rfl, rfl⟩

/-- What the calls hand over is what their schedule lets through. -/
theorem sent_of_calls {io : PutObjectIo} {length : ℕ} {sk : Sink} {type hdr : ℤ × Sink}
    {header : Bytes} {turns : List (ℕ × ℕ)} {last : SendLoop} (hfresh : sk.sent = [])
    (htype : sendN sk (memOf [RequestType.putObject.toUInt8] fun _ => 0) 1 = .ok type)
    (hhdr : sendN type.2 (memOf header io.heap) RequestPutObject.size = .ok hdr)
    (hturns : Turns (memOf header io.heap) length { rn := 0, fd := io.data, sock := hdr.2 } turns
      last) :
    ∃ n m : ℕ, type.1 = n ∧ hdr.1 = m ∧ ∀ ack, last.sock.sent =
      Schedule.stream { type := n, header := m, turns := turns, ack := ack }
        (memOf header io.heap) := by
  have hone : 1 < 2 ^ 31 := by decide
  have hsize := RequestPutObject.size_lt
  obtain ⟨n, hn, hle, htypeSent⟩ := sendN_counted hone htype
  obtain ⟨m, hm, -, hhdrSent⟩ := sendN_counted hsize hhdr
  refine ⟨n, m, hn, hm, ?_⟩
  intro ack
  rw [memBytes_memOf_take _ _ hle, hfresh, List.nil_append] at htypeSent
  rw [hturns.sent_eq, hhdrSent, htypeSent]
  rfl

/-- **What a call returns, in terms of its schedule.** -/
theorem follows_of_run {r : ℤ × Option Sink × List (ℤ × Bytes)} (h : call.run = .ok r) :
    ∃ sched, call.Follows sched ∧ call.Returns sched r := by
  by_cases hidle : call.sock = none ∨ call.io.stSize = none ∨ call.path = .null
  · exact ⟨_, follows_of_idle hidle h⟩
  rw [not_or, not_or] at hidle
  obtain ⟨hsock, hstat, hpath⟩ := hidle
  obtain ⟨sk, hsock⟩ := Option.ne_none_iff_exists'.1 hsock
  obtain ⟨stSize, hstat⟩ := Option.ne_none_iff_exists'.1 hstat
  obtain rfl := call.stSize_eq stSize hstat
  have hackSize := ResponseAck.size_lt
  simp only [run, requestPutObjectInit, hsock, hstat, if_neg hpath] at h
  cases hrun : putObjectSend call.io call.content.length call.path call.setName sk with
  | error e =>
      rw [hrun] at h
      cases h
  | ok r' =>
      rw [hrun] at h
      cases h
      obtain ⟨⟨_, sk₁⟩, header, ⟨_, sk₂⟩, turns, last, htype, hheader, hhdr, hturns, hzero,
        hnone⟩ := putObjectSend_ok hrun
      obtain ⟨type, hdr, rfl, rfl, hstream⟩ :=
        sent_of_calls (call.sock_sent sk hsock) htype hhdr hturns
      have hfile := hturns.file_eq call.data_eq
      have hsame : ∀ header', call.header = .ok header' → header = header' := by
        intro header' hheader'
        rw [PutObjectCall.header, hheader] at hheader'
        exact Except.ok.inj hheader'
      by_cases hz : ∃ turn ∈ turns, turn.2 = 0
      -- 0 is returned, and the response was read from what is left of the file
      · obtain ⟨ack, hack, rfl⟩ := hzero hz
        obtain ⟨a, ha, hfill, -⟩ := readFd_took hfile hackSize call.ack hack
        refine ⟨⟨type, hdr, turns, a⟩, .calls hsock hstat hpath htype hheader hhdr hturns ?_, ?_,
          ?_, fun hnot => absurd hz hnot⟩
        · rw [AckRead, if_pos hz]
          exact ⟨ack.2.1, ack.2.2, by rw [hack, ← ha]⟩
        · intro header' hheader'
          obtain rfl := hsame header' hheader'
          exact hstream _
        · intro _
          exact ⟨rfl, hfill⟩
      · obtain rfl := hnone hz
        refine ⟨⟨type, hdr, turns, 0⟩, .calls hsock hstat hpath htype hheader hhdr hturns ?_, ?_,
          fun hzero => absurd hzero hz, fun _ => ⟨rfl, rfl⟩⟩
        · rw [AckRead, if_neg hz]
        · intro header' hheader'
          obtain rfl := hsame header' hheader'
          exact hstream _

/-- Everything was sent exactly when the schedule let it through. -/
theorem Returns.complete_iff {sched : Schedule} {r : ℤ × Option Sink × List (ℤ × Bytes)}
    (h : call.Returns sched r) : call.Complete (sentBytes (.ok r)) ↔ call.LetThrough sched := by
  constructor
  · rintro ⟨header, hheader, hpre⟩
    exact ⟨header, hheader, h.sent_eq header hheader ▸ hpre⟩
  · rintro ⟨header, hheader, hpre⟩
    exact ⟨header, hheader, (h.sent_eq header hheader).symm ▸ hpre⟩

/-- A run in which `write_n` returns 0 is right when the file happened to be in the memory that was
sent, and the response in the file. -/
theorem Returns.statusRight_of_zero {sched : Schedule} {r : ℤ × Option Sink × List (ℤ × Bytes)}
    (h : call.Returns sched r) (hz : sched.HitsZero) :
    call.StatusRight r ↔ call.LetThrough sched ∧ call.FileAnswers sched := by
  obtain ⟨hstatus, hfill⟩ := h.of_zero hz
  rw [← h.complete_iff, FileAnswers, ← hfill]
  constructor
  · intro hright
    exact ⟨hright.zero_iff.1 hstatus, hright.filled hstatus⟩
  · rintro ⟨hcomplete, hanswer⟩
    exact ⟨iff_of_true hstatus hcomplete, fun hne => absurd hstatus hne, fun _ => hanswer⟩

/-- Any other run is right when not everything was sent. -/
theorem Returns.statusRight_of_not_zero {sched : Schedule}
    {r : ℤ × Option Sink × List (ℤ × Bytes)} (h : call.Returns sched r) (hz : ¬ sched.HitsZero) :
    call.StatusRight r ↔ ¬ call.LetThrough sched := by
  obtain ⟨hstatus, hstores⟩ := h.of_not_zero hz
  have hne : r.1 ≠ 0 := by omega
  rw [← h.complete_iff]
  constructor
  · intro hright hcomplete
    exact hne (hright.zero_iff.2 hcomplete)
  · intro hnot
    exact ⟨iff_of_false hne hnot, fun _ => hstores, fun hzero => absurd hzero hne⟩

end PutObjectCall

/-- **The status is right exactly under these schedules**: a call to `write_n` in the loop returns
0, and the memory that was let through happened to be the header and the file, and the rest of the
file the response; or no call returns 0, and it was not. -/
theorem putObject_statusRight_iff (call : PutObjectCall)
    {r : ℤ × Option Sink × List (ℤ × Bytes)} (h : call.run = .ok r) :
    (∃ sched, call.Follows sched) ∧ ∀ sched, call.Follows sched →
      (call.StatusRight r ↔
        sched.HitsZero ∧ call.LetThrough sched ∧ call.FileAnswers sched ∨
          ¬ sched.HitsZero ∧ ¬ call.LetThrough sched) := by
  obtain ⟨sched, hfollows, hreturns⟩ := call.follows_of_run h
  refine ⟨⟨sched, hfollows⟩, ?_⟩
  intro sched' hfollows'
  obtain rfl := hfollows.unique hfollows'
  by_cases hz : sched.HitsZero
  · rw [hreturns.statusRight_of_zero hz]
    simp [hz]
  · rw [hreturns.statusRight_of_not_zero hz]
    simp [hz]

/-- The file `f` with the content `hi`, put into the set `s` over a socket that fails after the
header. -/
def cutHi : PutObjectCall where
  io := putHi.io
  path := .mem (CString.cstr putHi.path)
  setName := .mem (CString.cstr putHi.set.name)
  sock := some { answers := [.accept 0, .accept 551, .fail], sent := [] }
  content := putHi.content
  ack := List.replicate ResponseAck.size 255
  response := 0 :: 115 :: List.replicate (ResponseAck.size - 2) 0
  sock_sent := by
    intro sk hsk
    cases hsk
    rfl
  stSize_eq := by
    intro n hn
    exact (Option.some.inj hn).symm
  data_eq := by
    intro src hsrc
    cases hsrc
    rfl
  ack_length := List.length_replicate
  response_length := by
    rw [List.length_cons, List.length_cons, List.length_replicate]
    exact Nat.le_refl _

theorem md5File_putHi : ∃ digest, md5File putHi.md5 (some putHi.hashed.source)
    (List.replicate bucketObjectUidSz 0 ++ putHi.frame) = .ok digest := by
  have hok : (md5File putHi.md5 (some putHi.hashed.source)
      (List.replicate bucketObjectUidSz 0 ++ putHi.frame)).isOk = true := by decide +kernel
  revert hok
  cases md5File putHi.md5 (some putHi.hashed.source)
      (List.replicate bucketObjectUidSz 0 ++ putHi.frame) with
  | error f =>
      intro hok
      cases hok
  | ok digest =>
      intro _
      exact ⟨digest, rfl⟩

/-- What is handed over in this call. -/
def cutHiSent : Bytes := RequestType.putObject.toUInt8 :: headerBytes [102] [115] 2

/-- The call returns 0 after the header. -/
theorem cutHi_run : cutHi.run = .ok (0, some { answers := [], sent := cutHiSent }, []) := by
  have htype := sendN_accept 1 0 (by decide) (by decide) (by decide)
    [.accept 551, .fail] [] (memOf [RequestType.putObject.toUInt8] fun _ => 0)
  have hheader : requestHeader 2 cutHi.path cutHi.setName = .ok (headerBytes [102] [115] 2) :=
    requestHeader_eq putHi.noNul putHi.short putHi.set 2
  have hlen : (headerBytes [102] [115] 2).length = RequestPutObject.size :=
    length_headerBytes putHi.short setS 2
  obtain ⟨digest, hdigest⟩ := md5File_putHi
  have hhdr := sendN_accept RequestPutObject.size 551 (by decide) (by decide) (by decide)
    [.fail] [RequestType.putObject.toUInt8]
    (memOf (headerBytes [102] [115] 2) putHi.heap)
  have hread : readFd (some putHi.data.source) requestReadBufferLength =
      .ok ((2 : ℕ), [(0, [104, 105])], some { arrivals := [], ended := true }) := by decide +kernel
  have hwrite := sendN_fail requestReadBufferLength (by decide) [] cutHiSent
    (memOf (headerBytes [102] [115] 2) putHi.heap)
  have hack : readFd (some { arrivals := [], ended := true }) ResponseAck.size =
      .ok (0, [], some { arrivals := [], ended := true }) := by decide +kernel
  rw [← hlen, Utils.memBytes_memOf, hlen] at hhdr
  have hsend : putObjectSend cutHi.io 2 cutHi.path cutHi.setName
      { answers := [.accept 0, .accept 551, .fail], sent := [] } =
      .ok (0, { answers := [], sent := cutHiSent }, []) := by
    refine sending_bind_eq_ok.2 ⟨_, htype, ?_⟩
    refine sending_bind_eq_ok.2 ⟨_, keeping_eq_ok.2 hheader, ?_⟩
    refine sending_bind_eq_ok.2 ⟨_, keeping_eq_ok.2 hdigest, ?_⟩
    refine sending_bind_eq_ok.2 ⟨_, hhdr, ?_⟩
    have hlt : (0 : ℕ) < 2 := by decide
    -- the only turn reads the file, and then cannot write
    have hturn := sendTurn_eq (w := 0)
      (s := { rn := 0, fd := some putHi.data.source,
              sock := { answers := [.fail], sent := cutHiSent } }) hlt hread hwrite
    refine sending_bind_eq_ok.2 ⟨_, congrArg (Option.getD · _) (Loop.run_done hturn), ?_⟩
    refine sending_bind_eq_ok.2 ⟨_, keeping_eq_ok.2 hack, ?_⟩
    rfl
  have hnull : cutHi.path ≠ .null := CharPtr.noConfusion
  have hsock : cutHi.sock = some { answers := [.accept 0, .accept 551, .fail], sent := [] } := rfl
  have hstat : cutHi.io.stSize = some 2 := rfl
  simp only [PutObjectCall.run, requestPutObjectInit, hsock, hstat, if_neg hnull, hsend]
  rfl

/-- The status of this call is wrong: nothing of the file was sent. -/
theorem cutHi_not_statusRight : ∃ r, cutHi.run = .ok r ∧ ¬ cutHi.StatusRight r := by
  refine ⟨_, cutHi_run, ?_⟩
  intro hright
  obtain ⟨header, hheader, hpre⟩ := hright.zero_iff.1 rfl
  have hlen : header.length = RequestPutObject.size := by
    have heq := requestHeader_eq putHi.noNul putHi.short putHi.set putHi.content.length
    rw [PutObjectCall.header] at hheader
    obtain rfl := Except.ok.inj (hheader.symm.trans heq)
    exact length_headerBytes putHi.short putHi.set _
  have hall : cutHiSent.length = RequestPutObject.size + 1 :=
    congrArg (· + 1) (length_headerBytes putHi.short setS 2)
  have hle := hpre.length_le
  have hsent : sentBytes (.ok ((0 : ℤ), some ({ answers := [], sent := cutHiSent } : Sink), [])) =
      cutHiSent := rfl
  rw [hsent, List.length_cons, List.length_append, hlen, hall] at hle
  have hcontent : cutHi.content.length = 2 := rfl
  omega

/-- The theorem for this call. -/
theorem putObject_statusRight_iff_cutHi :
    (∃ sched, cutHi.Follows sched) ∧ ∀ sched, cutHi.Follows sched →
      (cutHi.StatusRight (0, some { answers := [], sent := cutHiSent }, []) ↔
        sched.HitsZero ∧ cutHi.LetThrough sched ∧ cutHi.FileAnswers sched ∨
          ¬ sched.HitsZero ∧ ¬ cutHi.LetThrough sched) :=
  putObject_statusRight_iff cutHi cutHi_run
