/-
**The threads that take up connections.**

For every client `accept_cb` allocates an `ev_thread`, starts a thread, hands it the address of its
own local variable, and returns.  The thread makes a watcher for the client's socket and gives it to
the event loop; then it frees the `ev_thread`, frees the watcher that the loop goes on using, and
reads the `ev_thread` once more.  The watcher is a `struct ev_io`, and `read_cb` looks for the store
behind its end.

Every statement of a thread is a step of its own, and the steps of the threads and of the event
loop come in any order; that a thread and the loop may change the list of watchers at the same
moment is left out.  The loop looks at the watchers it was given whenever it likes, until they are
stopped, which nobody does.  `pthread_create` stores the thread's identifier before the thread runs.

Main definitions:

* `EvThread`, `EvIo`, `Block` — what the blocks of memory hold;
* `Pc`, `threadTurn` — `netsocket_do_request`, one statement at a time;
* `acceptCb`, `clientCtx` — `accept_cb`, and the first line of `read_cb`;
* `Net`, `NetEvent`, `netStep` — the whole;
* `Meter`, `meterStep` — how far each thread has come, and which of them started a watcher.

Main results:

* `Meters.step` — the meter shows where the memory is misused;
* `net_never_serves` — **no thread comes to its end, and no client is served**;
* `net_defined_iff` — **in which orders of the steps no memory is misused**.
-/

import SdsStorage.Heap
import SdsStorage.LinkedList
import Mathlib.Data.List.Forall2
import Mathlib.Logic.Function.Basic

set_option relaxedAutoImplicit false
set_option autoImplicit false

/-! ### Blocks -/

/-- `ev_thread`. -/
structure EvThread where
  fd : ℤ
  tid : ℕ
  ew : Addr
  loop : Addr

/-- `struct ev_io`, as `ev_io_init` and `ev_io_start` fill it in. -/
structure EvIo where
  fd : ℤ
  active : Bool

/-- What a block of memory holds. -/
inductive Block where
  /-- What `malloc` leaves of a `struct ev_io`. -/
  | raw
  | evThread (e : EvThread)
  | evIo (io : EvIo)
  /-- `ev_io_watcher`: the store's address lies behind the `struct ev_io`. -/
  | evIoWatcher (io : EvIo) (ctx : Addr)
  /-- The variable `e_thd` of a call of `accept_cb`. -/
  | eThd (e : Option Addr)

/-- The variable `e_thd` through its address. -/
def loadArg (h : Heap Block) (arg : Addr) : Outcome (Option Addr) :=
  (h.load arg).bind fun b =>
    match b with
    | .eThd e => .ok e
    | _ => .error .wild

/-- An `ev_thread` through a pointer to it. -/
def loadEvThread (h : Heap Block) : Option Addr → Outcome EvThread
  | none => .error .nullDeref
  | some p => (h.load p).bind fun b =>
      match b with
      | .evThread e => .ok e
      | _ => .error .wild

/-- `free` of a pointer to an `ev_thread`, which may be null. -/
def freeThreadPtr (h : Heap Block) : Option Addr → Outcome (Heap Block)
  | none => .ok h
  | some p => h.free p

/-! ### The thread of a connection -/

/-- Where `netsocket_do_request` is, with its local variables. -/
inductive Pc where
  /-- `if (ev_thd_ptr != NULL && *ev_thd_ptr != NULL)`. -/
  | check
  /-- `ev_thd = (*ev_thd_ptr)`. -/
  | fetch
  /-- `w_client = malloc(sizeof(struct ev_io))`. -/
  | allocate (evThd : Option Addr)
  /-- `ev_io_init(w_client, read_cb, ev_thd->fd, EV_READ)`. -/
  | initWatcher (evThd : Option Addr) (wClient : Addr)
  /-- `ev_io_start(ev_thd->loop, w_client)`. -/
  | startWatcher (evThd : Option Addr) (wClient : Addr)
  /-- `free(*ev_thd_ptr)`, in `ev_thread_destroy`. -/
  | freeThread (evThd : Option Addr) (wClient : Addr)
  /-- `*ev_thd_ptr = NULL`, in `ev_thread_destroy`. -/
  | clearArg (evThd : Option Addr) (wClient : Addr)
  /-- `free(w_client)`. -/
  | freeWatcher (evThd : Option Addr) (wClient : Addr)
  /-- `pthread_detach(ev_thd->tid)`. -/
  | detach (evThd : Option Addr)
  | finished
  deriving DecidableEq

/-- The watcher that was started and is still to be freed. -/
def Pc.watcher : Pc → Option Addr
  | .freeThread _ w => some w
  | .clearArg _ w => some w
  | .freeWatcher _ w => some w
  | _ => none

/-- A thread: the address it was handed, and where it is. -/
structure Thread where
  arg : Addr
  pc : Pc

/-- One statement of `netsocket_do_request`: the memory, the watchers the loop was given, and the
next statement. -/
def threadTurn (h : Heap Block) (arg : Addr) :
    Pc → Outcome (Heap Block × List Addr × Pc)
  | .check => do
      let e ← loadArg h arg
      .ok (h, [], if e = none then .finished else .fetch)
  | .fetch => do
      let e ← loadArg h arg
      .ok (h, [], .allocate e)
  | .allocate e => .ok ((h.alloc .raw).1, [], .initWatcher e (h.alloc .raw).2)
  | .initWatcher e w => do
      let thd ← loadEvThread h e
      let h ← h.store w (.evIo { fd := thd.fd, active := false })
      .ok (h, [], .startWatcher e w)
  | .startWatcher e w => do
      let thd ← loadEvThread h e
      let h ← h.store w (.evIo { fd := thd.fd, active := true })
      .ok (h, [w], .freeThread e w)
  | .freeThread e w => do
      let thd ← loadArg h arg
      let h ← freeThreadPtr h thd
      .ok (h, [], .clearArg e w)
  | .clearArg e w => do
      let h ← h.store arg (.eThd none)
      .ok (h, [], .freeWatcher e w)
  | .freeWatcher e w => do
      let h ← h.free w
      .ok (h, [], .detach e)
  | .detach e => do
      let _ ← loadEvThread h e
      .ok (h, [], .finished)
  | .finished => .ok (h, [], .finished)

/-! ### The whole -/

/-- The memory, the variable of the call of `accept_cb` that has not returned, the threads, and the
watchers of clients that the loop was given. -/
structure Net where
  heap : Heap Block
  frame : Option Addr
  threads : List Thread
  watchers : List Addr

/-- The server at its start: the watcher of the listening socket is at the address 0. -/
def Net.start (sock : ℤ) (ctx : Addr) : Net where
  heap := { blocks := [some (.evIoWatcher { fd := sock, active := true } ctx)] }
  frame := none
  threads := []
  watchers := []

/-- `ev_thread_create`. -/
def evThreadCreate (h : Heap Block) (fd : ℤ) (ew loop : Addr) : Heap Block × Addr :=
  h.alloc (.evThread { fd := fd, tid := 0, ew := ew, loop := loop })

/-- `accept_cb` up to its return, which is a step of its own; `fd` is what `accept` returns. -/
def acceptCb (n : Net) (evError : Bool) (fd : ℤ) : Outcome Net :=
  if evError ∨ fd < 0 then .ok n
  else do
    let made := evThreadCreate n.heap fd 0 0
    let var := made.1.alloc (.eThd (some made.2))
    let thd ← loadEvThread var.1 (some made.2)
    let h ← var.1.store made.2 (.evThread { thd with tid := n.threads.length })
    .ok { n with heap := h, frame := some var.2,
                 threads := n.threads ++ [{ arg := var.2, pc := .check }] }

/-- `st = eiw->ctx`, the first thing `read_cb` does with its watcher. -/
def clientCtx (h : Heap Block) (w : Addr) : Outcome Addr :=
  (h.load w).bind fun b =>
    match b with
    | .evIoWatcher _ ctx => .ok ctx
    -- the block ends with its `struct ev_io`
    | _ => .error .overread

/-- A watcher as the loop sees it: a `struct ev_io`, perhaps with something behind it. -/
def loadWatcher (h : Heap Block) (w : Addr) : Outcome EvIo :=
  (h.load w).bind fun b =>
    match b with
    | .evIo io => .ok io
    | .evIoWatcher io _ => .ok io
    | _ => .error .wild

/-- What happens next. -/
inductive NetEvent where
  /-- The loop calls `accept_cb`. -/
  | accept (evError : Bool) (fd : ℤ)
  /-- `accept_cb` returns. -/
  | ret
  /-- A thread takes a step. -/
  | turn (i : ℕ)
  /-- The loop looks at one of the watchers it was given. -/
  | look (i : ℕ)
  /-- The loop calls `read_cb` with one of the watchers it was given. -/
  | ready (i : ℕ)

/-- One step; the loop goes on only when the last call it made has returned. -/
def netStep (n : Net) : NetEvent → Outcome Net
  | .accept evError fd => if n.frame = none then acceptCb n evError fd else .ok n
  | .ret =>
      match n.frame with
      | none => .ok n
      | some a => do
          let h ← n.heap.free a
          .ok { n with heap := h, frame := none }
  | .turn i =>
      match n.threads[i]? with
      | none => .ok n
      | some th => do
          let r ← threadTurn n.heap th.arg th.pc
          .ok { n with heap := r.1, watchers := n.watchers ++ r.2.1,
                       threads := n.threads.set i { th with pc := r.2.2 } }
  | .look i =>
      match n.watchers[i]? with
      | none => .ok n
      | some w =>
          if n.frame = none then do
            let _ ← loadWatcher n.heap w
            .ok n
          else .ok n
  | .ready i =>
      match n.watchers[i]? with
      | none => .ok n
      | some w =>
          if n.frame = none then do
            let _ ← clientCtx n.heap w
            .ok n
          else .ok n

/-! ### The meter -/

/-- How many statements each thread has made, which threads gave the loop a watcher, and whether a
call of `accept_cb` has not returned. -/
structure Meter where
  busy : Bool
  turns : List ℕ
  started : List ℕ
  deriving DecidableEq

/-- Nothing has happened. -/
def Meter.start : Meter := { busy := false, turns := [], started := [] }

/-- The statement that comes after `c` others accesses the variable of `accept_cb`. -/
def UsesFrame (c : ℕ) : Prop := c = 0 ∨ c = 1 ∨ c = 5 ∨ c = 6

instance (c : ℕ) : Decidable (UsesFrame c) := inferInstanceAs (Decidable (_ ∨ _))

/-- The statement of a thread that comes after `c` others is defined: it is not the last, and the
variable is still there if it is accessed. -/
def TurnDefined (m : Meter) (i c : ℕ) : Prop :=
  c < 8 ∧ (UsesFrame c → m.busy = true ∧ i + 1 = m.turns.length)

instance (m : Meter) (i c : ℕ) : Decidable (TurnDefined m i c) :=
  inferInstanceAs (Decidable (_ ∧ _))

/-- The thread that gave the loop this watcher has made the statement that frees it. -/
def WatcherGone (m : Meter) (i : ℕ) : Prop := (m.started[i]?.bind fun t => m.turns[t]?) = some 8

instance (m : Meter) (i : ℕ) : Decidable (WatcherGone m i) :=
  inferInstanceAs (Decidable (_ = _))

/-- One step, of which the meter keeps account; there is none where something undefined happens. -/
def meterStep (m : Meter) : NetEvent → Option Meter
  | .accept evError fd =>
      if m.busy = true ∨ evError ∨ fd < 0 then some m
      else some { m with busy := true, turns := m.turns ++ [0] }
  | .ret => some { m with busy := false }
  | .turn i =>
      match m.turns[i]? with
      | none => some m
      | some c =>
          if TurnDefined m i c then
            some { m with turns := m.turns.set i (c + 1),
                          started := if c = 4 then m.started ++ [i] else m.started }
          else none
  | .look i => if m.busy = false ∧ WatcherGone m i then none else some m
  | .ready i => if m.busy = false ∧ i < m.started.length then none else some m

/-! ### Where a thread is -/

section

variable {h h' : Heap Block} {own : Addr → Prop}

/-- What is in memory when a thread has made `c` statements: `p` is its `ev_thread`. -/
inductive Stage (h : Heap Block) (own : Addr → Prop) (p : Addr) : Pc → ℕ → Prop
  | check {e : EvThread} (hp : h.Holds p (.evThread e)) : Stage h own p .check 0
  | fetch {e : EvThread} (hp : h.Holds p (.evThread e)) : Stage h own p .fetch 1
  | allocate {e : EvThread} (hp : h.Holds p (.evThread e)) : Stage h own p (.allocate (some p)) 2
  | initWatcher {e : EvThread} {w : Addr} (hp : h.Holds p (.evThread e)) (hown : own w)
      (hw : h.Holds w .raw) : Stage h own p (.initWatcher (some p) w) 3
  | startWatcher {e : EvThread} {w : Addr} {io : EvIo} (hp : h.Holds p (.evThread e))
      (hown : own w) (hw : h.Holds w (.evIo io)) : Stage h own p (.startWatcher (some p) w) 4
  | freeThread {e : EvThread} {w : Addr} {io : EvIo} (hp : h.Holds p (.evThread e))
      (hown : own w) (hw : h.Holds w (.evIo io)) : Stage h own p (.freeThread (some p) w) 5
  | clearArg {w : Addr} {io : EvIo} (hp : h.Freed p) (hown : own w)
      (hw : h.Holds w (.evIo io)) : Stage h own p (.clearArg (some p) w) 6
  | freeWatcher {w : Addr} {io : EvIo} (hp : h.Freed p) (hown : own w)
      (hw : h.Holds w (.evIo io)) : Stage h own p (.freeWatcher (some p) w) 7
  | detach (hp : h.Freed p) : Stage h own p (.detach (some p)) 8

/-- What the variable a thread was handed the address of holds while it is there: the address of the
`ev_thread`, until the thread clears it. -/
def ArgHolds (h : Heap Block) (arg p : Addr) (c : ℕ) : Prop :=
  ∃ e, h.Holds arg (.eThd e) ∧ (c ≤ 6 → e = some p)

/-- A thread that has made `c` statements, in a memory where `own` says which blocks are its own;
`alive` says whether its call of `accept_cb` has not returned. -/
structure Thread.At (h : Heap Block) (own : Addr → Prop) (alive : Prop) (th : Thread) (p : Addr)
    (c : ℕ) : Prop where
  stage : Stage h own p th.pc c
  own_p : own p
  own_arg : own th.arg
  held : alive → ArgHolds h th.arg p c
  returned : ¬ alive → h.Freed th.arg

/-- What is said of the blocks for which `own` holds is still true. -/
structure Keeps (own : Addr → Prop) (h h' : Heap Block) : Prop where
  holds : ∀ q b, own q → h.Holds q b → h'.Holds q b
  freed : ∀ q, own q → h.Freed q → h'.Freed q

theorem Keeps.alloc (own : Addr → Prop) (h : Heap Block) (b : Block) :
    Keeps own h (h.alloc b).1 where
  holds _ _ _ hq := hq.alloc b
  freed _ _ hq := Heap.freed_alloc hq b

theorem Keeps.trans {h'' : Heap Block} (hk : Keeps own h h') (hk' : Keeps own h' h'') :
    Keeps own h h'' where
  holds q b hq hh := hk'.holds q b hq (hk.holds q b hq hh)
  freed q hq hh := hk'.freed q hq (hk.freed q hq hh)

theorem Keeps.store {p : Addr} {b : Block} (hp : ¬ own p) (hs : h.store p b = .ok h') :
    Keeps own h h' where
  holds q b' hq hh := by
    have hne : q ≠ p := fun hqp => hp (hqp ▸ hq)
    rwa [Heap.holds_store_iff hs, if_neg hne]
  freed q _ hh := Heap.freed_store hh hs

theorem Keeps.free {p : Addr} (hp : ¬ own p) (hf : h.free p = .ok h') : Keeps own h h' where
  holds q b hq hh := by
    have hne : q ≠ p := fun hqp => hp (hqp ▸ hq)
    exact (Heap.holds_free_iff hf).2 ⟨hne, hh⟩
  freed q _ hh := Heap.freed_free hh hf

theorem Keeps.refl (own : Addr → Prop) (h : Heap Block) : Keeps own h h where
  holds _ _ _ hh := hh
  freed _ _ hh := hh

theorem Stage.keeps {p : Addr} {pc : Pc} {c : ℕ} (hs : Stage h own p pc c) (hp : own p)
    (hk : Keeps own h h') : Stage h' own p pc c := by
  cases hs with
  | check hp' => exact .check (hk.holds _ _ hp hp')
  | fetch hp' => exact .fetch (hk.holds _ _ hp hp')
  | allocate hp' => exact .allocate (hk.holds _ _ hp hp')
  | initWatcher hp' ho hw => exact .initWatcher (hk.holds _ _ hp hp') ho (hk.holds _ _ ho hw)
  | startWatcher hp' ho hw => exact .startWatcher (hk.holds _ _ hp hp') ho (hk.holds _ _ ho hw)
  | freeThread hp' ho hw => exact .freeThread (hk.holds _ _ hp hp') ho (hk.holds _ _ ho hw)
  | clearArg hp' ho hw => exact .clearArg (hk.freed _ hp hp') ho (hk.holds _ _ ho hw)
  | freeWatcher hp' ho hw => exact .freeWatcher (hk.freed _ hp hp') ho (hk.holds _ _ ho hw)
  | detach hp' => exact .detach (hk.freed _ hp hp')

/-- No stage says anything of the variable. -/
theorem Stage.free_arg {p a : Addr} {e : Option Addr} {pc : Pc} {c : ℕ} (hs : Stage h own p pc c)
    (ha : h.Holds a (.eThd e)) (hf : h.free a = .ok h') : Stage h' own p pc c := by
  have hk : ∀ {q b}, h.Holds q b → (∀ e, b ≠ .eThd e) → h'.Holds q b := by
    intro q b hq hb
    refine (Heap.holds_free_iff hf).2 ⟨?_, hq⟩
    rintro rfl
    exact hb e (hq.unique ha)
  cases hs with
  | check hp => exact .check (hk hp fun _ => Block.noConfusion)
  | fetch hp => exact .fetch (hk hp fun _ => Block.noConfusion)
  | allocate hp => exact .allocate (hk hp fun _ => Block.noConfusion)
  | initWatcher hp ho hw =>
      exact .initWatcher (hk hp fun _ => Block.noConfusion) ho (hk hw fun _ => Block.noConfusion)
  | startWatcher hp ho hw =>
      exact .startWatcher (hk hp fun _ => Block.noConfusion) ho (hk hw fun _ => Block.noConfusion)
  | freeThread hp ho hw =>
      exact .freeThread (hk hp fun _ => Block.noConfusion) ho (hk hw fun _ => Block.noConfusion)
  | clearArg hp ho hw =>
      exact .clearArg (Heap.freed_free hp hf) ho (hk hw fun _ => Block.noConfusion)
  | freeWatcher hp ho hw =>
      exact .freeWatcher (Heap.freed_free hp hf) ho (hk hw fun _ => Block.noConfusion)
  | detach hp => exact .detach (Heap.freed_free hp hf)

/-- What other parties do to their own blocks leaves a thread where it is. -/
theorem Thread.At.keeps {alive : Prop} {th : Thread} {p : Addr} {c : ℕ}
    (ht : th.At h own alive p c) (hk : Keeps own h h') : th.At h' own alive p c where
  stage := ht.stage.keeps ht.own_p hk
  own_p := ht.own_p
  own_arg := ht.own_arg
  held ha := by
    obtain ⟨e, he, hp⟩ := ht.held ha
    exact ⟨e, hk.holds _ _ ht.own_arg he, hp⟩
  returned ha := hk.freed _ ht.own_arg (ht.returned ha)

/-! ### One statement -/

theorem loadArg_of_holds {arg : Addr} {e : Option Addr} (ha : h.Holds arg (.eThd e)) :
    loadArg h arg = .ok e := by
  rw [loadArg, ha.load]
  rfl

theorem loadArg_of_freed {arg : Addr} (ha : h.Freed arg) : loadArg h arg = .error .wild := by
  rw [loadArg, ha.load]
  rfl

theorem loadEvThread_of_holds {p : Addr} {e : EvThread} (hp : h.Holds p (.evThread e)) :
    loadEvThread h (some p) = .ok e := by
  rw [loadEvThread, hp.load]
  rfl

theorem loadEvThread_of_freed {p : Addr} (hp : h.Freed p) :
    loadEvThread h (some p) = .error .wild := by
  rw [loadEvThread, hp.load]
  rfl

/-- A watcher of a client: a `struct ev_io`, or what was one. -/
def ClientWatcher (h : Heap Block) (w : Addr) : Prop :=
  (∃ io, h.Holds w (.evIo io)) ∨ h.Freed w

theorem ClientWatcher.alloc {w : Addr} (hw : ClientWatcher h w) (b : Block) :
    ClientWatcher (h.alloc b).1 w := by
  rcases hw with ⟨io, hio⟩ | hfreed
  · exact Or.inl ⟨io, hio.alloc b⟩
  · exact Or.inr (Heap.freed_alloc hfreed b)

/-- A store into a block that is not a watcher, or of a watcher, leaves watchers. -/
theorem ClientWatcher.store {w p : Addr} {b : Block} (hw : ClientWatcher h w)
    (hp : (∃ io, b = .evIo io) ∨ ∀ io, ¬ h.Holds p (.evIo io)) (hs : h.store p b = .ok h') :
    ClientWatcher h' w := by
  rcases hw with ⟨io, hio⟩ | hfreed
  · by_cases hwp : w = p
    · rcases hp with ⟨io', rfl⟩ | hnot
      · exact Or.inl ⟨io', by rw [Heap.holds_store_iff hs, if_pos hwp]⟩
      · exact absurd (hwp ▸ hio) (hnot io)
    · exact Or.inl ⟨io, by rwa [Heap.holds_store_iff hs, if_neg hwp]⟩
  · exact Or.inr (Heap.freed_store hfreed hs)

theorem ClientWatcher.free {w p : Addr} (hw : ClientWatcher h w) (hf : h.free p = .ok h') :
    ClientWatcher h' w := by
  rcases hw with ⟨io, hio⟩ | hfreed
  · by_cases hwp : w = p
    · exact Or.inr (hwp ▸ Heap.freed_free_self hf)
    · exact Or.inl ⟨io, (Heap.holds_free_iff hf).2 ⟨hwp, hio⟩⟩
  · exact Or.inr (Heap.freed_free hfreed hf)

/-- **`read_cb` never gets to the store**: there is nothing behind the watcher of a client. -/
theorem ClientWatcher.no_ctx {w : Addr} (hw : ClientWatcher h w) :
    ∃ f, clientCtx h w = .error f ∧ f.Undefined := by
  rcases hw with ⟨io, hio⟩ | hfreed
  · exact ⟨.overread, by rw [clientCtx, hio.load]; rfl, trivial⟩
  · exact ⟨.wild, by rw [clientCtx, hfreed.load]; rfl, trivial⟩

/-- What a statement that returns has done: the thread is one statement further, and has left alone
what is not its own. -/
structure TurnDone (h : Heap Block) (own : Addr → Prop) (alive : Prop) (arg p : Addr) (c : ℕ)
    (own' : Addr → Prop) (r : Heap Block × List Addr × Pc) : Prop where
  at_next : Thread.At r.1 own' alive { arg := arg, pc := r.2.2 } p (c + 1)
  mono : ∀ q, own q → own' q
  fresh : ∀ q : ℕ, own' q → own q ∨ h.blocks.length ≤ q
  bounded : ∀ q : ℕ, own' q → own q ∨ q < r.1.blocks.length
  length_le : h.blocks.length ≤ r.1.blocks.length
  keeps : ∀ other : Addr → Prop, (∀ q, other q → ¬ own q) → Keeps other h r.1
  clients : ∀ w, ClientWatcher h w → ClientWatcher r.1 w
  given : r.2.1.length = if c = 4 then 1 else 0
  given_client : ∀ w ∈ r.2.1, ClientWatcher r.1 w

/-- A statement that changes no memory. -/
theorem TurnDone.of_same {alive : Prop} {arg p : Addr} {c : ℕ} {pc : Pc}
    (hnext : Thread.At h own alive { arg := arg, pc := pc } p (c + 1)) (hc : c ≠ 4) :
    TurnDone h own alive arg p c own (h, [], pc) where
  at_next := hnext
  mono _ hq := hq
  fresh _ hq := Or.inl hq
  bounded _ hq := Or.inl hq
  length_le := Nat.le_refl _
  keeps _ _ := Keeps.refl _ h
  clients _ hw := hw
  given := by rw [if_neg hc]; rfl
  given_client w hw := by cases hw

theorem length_store {p : Addr} {b : Block} (hs : h.store p b = .ok h') :
    h'.blocks.length = h.blocks.length := by
  obtain ⟨-, rfl⟩ := Heap.store_ok hs
  exact List.length_set

theorem length_free {p : Addr} (hf : h.free p = .ok h') :
    h'.blocks.length = h.blocks.length := by
  obtain ⟨-, rfl⟩ := Heap.free_ok hf
  exact List.length_set

/-- A statement that stores into a block of its own. -/
theorem TurnDone.of_store {alive : Prop} {arg p q : Addr} {c : ℕ} {b : Block} {ws : List Addr}
    {pc : Pc} (hs : h.store q b = .ok h') (hq : own q)
    (hb : (∃ io, b = .evIo io) ∨ ∀ io, ¬ h.Holds q (.evIo io))
    (hnext : Thread.At h' own alive { arg := arg, pc := pc } p (c + 1))
    (hgiven : ws.length = if c = 4 then 1 else 0) (hclient : ∀ w ∈ ws, ClientWatcher h' w) :
    TurnDone h own alive arg p c own (h', ws, pc) where
  at_next := hnext
  mono _ hq := hq
  fresh _ hq := Or.inl hq
  bounded _ hq := Or.inl hq
  length_le := (length_store hs).ge
  keeps _ hother := Keeps.store (fun hq' => hother q hq' hq) hs
  clients _ hw := hw.store hb hs
  given := hgiven
  given_client := hclient

/-- A statement that frees a block of its own. -/
theorem TurnDone.of_free {alive : Prop} {arg p q : Addr} {c : ℕ} {pc : Pc}
    (hf : h.free q = .ok h') (hq : own q) (hc : c ≠ 4)
    (hnext : Thread.At h' own alive { arg := arg, pc := pc } p (c + 1)) :
    TurnDone h own alive arg p c own (h', [], pc) where
  at_next := hnext
  mono _ hq := hq
  fresh _ hq := Or.inl hq
  bounded _ hq := Or.inl hq
  length_le := (length_free hf).ge
  keeps other hother := Keeps.free (fun hq' => hother q hq' hq) hf
  clients _ hw := hw.free hf
  given := by rw [if_neg hc]; rfl
  given_client w hw := by cases hw

/-- A thread does not see its variable change while another of its blocks does. -/
theorem Thread.At.args {alive : Prop} {th : Thread} {p q : Addr} {c : ℕ}
    (ht : th.At h own alive p c) (hne : th.arg ≠ q)
    (hk : Keeps (fun a => a ≠ q) h h') :
    (alive → ArgHolds h' th.arg p c) ∧ (¬ alive → h'.Freed th.arg) := by
  constructor
  · intro ha
    obtain ⟨e, he, hp⟩ := ht.held ha
    exact ⟨e, hk.holds _ _ hne he, hp⟩
  · intro ha
    exact hk.freed _ hne (ht.returned ha)

/-- The variable of a thread is none of its other blocks. -/
theorem Thread.At.arg_ne {alive : Prop} {th : Thread} {p q : Addr} {c : ℕ} {b : Block}
    (ht : th.At h own alive p c) (hq : h.Holds q b) (hb : ∀ e, b ≠ .eThd e) : th.arg ≠ q := by
  intro heq
  by_cases ha : alive
  · obtain ⟨e, he, -⟩ := ht.held ha
    exact hb e ((heq ▸ hq).unique he)
  · exact (heq ▸ hq).not_freed (ht.returned ha)

/-- After a statement that asks for less, the variable still holds what it held. -/
theorem ArgHolds.succ {arg p : Addr} {c : ℕ} (ha : ArgHolds h arg p c) :
    ArgHolds h arg p (c + 1) := by
  obtain ⟨e, he, hp⟩ := ha
  exact ⟨e, he, fun hle => hp (by omega)⟩

/-- **One statement of a thread.**  It is defined exactly when it is not the last one and its
variable is there if it uses it; then the thread is one statement further. -/
theorem threadTurn_spec {alive : Prop} {th : Thread} {p : Addr} {c : ℕ}
    (ht : th.At h own alive p c) (hdef : c < 8 ∧ (UsesFrame c → alive)) :
    ∃ own' r, threadTurn h th.arg th.pc = .ok r ∧ TurnDone h own alive th.arg p c own' r := by
  obtain ⟨arg, pc⟩ := th
  obtain ⟨hlt, huse⟩ := hdef
  cases ht.stage with
  | check hp =>
      have halive := huse (Or.inl rfl)
      obtain ⟨e, he, heq⟩ := ht.held halive
      cases heq (Nat.zero_le 6)
      refine ⟨own, _, by rw [threadTurn, loadArg_of_holds he]; rfl, ?_⟩
      refine TurnDone.of_same ⟨.fetch hp, ht.own_p, ht.own_arg, ?_, ht.returned⟩ (by decide)
      exact fun ha => (ht.held ha).succ
  | fetch hp =>
      have halive := huse (Or.inr (Or.inl rfl))
      obtain ⟨e, he, heq⟩ := ht.held halive
      cases heq (by decide)
      refine ⟨own, _, by rw [threadTurn, loadArg_of_holds he]; rfl, ?_⟩
      refine TurnDone.of_same ⟨.allocate hp, ht.own_p, ht.own_arg, ?_, ht.returned⟩ (by decide)
      exact fun ha => (ht.held ha).succ
  | allocate hp =>
      have hk := Keeps.alloc own h .raw
      have hmono : ∀ q, own q → own q ∨ q = (h.alloc .raw).2 := fun q hq => Or.inl hq
      refine ⟨fun q => own q ∨ q = (h.alloc .raw).2, _, rfl, ?_⟩
      refine { at_next := ⟨?_, hmono _ ht.own_p, hmono _ ht.own_arg, ?_, ?_⟩, mono := hmono,
               fresh := ?_, bounded := ?_, length_le := ?_, keeps := ?_, clients := ?_,
               given := rfl, given_client := ?_ }
      · exact .initWatcher (hp.alloc .raw) (Or.inr rfl) (Heap.holds_alloc_self h .raw)
      · intro ha
        obtain ⟨e, he, heq⟩ := ht.held ha
        exact ArgHolds.succ ⟨e, he.alloc .raw, heq⟩
      · exact fun ha => hk.freed _ ht.own_arg (ht.returned ha)
      · rintro q (hq | rfl)
        · exact Or.inl hq
        · exact Or.inr (Nat.le_refl _)
      · rintro q (hq | rfl)
        · exact Or.inl hq
        · exact Or.inr (by simp [Heap.alloc])
      · simp [Heap.alloc]
      · exact fun other _ => Keeps.alloc other h .raw
      · exact fun w hw => hw.alloc .raw
      · intro w hw
        cases hw
  | @initWatcher e w hp hown hw =>
      have hs := hw.store (.evIo { fd := e.fd, active := false })
      have hne := ht.arg_ne hw (fun e h => by cases h)
      have hpw : p ≠ w := by
        rintro rfl
        cases hp.unique hw
      have hnew : ({ blocks := h.blocks.set w (some (.evIo { fd := e.fd, active := false })) } :
          Heap Block).Holds w (.evIo { fd := e.fd, active := false }) := by
        rw [Heap.holds_store_iff hs, if_pos rfl]
      obtain ⟨hheld, hret⟩ := ht.args hne (Keeps.store (fun h => h rfl) hs)
      refine ⟨own, _, by rw [threadTurn, loadEvThread_of_holds hp, Outcome.ok_bind, hs]; rfl, ?_⟩
      refine TurnDone.of_store hs hown (Or.inl ⟨_, rfl⟩)
        ⟨.startWatcher (e := e) ?_ hown hnew, ht.own_p, ht.own_arg, ?_, hret⟩ rfl
        (fun w hw => by cases hw)
      · rwa [Heap.holds_store_iff hs, if_neg hpw]
      · exact fun ha => (hheld ha).succ
  | @startWatcher e w io hp hown hw =>
      have hs := hw.store (.evIo { fd := e.fd, active := true })
      have hne := ht.arg_ne hw (fun e h => by cases h)
      have hpw : p ≠ w := by
        rintro rfl
        cases hp.unique hw
      have hnew : ({ blocks := h.blocks.set w (some (.evIo { fd := e.fd, active := true })) } :
          Heap Block).Holds w (.evIo { fd := e.fd, active := true }) := by
        rw [Heap.holds_store_iff hs, if_pos rfl]
      obtain ⟨hheld, hret⟩ := ht.args hne (Keeps.store (fun h => h rfl) hs)
      refine ⟨own, _, by rw [threadTurn, loadEvThread_of_holds hp, Outcome.ok_bind, hs]; rfl, ?_⟩
      refine TurnDone.of_store hs hown (Or.inl ⟨_, rfl⟩)
        ⟨.freeThread (e := e) ?_ hown hnew, ht.own_p, ht.own_arg, ?_, hret⟩ rfl ?_
      · rwa [Heap.holds_store_iff hs, if_neg hpw]
      · exact fun ha => (hheld ha).succ
      · intro w' hw'
        rw [List.mem_singleton.1 hw']
        exact Or.inl ⟨_, hnew⟩
  | @freeThread e w io hp hown hw =>
      have halive := huse (Or.inr (Or.inr (Or.inl rfl)))
      obtain ⟨x, hx, heq⟩ := ht.held halive
      cases heq (by decide)
      have hf := hp.free
      have hne := ht.arg_ne hp (fun e h => by cases h)
      have hwp : w ≠ p := by
        rintro rfl
        cases hp.unique hw
      have hkept : ({ blocks := h.blocks.set p none } : Heap Block).Holds w (.evIo io) :=
        (Heap.holds_free_iff hf).2 ⟨hwp, hw⟩
      obtain ⟨hheld, hret⟩ := ht.args hne (Keeps.free (fun h => h rfl) hf)
      refine ⟨own, _, by
        rw [threadTurn, loadArg_of_holds hx, Outcome.ok_bind, freeThreadPtr, hf]
        rfl, ?_⟩
      refine TurnDone.of_free hf ht.own_p (by decide)
        ⟨.clearArg (Heap.freed_free_self hf) hown hkept, ht.own_p, ht.own_arg, ?_, hret⟩
      exact fun ha => (hheld ha).succ
  | @clearArg w io hp hown hw =>
      have halive := huse (Or.inr (Or.inr (Or.inr rfl)))
      obtain ⟨x, hx, -⟩ := ht.held halive
      have hs := hx.store (.eThd none)
      have hwa : w ≠ arg := by
        rintro rfl
        cases hx.unique hw
      have hkept : ({ blocks := h.blocks.set arg (some (.eThd none)) } : Heap Block).Holds w
          (.evIo io) := by
        rwa [Heap.holds_store_iff hs, if_neg hwa]
      refine ⟨own, _, by rw [threadTurn, hs]; rfl, ?_⟩
      refine TurnDone.of_store hs ht.own_arg (Or.inr ?_)
        ⟨.freeWatcher (Heap.freed_store hp hs) hown hkept, ht.own_p, ht.own_arg, ?_, ?_⟩ rfl
        (fun w hw => by cases hw)
      · intro io' hio
        cases hx.unique hio
      · intro _
        refine ⟨none, ?_, fun hle => absurd hle (by decide)⟩
        rw [Heap.holds_store_iff hs, if_pos rfl]
      · exact fun ha => absurd halive ha
  | @freeWatcher w io hp hown hw =>
      have hf := hw.free
      have hne := ht.arg_ne hw (fun e h => by cases h)
      obtain ⟨hheld, hret⟩ := ht.args hne (Keeps.free (fun h => h rfl) hf)
      refine ⟨own, _, by rw [threadTurn, hf]; rfl, ?_⟩
      refine TurnDone.of_free hf hown (by decide)
        ⟨.detach (Heap.freed_free hp hf), ht.own_p, ht.own_arg, ?_, hret⟩
      exact fun ha => (hheld ha).succ
  | detach hp => exact absurd hlt (by decide)

/-- Elsewhere the statement is a use of memory that is not there any more. -/
theorem threadTurn_undefined {alive : Prop} {th : Thread} {p : Addr} {c : ℕ}
    (ht : th.At h own alive p c) (hdef : ¬ (c < 8 ∧ (UsesFrame c → alive))) :
    threadTurn h th.arg th.pc = .error .wild := by
  obtain ⟨arg, pc⟩ := th
  -- the variable is gone where it is used
  have hgone : c < 8 → loadArg h arg = .error .wild ∧ h.Freed arg ∧ UsesFrame c := by
    intro hlt
    have huse : ¬ (UsesFrame c → alive) := fun h => hdef ⟨hlt, h⟩
    have halive : ¬ alive := fun ha => huse fun _ => ha
    have hframe : UsesFrame c := by
      by_contra hno
      exact huse fun h => absurd h hno
    exact ⟨loadArg_of_freed (ht.returned halive), ht.returned halive, hframe⟩
  cases ht.stage with
  | check hp => rw [threadTurn, (hgone (by decide)).1]; rfl
  | fetch hp => rw [threadTurn, (hgone (by decide)).1]; rfl
  | allocate hp => exact absurd (hgone (by decide)).2.2 (by decide)
  | initWatcher hp hown hw => exact absurd (hgone (by decide)).2.2 (by decide)
  | startWatcher hp hown hw => exact absurd (hgone (by decide)).2.2 (by decide)
  | freeThread hp hown hw => rw [threadTurn, (hgone (by decide)).1]; rfl
  | clearArg hp hown hw => rw [threadTurn, (hgone (by decide)).2.1.store]; rfl
  | freeWatcher hp hown hw => exact absurd (hgone (by decide)).2.2 (by decide)
  | detach hp => rw [threadTurn, loadEvThread_of_freed hp]; rfl

end

/-! ### The watchers of the threads -/

section

variable {h h' : Heap Block} {threads : List Thread} {t : ℕ} {w : Addr}

/-- The thread has yet to free the watcher, or has freed it and is before its last statement. -/
def Given (h : Heap Block) (threads : List Thread) (t : ℕ) (w : Addr) : Prop :=
  ∃ th, threads[t]? = some th ∧
    (th.pc.watcher = some w ∨ (∃ e, th.pc = .detach e) ∧ h.Freed w)

/-- It does not matter what else is done, as long as what was freed stays freed. -/
theorem Given.mono {threads' : List Thread} (hgiven : Given h threads t w)
    (hthreads : ∀ th, threads[t]? = some th → threads'[t]? = some th)
    (hfreed : ∀ q, h.Freed q → h'.Freed q) : Given h' threads' t w := by
  obtain ⟨th, hth, hw⟩ := hgiven
  exact ⟨th, hthreads th hth, hw.imp_right fun hgone => ⟨hgone.1, hfreed w hgone.2⟩⟩

/-- What was freed stays freed over a statement of a thread. -/
theorem threadTurn_freed {arg q : Addr} {pc : Pc} {r : Heap Block × List Addr × Pc}
    (hr : threadTurn h arg pc = .ok r) (hq : h.Freed q) : r.1.Freed q := by
  cases pc with
  | check | fetch | detach | finished =>
      simp only [threadTurn, Outcome.bind_eq_ok] at hr
      grind
  | allocate e =>
      cases hr
      exact Heap.freed_alloc hq _
  | initWatcher e w | startWatcher e w =>
      simp only [threadTurn, Outcome.bind_eq_ok] at hr
      obtain ⟨thd, -, h', hs, hr⟩ := hr
      cases hr
      exact Heap.freed_store hq hs
  | freeThread e w =>
      simp only [threadTurn, Outcome.bind_eq_ok] at hr
      obtain ⟨thd, -, h', hf, hr⟩ := hr
      cases hr
      cases thd with
      | none =>
          cases hf
          exact hq
      | some p => exact Heap.freed_free hq hf
  | clearArg e w =>
      simp only [threadTurn, Outcome.bind_eq_ok] at hr
      obtain ⟨h', hs, hr⟩ := hr
      cases hr
      exact Heap.freed_store hq hs
  | freeWatcher e w =>
      simp only [threadTurn, Outcome.bind_eq_ok] at hr
      obtain ⟨h', hf, hr⟩ := hr
      cases hr
      exact Heap.freed_free hq hf

/-- A watcher is kept until it is freed. -/
theorem threadTurn_watcher {arg : Addr} {pc : Pc} {r : Heap Block × List Addr × Pc}
    (hr : threadTurn h arg pc = .ok r) (hw : pc.watcher = some w) :
    r.2.2.watcher = some w ∨ (∃ e, r.2.2 = .detach e) ∧ r.1.Freed w := by
  cases pc with
  | check | fetch | allocate | initWatcher | startWatcher | detach | finished => cases hw
  | freeThread e w' =>
      cases hw
      simp only [threadTurn, Outcome.bind_eq_ok] at hr
      obtain ⟨thd, -, h', -, hr⟩ := hr
      cases hr
      exact Or.inl rfl
  | clearArg e w' =>
      cases hw
      simp only [threadTurn, Outcome.bind_eq_ok] at hr
      obtain ⟨h', -, hr⟩ := hr
      cases hr
      exact Or.inl rfl
  | freeWatcher e w' =>
      cases hw
      simp only [threadTurn, Outcome.bind_eq_ok] at hr
      obtain ⟨h', hf, hr⟩ := hr
      cases hr
      exact Or.inr ⟨⟨e, rfl⟩, Heap.freed_free_self hf⟩

/-- The watcher that the loop is given is kept at first. -/
theorem threadTurn_given {arg : Addr} {pc : Pc} {r : Heap Block × List Addr × Pc}
    (hr : threadTurn h arg pc = .ok r) (hw : w ∈ r.2.1) : r.2.2.watcher = some w := by
  cases pc with
  | startWatcher e w' =>
      simp only [threadTurn, Outcome.bind_eq_ok] at hr
      obtain ⟨thd, -, h', -, hr⟩ := hr
      cases hr
      rw [List.mem_singleton.1 hw]
      rfl
  | check | fetch | detach | allocate | initWatcher | freeThread | clearArg | freeWatcher
  | finished =>
      simp only [threadTurn, Outcome.bind_eq_ok] at hr
      grind

/-- What a thread has of its watcher, by the statements it has made. -/
theorem Thread.At.watcher {own : Addr → Prop} {alive : Prop} {th : Thread} {p : Addr} {c : ℕ}
    (ht : th.At h own alive p c) :
    (∀ w, th.pc.watcher = some w → c ≠ 8 ∧ ∃ io, h.Holds w (.evIo io)) ∧
      ∀ e, th.pc = .detach e → c = 8 := by
  obtain ⟨arg, pc⟩ := th
  have hstage := ht.stage
  dsimp only at hstage ⊢
  cases hstage with
  | check | fetch | allocate | initWatcher | startWatcher =>
      exact ⟨fun w hw => (by cases hw), fun e he => by cases he⟩
  | freeThread _ _ hw | clearArg _ _ hw | freeWatcher _ _ hw =>
      refine ⟨fun w' hw' => ?_, fun e he => by cases he⟩
      cases hw'
      exact ⟨by decide, _, hw⟩
  | detach => exact ⟨fun w hw => (by cases hw), fun e _ => rfl⟩

end

/-! ### The whole, and its meter -/

/-- The meter shows the state: each thread is where its number of statements says, and the blocks of
different threads are different. -/
structure Meters (own : ℕ → Addr → Prop) (n : Net) (m : Meter) : Prop where
  busy_iff : m.busy = true ↔ n.frame ≠ none
  turns_length : m.turns.length = n.threads.length
  given : List.Forall₂ (Given n.heap n.threads) m.started n.watchers
  at_turns : ∀ i (th : Thread) (c : ℕ), n.threads[i]? = some th → m.turns[i]? = some c →
    ∃ p, th.At n.heap (own i) (n.frame = some th.arg) p c
  last : ∀ a, n.frame = some a → ∃ th, n.threads.getLast? = some th ∧ th.arg = a
  disjoint : ∀ i j (q : ℕ), own i q → own j q → i = j
  bounded : ∀ i (q : ℕ), own i q → q < n.heap.blocks.length
  clients : ∀ w ∈ n.watchers, ClientWatcher n.heap w

section

variable {own : ℕ → Addr → Prop} {n : Net} {m : Meter}

theorem Meters.length_started (h : Meters own n m) : m.started.length = n.watchers.length :=
  h.given.length_eq

/-- What a step of the meter says about the step it is kept of. -/
def StepMetered (n : Net) (m : Meter) (ev : NetEvent) : Prop :=
  (∀ m', meterStep m ev = some m' →
      ∃ n' own', netStep n ev = .ok n' ∧ Meters own' n' m') ∧
    (meterStep m ev = none → ∃ f, netStep n ev = .error f ∧ f.Undefined)

theorem StepMetered.of_some {ev : NetEvent} {m' : Meter} {n' : Net} {own' : ℕ → Addr → Prop}
    (hm : meterStep m ev = some m') (hn : netStep n ev = .ok n') (h : Meters own' n' m') :
    StepMetered n m ev := by
  constructor
  · intro m'' hm''
    rw [hm] at hm''
    cases hm''
    exact ⟨n', own', hn, h⟩
  · intro hnone
    rw [hm] at hnone
    cases hnone

theorem StepMetered.of_none {ev : NetEvent} {f : Fault} (hm : meterStep m ev = none)
    (hn : netStep n ev = .error f) (hf : f.Undefined) : StepMetered n m ev := by
  constructor
  · intro m' hm'
    rw [hm] at hm'
    cases hm'
  · intro _
    exact ⟨f, hn, hf⟩

/-- The variable of a thread is there exactly while its call of `accept_cb`, the last one, has not
returned. -/
theorem Meters.alive_iff (h : Meters own n m) {i c : ℕ} {th : Thread}
    (hth : n.threads[i]? = some th) (hc : m.turns[i]? = some c) :
    n.frame = some th.arg ↔ m.busy = true ∧ i + 1 = m.turns.length := by
  rw [h.busy_iff, h.turns_length]
  have hi : i < n.threads.length := (List.getElem?_eq_some_iff.1 hth).1
  constructor
  · intro hframe
    refine ⟨by rw [hframe]; exact Option.some_ne_none _, ?_⟩
    obtain ⟨last, hlast, harg⟩ := h.last _ hframe
    rw [List.getLast?_eq_getElem?] at hlast
    have hj : n.threads.length - 1 < m.turns.length := by
      rw [h.turns_length]
      omega
    obtain ⟨p, hat⟩ := h.at_turns i th c hth hc
    obtain ⟨p', hat'⟩ := h.at_turns _ last _ hlast (List.getElem?_eq_getElem hj)
    have hsame := h.disjoint i _ th.arg hat.own_arg (harg ▸ hat'.own_arg)
    omega
  · rintro ⟨hbusy, hlast⟩
    obtain ⟨a, ha⟩ := Option.ne_none_iff_exists'.1 hbusy
    obtain ⟨last, hl, harg⟩ := h.last a ha
    rw [List.getLast?_eq_getElem?, ← hlast, Nat.add_sub_cancel, hth] at hl
    cases hl
    rw [ha, harg]

theorem Meters.turnDefined_iff (h : Meters own n m) {i c : ℕ} {th : Thread}
    (hth : n.threads[i]? = some th) (hc : m.turns[i]? = some c) :
    TurnDefined m i c ↔ c < 8 ∧ (UsesFrame c → n.frame = some th.arg) := by
  rw [TurnDefined, h.alive_iff hth hc]

/-- The watchers after a statement of a thread, which may give the loop one more. -/
theorem Meters.given_turn (h : Meters own n m) {i c : ℕ} {th : Thread}
    (hth : n.threads[i]? = some th) (hc : m.turns[i]? = some c) (hlt : c < 8)
    {r : Heap Block × List Addr × Pc} (hturn : threadTurn n.heap th.arg th.pc = .ok r)
    (hlength : r.2.1.length = if c = 4 then 1 else 0) :
    List.Forall₂ (Given r.1 (n.threads.set i { th with pc := r.2.2 }))
      (if c = 4 then m.started ++ [i] else m.started) (n.watchers ++ r.2.1) := by
  have hi : i < n.threads.length := (List.getElem?_eq_some_iff.1 hth).1
  obtain ⟨p, hat⟩ := h.at_turns i th c hth hc
  have hfreed : ∀ q, n.heap.Freed q → r.1.Freed q := fun q hq => threadTurn_freed hturn hq
  have hold : List.Forall₂ (Given r.1 (n.threads.set i { th with pc := r.2.2 })) m.started
      n.watchers := by
    refine h.given.imp fun t w hgiven => ?_
    by_cases hti : t = i
    · subst hti
      obtain ⟨th', hth', hw⟩ := hgiven
      rw [hth] at hth'
      cases hth'
      refine ⟨_, List.getElem?_set_self hi, ?_⟩
      rcases hw with hw | ⟨⟨e, he⟩, -⟩
      · exact threadTurn_watcher hturn hw
      · -- the thread is not at its last statement
        have hlast := hat.watcher.2 e he
        omega
    · refine hgiven.mono (fun th' hth' => ?_) hfreed
      rw [List.getElem?_set_ne (Ne.symm hti), hth']
  by_cases hfour : c = 4
  · rw [if_pos hfour] at hlength ⊢
    obtain ⟨w, hw⟩ := List.length_eq_one_iff.1 hlength
    have hmem : w ∈ r.2.1 := by
      rw [hw]
      exact List.mem_singleton_self w
    rw [hw]
    refine List.rel_append hold (.cons ⟨_, List.getElem?_set_self hi, Or.inl ?_⟩ .nil)
    exact threadTurn_given hturn hmem
  · rw [if_neg hfour] at hlength ⊢
    rw [List.length_eq_zero_iff.1 hlength, List.append_nil]
    exact hold

/-! ### The steps -/

/-- The variable of `accept_cb` goes, and with it only the last thread's. -/
theorem Meters.ret (h : Meters own n m) : StepMetered n m .ret := by
  cases hframe : n.frame with
  | none =>
      have hbusy : m.busy = false := by
        have hiff := h.busy_iff
        rw [hframe] at hiff
        simpa using hiff
      refine StepMetered.of_some ?_ ?_ h
      · rw [meterStep, ← hbusy]
      · rw [netStep, hframe]
  | some a =>
      obtain ⟨last, hlast, harg⟩ := h.last a hframe
      have hlen : 0 < n.threads.length := by
        rcases Nat.eq_zero_or_pos n.threads.length with hzero | hpos
        · rw [List.length_eq_zero_iff.1 hzero] at hlast
          cases hlast
        · exact hpos
      have hth := hlast
      rw [List.getLast?_eq_getElem?] at hth
      have hj : n.threads.length - 1 < m.turns.length := by
        rw [h.turns_length]
        omega
      obtain ⟨p, hat⟩ := h.at_turns _ last _ hth (List.getElem?_eq_getElem hj)
      obtain ⟨e, he, -⟩ := hat.held (by rw [hframe, harg])
      rw [harg] at he
      have hf := he.free
      have hstep : netStep n .ret =
          .ok { n with heap := { blocks := n.heap.blocks.set a none }, frame := none } := by
        rw [netStep, hframe]
        simp only [hf, Outcome.ok_bind]
      refine StepMetered.of_some rfl hstep (?_ : Meters own _ _)
      refine { busy_iff := by simp, turns_length := h.turns_length,
               given := h.given.imp fun t w hgiven =>
                 hgiven.mono (fun _ hth => hth) fun q hq => Heap.freed_free hq hf,
               at_turns := ?_, last := by rintro a' ⟨⟩, disjoint := h.disjoint,
               bounded := ?_, clients := fun w hw => (h.clients w hw).free hf }
      · intro i th c hthi hc
        obtain ⟨p, hat'⟩ := h.at_turns i th c hthi hc
        refine ⟨p, hat'.stage.free_arg he hf, hat'.own_p, hat'.own_arg, fun hno => (by cases hno),
          fun _ => ?_⟩
        by_cases halive : n.frame = some th.arg
        · rw [hframe] at halive
          exact Option.some.inj halive ▸ Heap.freed_free_self hf
        · exact Heap.freed_free (hat'.returned halive) hf
      · intro i q hq
        rw [length_free hf]
        exact h.bounded i q hq

theorem Thread.At.congr {h : Heap Block} {own : Addr → Prop} {alive alive' : Prop} {th : Thread}
    {p : Addr} {c : ℕ} (ht : th.At h own alive p c) (hiff : alive' ↔ alive) :
    th.At h own alive' p c where
  stage := ht.stage
  own_p := ht.own_p
  own_arg := ht.own_arg
  held ha := ht.held (hiff.1 ha)
  returned ha := ht.returned (mt hiff.2 ha)

/-- A client is accepted: the last thread is a new one, before its first statement. -/
theorem Meters.accepted (h : Meters own n m) (hframe : n.frame = none) {evError : Bool} {fd : ℤ}
    (hfd : ¬ (evError = true ∨ fd < 0)) : StepMetered n m (.accept evError fd) := by
  have hbusy : ¬ m.busy = true := by
    rw [h.busy_iff, hframe]
    exact fun hne => hne rfl
  have hcond : ¬ (m.busy = true ∨ evError = true ∨ fd < 0) := by
    rintro (hb | hrest)
    · exact hbusy hb
    · exact hfd hrest
  -- the new `ev_thread` is at `p`, the variable at `a`
  generalize hp : n.heap.blocks.length = p
  have hthd := (Heap.holds_alloc_self n.heap
    (.evThread { fd := fd, tid := 0, ew := 0, loop := 0 })).alloc (.eThd (some p))
  have hpa : (n.heap.alloc (.evThread { fd := fd, tid := 0, ew := 0, loop := 0 })).2 = p := hp
  rw [hpa] at hthd
  generalize hvar : (n.heap.alloc (.evThread { fd := fd, tid := 0, ew := 0, loop := 0 })).1.alloc
    (.eThd (some p)) = var at hthd
  have hvarHeld : var.1.Holds var.2 (.eThd (some p)) := by
    rw [← hvar]
    exact Heap.holds_alloc_self _ _
  obtain ⟨h', hs⟩ : ∃ h', var.1.store p
      (.evThread { fd := fd, tid := n.threads.length, ew := 0, loop := 0 }) = .ok h' :=
    ⟨_, hthd.store _⟩
  have hlen : var.1.blocks.length = p + 2 := by
    rw [← hvar, ← hp]
    simp [Heap.alloc]
  have hva : var.2 = p + 1 := by
    rw [← hvar, ← hp]
    simp [Heap.alloc]
  have hstep : netStep n (.accept evError fd) =
      .ok { n with heap := h', frame := some var.2,
                   threads := n.threads ++ [{ arg := var.2, pc := .check }] } := by
    rw [netStep, if_pos hframe, acceptCb, if_neg hfd]
    simp only [evThreadCreate, hpa, hvar, loadEvThread_of_holds hthd, Outcome.ok_bind, hs]
  have hkeeps : ∀ i, Keeps (own i) n.heap h' := by
    intro i
    have hfresh : ¬ own i p := by
      intro hown
      exact absurd (h.bounded i p hown) (by omega)
    rw [← hvar] at hs
    exact ((Keeps.alloc _ _ _).trans (Keeps.alloc _ _ _)).trans (Keeps.store hfresh hs)
  refine StepMetered.of_some (if_neg hcond) hstep
    (?_ : Meters (Function.update own n.threads.length fun q => q = p ∨ q = var.2) _ _)
  refine { busy_iff := by simp, turns_length := by simp [h.turns_length],
           given := ?_, at_turns := ?_, last := ?_, disjoint := ?_, bounded := ?_,
           clients := ?_ }
  · refine h.given.imp fun t w hgiven => hgiven.mono (fun th hth => ?_) fun q hq => ?_
    · rw [List.getElem?_append_left (List.getElem?_eq_some_iff.1 hth).1, hth]
    · rw [← hvar] at hs
      exact Heap.freed_store (Heap.freed_alloc (Heap.freed_alloc hq _) _) hs
  · intro i th c hth hc
    rcases Nat.lt_or_ge i n.threads.length with hi | hi
    · rw [List.getElem?_append_left hi] at hth
      rw [List.getElem?_append_left (by rw [h.turns_length]; exact hi)] at hc
      obtain ⟨p', hat⟩ := h.at_turns i th c hth hc
      rw [Function.update_of_ne (Nat.ne_of_lt hi)]
      refine ⟨p', (hat.keeps (hkeeps i)).congr ?_⟩
      refine iff_of_false ?_ (by rw [hframe]; exact Option.some_ne_none _ ∘ Eq.symm)
      intro heq
      have hbound := h.bounded i _ hat.own_arg
      rw [← Option.some.inj heq, hva, hp] at hbound
      omega
    · have hlast : i = n.threads.length := by
        have := (List.getElem?_eq_some_iff.1 hth).1
        simp only [List.length_append, List.length_singleton] at this
        omega
      subst hlast
      rw [List.getElem?_concat_length] at hth
      cases hth
      rw [← h.turns_length, List.getElem?_concat_length] at hc
      cases hc
      rw [Function.update_self]
      have hthd' : h'.Holds p
          (.evThread { fd := fd, tid := n.threads.length, ew := 0, loop := 0 }) := by
        rw [Heap.holds_store_iff hs, if_pos rfl]
      refine ⟨p, .check hthd', Or.inl rfl, Or.inr rfl, fun _ => ⟨some p, ?_, fun _ => rfl⟩,
        fun hno => absurd rfl hno⟩
      have hne : var.2 ≠ p := by omega
      rw [Heap.holds_store_iff hs, if_neg hne]
      exact hvarHeld
  · intro a ha
    cases ha
    exact ⟨_, List.getLast?_concat, rfl⟩
  · intro i j q hi hj
    by_cases hik : i = n.threads.length <;> by_cases hjk : j = n.threads.length
    · rw [hik, hjk]
    · rw [hik, Function.update_self] at hi
      rw [Function.update_of_ne hjk] at hj
      have hnew : q = p ∨ q = var.2 := hi
      have := h.bounded j q hj
      omega
    · rw [hjk, Function.update_self] at hj
      rw [Function.update_of_ne hik] at hi
      have hnew : q = p ∨ q = var.2 := hj
      have := h.bounded i q hi
      omega
    · rw [Function.update_of_ne hik] at hi
      rw [Function.update_of_ne hjk] at hj
      exact h.disjoint i j q hi hj
  · intro i q hq
    rw [length_store hs, hlen]
    by_cases hik : i = n.threads.length
    · rw [hik, Function.update_self] at hq
      have hnew : q = p ∨ q = var.2 := hq
      omega
    · rw [Function.update_of_ne hik] at hq
      have := h.bounded i q hq
      omega
  · intro w hw
    have hclient : ClientWatcher var.1 w := by
      rw [← hvar]
      exact ((h.clients w hw).alloc _).alloc _
    refine hclient.store (Or.inr fun io hio => ?_) hs
    cases hthd.unique hio

theorem Meters.accept (h : Meters own n m) (evError : Bool) (fd : ℤ) :
    StepMetered n m (.accept evError fd) := by
  by_cases hskip : n.frame ≠ none ∨ evError = true ∨ fd < 0
  · refine StepMetered.of_some ?_ ?_ h
    · rw [meterStep, if_pos (hskip.imp_left h.busy_iff.2)]
    · rw [netStep]
      by_cases hframe : n.frame = none
      · rw [if_pos hframe, acceptCb, if_pos (hskip.resolve_left fun hne => hne hframe)]
      · rw [if_neg hframe]
  · rw [not_or, not_not] at hskip
    exact h.accepted hskip.1 hskip.2

/-- A thread takes a step. -/
theorem Meters.turn (h : Meters own n m) (i : ℕ) : StepMetered n m (.turn i) := by
  cases hth : n.threads[i]? with
  | none =>
      have hc : m.turns[i]? = none := by
        rw [List.getElem?_eq_none_iff] at hth ⊢
        rwa [h.turns_length]
      refine StepMetered.of_some ?_ ?_ h
      · simp only [meterStep, hc]
      · simp only [netStep, hth]
  | some th =>
      have hi : i < n.threads.length := (List.getElem?_eq_some_iff.1 hth).1
      have hj : i < m.turns.length := by rwa [h.turns_length]
      have hc := List.getElem?_eq_getElem hj
      generalize m.turns[i] = c at hc
      obtain ⟨p, hat⟩ := h.at_turns i th c hth hc
      have hdef := h.turnDefined_iff hth hc
      by_cases hok : TurnDefined m i c
      · obtain ⟨own', r, hturn, hdone⟩ := threadTurn_spec hat (hdef.1 hok)
        have hstep : netStep n (.turn i) =
            .ok { n with heap := r.1, watchers := n.watchers ++ r.2.1,
                         threads := n.threads.set i { th with pc := r.2.2 } } := by
          simp only [netStep, hth, hturn, Outcome.ok_bind]
        have hother : ∀ j, j ≠ i → Keeps (own j) n.heap r.1 := fun j hj =>
          hdone.keeps (own j) fun q hq hq' => hj (h.disjoint j i q hq hq')
        have hmeter : meterStep m (.turn i) = some
            { m with turns := m.turns.set i (c + 1),
                     started := if c = 4 then m.started ++ [i] else m.started } := by
          simp only [meterStep, hc, if_pos hok]
        refine StepMetered.of_some hmeter hstep (?_ : Meters (Function.update own i own') _ _)
        refine { busy_iff := h.busy_iff, turns_length := by simp [h.turns_length],
                 given := ?_, at_turns := ?_, last := ?_, disjoint := ?_, bounded := ?_,
                 clients := ?_ }
        · exact h.given_turn hth hc hok.1 hturn hdone.given
        · intro j th' c' hth' hc'
          by_cases hji : j = i
          · subst hji
            rw [List.getElem?_set_self hi] at hth'
            rw [List.getElem?_set_self (by rwa [h.turns_length])] at hc'
            cases hth'
            cases hc'
            rw [Function.update_self]
            exact ⟨p, hdone.at_next⟩
          · rw [List.getElem?_set_ne (Ne.symm hji)] at hth' hc'
            obtain ⟨p', hat'⟩ := h.at_turns j th' c' hth' hc'
            rw [Function.update_of_ne hji]
            exact ⟨p', hat'.keeps (hother j hji)⟩
        · intro a ha
          obtain ⟨last, hlast, harg⟩ := h.last a ha
          rw [List.getLast?_eq_getElem?] at hlast
          rw [List.getLast?_eq_getElem?, List.length_set]
          by_cases hil : i = n.threads.length - 1
          · rw [← hil] at hlast ⊢
            rw [hth] at hlast
            cases hlast
            exact ⟨_, List.getElem?_set_self hi, harg⟩
          · exact ⟨last, by rwa [List.getElem?_set_ne hil], harg⟩
        · intro j k q hjq hkq
          by_cases hji : j = i <;> by_cases hki : k = i
          · rw [hji, hki]
          · rw [hji, Function.update_self] at hjq
            rw [Function.update_of_ne hki] at hkq
            rcases hdone.fresh q hjq with hq | hq
            · exact hji ▸ h.disjoint i k q hq hkq
            · exact absurd (h.bounded k q hkq) (Nat.not_lt.2 hq)
          · rw [hki, Function.update_self] at hkq
            rw [Function.update_of_ne hji] at hjq
            rcases hdone.fresh q hkq with hq | hq
            · exact hki ▸ h.disjoint j i q hjq hq
            · exact absurd (h.bounded j q hjq) (Nat.not_lt.2 hq)
          · rw [Function.update_of_ne hji] at hjq
            rw [Function.update_of_ne hki] at hkq
            exact h.disjoint j k q hjq hkq
        · intro j q hq
          have hle := hdone.length_le
          by_cases hji : j = i
          · rw [hji, Function.update_self] at hq
            rcases hdone.bounded q hq with hq | hq
            · exact Nat.lt_of_lt_of_le (h.bounded i q hq) hle
            · exact hq
          · rw [Function.update_of_ne hji] at hq
            exact Nat.lt_of_lt_of_le (h.bounded j q hq) hle
        · intro w hw
          rcases List.mem_append.1 hw with hw | hw
          · exact hdone.clients w (h.clients w hw)
          · exact hdone.given_client w hw
      · refine StepMetered.of_none (f := .wild) ?_ ?_ trivial
        · simp only [meterStep, hc, if_neg hok]
        · simp only [netStep, hth, threadTurn_undefined hat (mt hdef.2 hok), Outcome.error_bind]

/-- The loop looks at a watcher. -/
theorem Meters.look (h : Meters own n m) (i : ℕ) : StepMetered n m (.look i) := by
  have hlen := h.length_started
  cases hw : n.watchers[i]? with
  | none =>
      have hnone : m.started[i]? = none := by
        rw [List.getElem?_eq_none_iff] at hw ⊢
        omega
      have hthere : ¬ (m.busy = false ∧ WatcherGone m i) := by
        rw [WatcherGone, hnone]
        rintro ⟨-, ⟨⟩⟩
      refine StepMetered.of_some (if_neg hthere) ?_ h
      simp only [netStep, hw]
  | some w =>
      obtain ⟨hi, hget⟩ := List.getElem?_eq_some_iff.1 hw
      have hi' : i < m.started.length := by omega
      have ht := List.getElem?_eq_getElem hi'
      have hone : Given n.heap n.threads m.started[i] n.watchers[i] := h.given.get hi' hi
      rw [hget] at hone
      obtain ⟨th, hth, hgiven⟩ := hone
      have hturns : m.started[i] < m.turns.length := by
        rw [h.turns_length]
        exact (List.getElem?_eq_some_iff.1 hth).1
      have hc := List.getElem?_eq_getElem hturns
      obtain ⟨p, hat⟩ := h.at_turns _ th _ hth hc
      obtain ⟨hlive, hlast⟩ := hat.watcher
      have hgone : WatcherGone m i ↔ m.turns[m.started[i]] = 8 := by
        rw [WatcherGone, ht, Option.bind_some, hc, Option.some.injEq]
      by_cases hframe : n.frame = none
      · have hbusy : m.busy = false := by
          rw [← Bool.not_eq_true, h.busy_iff, hframe]
          exact fun hne => hne rfl
        rcases hgiven with hwatcher | ⟨⟨e, he⟩, hfreed⟩
        · obtain ⟨hne, io, hio⟩ := hlive w hwatcher
          have hthere : ¬ (m.busy = false ∧ WatcherGone m i) := fun hboth => hne (hgone.1 hboth.2)
          have hload : loadWatcher n.heap w = .ok io := by
            rw [loadWatcher, hio.load]
            rfl
          refine StepMetered.of_some (if_neg hthere) ?_ h
          simp only [netStep, hw, if_pos hframe, hload, Outcome.ok_bind]
        · have hload : loadWatcher n.heap w = .error .wild := by
            rw [loadWatcher, hfreed.load]
            rfl
          refine StepMetered.of_none (f := .wild) (if_pos ⟨hbusy, hgone.2 (hlast e he)⟩) ?_ trivial
          simp only [netStep, hw, if_pos hframe, hload, Outcome.error_bind]
      · have hbusy : ¬ (m.busy = false ∧ WatcherGone m i) := by
          rintro ⟨hno, -⟩
          rw [h.busy_iff.2 hframe] at hno
          cases hno
        refine StepMetered.of_some (if_neg hbusy) ?_ h
        simp only [netStep, hw, if_neg hframe]

/-- A client has sent something. -/
theorem Meters.ready (h : Meters own n m) (i : ℕ) : StepMetered n m (.ready i) := by
  cases hw : n.watchers[i]? with
  | none =>
      have hge : ¬ (m.busy = false ∧ i < m.started.length) := by
        rw [h.length_started]
        exact fun hno => absurd hno.2 (Nat.not_lt.2 (List.getElem?_eq_none_iff.1 hw))
      refine StepMetered.of_some (if_neg hge) ?_ h
      simp only [netStep, hw]
  | some w =>
      have hlt : i < m.started.length := by
        rw [h.length_started]
        exact (List.getElem?_eq_some_iff.1 hw).1
      by_cases hframe : n.frame = none
      · have hbusy : m.busy = false := by
          rw [← Bool.not_eq_true, h.busy_iff, hframe]
          exact fun hne => hne rfl
        obtain ⟨f, hctx, hf⟩ := (h.clients w (List.mem_of_getElem? hw)).no_ctx
        refine StepMetered.of_none (f := f) (if_pos ⟨hbusy, hlt⟩) ?_ hf
        simp only [netStep, hw, if_pos hframe, hctx, Outcome.error_bind]
      · have hbusy : ¬ (m.busy = false ∧ i < m.started.length) := by
          rintro ⟨hno, -⟩
          rw [h.busy_iff.2 hframe] at hno
          cases hno
        refine StepMetered.of_some (if_neg hbusy) ?_ h
        simp only [netStep, hw, if_neg hframe]

/-- **The step lemma**: the meter shows where the memory is misused. -/
theorem Meters.step (h : Meters own n m) (ev : NetEvent) : StepMetered n m ev := by
  cases ev with
  | accept evError fd => exact h.accept evError fd
  | ret => exact h.ret
  | turn i => exact h.turn i
  | look i => exact h.look i
  | ready i => exact h.ready i

end

/-- The meter shows the start. -/
theorem meters_start (sock : ℤ) (ctx : Addr) :
    Meters (fun _ _ => False) (Net.start sock ctx) Meter.start where
  busy_iff := by simp [Meter.start, Net.start]
  turns_length := rfl
  given := .nil
  at_turns i th c hth := by simp [Net.start] at hth
  last := by rintro a ⟨⟩
  disjoint _ _ _ h := h.elim
  bounded _ _ h := h.elim
  clients w hw := by simp [Net.start] at hw

/-! ### Runs -/

/-- The meter shows the state, whichever thread a block belongs to. -/
theorem net_metered :
    Outcome.Metered (fun n m => ∃ own, Meters own n m) netStep meterStep := by
  rintro n m ev ⟨own, h⟩
  obtain ⟨hsome, hnone⟩ := h.step ev
  refine ⟨?_, hnone⟩
  intro m' hm'
  obtain ⟨n', own', hstep, h'⟩ := hsome m' hm'
  exact ⟨n', hstep, own', h'⟩

theorem Stage.ne_finished {h : Heap Block} {own : Addr → Prop} {p : Addr} {pc : Pc} {c : ℕ}
    (hs : Stage h own p pc c) : pc ≠ .finished := by
  rintro rfl
  cases hs

/-- **No thread comes to its end, and no client is served.**  In every run of the server that
nothing undefined happens in, whatever the order of its steps: no thread of a connection has
returned, and no call of `read_cb` with the watcher of a client can be added to the run without
something undefined. -/
theorem net_never_serves {sock : ℤ} {ctx : Addr} {events : List NetEvent} {n : Net}
    (hrun : events.foldlM netStep (Net.start sock ctx) = .ok n) :
    (∀ th ∈ n.threads, th.pc ≠ .finished) ∧
      ∀ i, n.frame = none → i < n.watchers.length →
        ∃ f, netStep n (.ready i) = .error f ∧ f.Undefined := by
  obtain ⟨m, -, own, h⟩ := net_metered.of_ok ⟨_, meters_start sock ctx⟩ hrun
  constructor
  · intro th hth
    obtain ⟨i, hi⟩ := List.mem_iff_getElem?.1 hth
    have hlt : i < m.turns.length := by
      rw [h.turns_length]
      exact (List.getElem?_eq_some_iff.1 hi).1
    obtain ⟨p, hat⟩ := h.at_turns i th _ hi (List.getElem?_eq_getElem hlt)
    exact hat.stage.ne_finished
  · intro i hframe hi
    refine (h.ready i).2 (if_pos ⟨?_, by rwa [h.length_started]⟩)
    rw [← Bool.not_eq_true, h.busy_iff, hframe]
    exact fun hne => hne rfl

/-- The result applied to a connection whose thread has started its watcher in time. -/
theorem net_never_serves_one :
    ∃ n, [.accept false 7, .turn 0, .turn 0, .turn 0, .turn 0, .turn 0, .ret].foldlM netStep
        (Net.start 3 0) = .ok n ∧ n.frame = none ∧ n.watchers.length = 1 ∧
      (∀ th ∈ n.threads, th.pc ≠ .finished) ∧
        ∀ i, n.frame = none → i < n.watchers.length →
          ∃ f, netStep n (.ready i) = .error f ∧ f.Undefined := by
  have hrun : ∃ n, [.accept false 7, .turn 0, .turn 0, .turn 0, .turn 0, .turn 0, .ret].foldlM
      netStep (Net.start 3 0) = .ok n ∧ n.frame = none ∧ n.watchers.length = 1 :=
    ⟨_, rfl, rfl, rfl⟩
  obtain ⟨n, hn, hframe, hlen⟩ := hrun
  exact ⟨n, hn, hframe, hlen, net_never_serves hn⟩

/-- **In which orders of the steps no memory is misused.**  A run of the server, with any number of
clients and its steps in any order, uses no memory that is gone, and reads behind the end of none,
exactly when its meter goes on to the end: every statement of a thread that accesses the variable of
`accept_cb` comes before that call returns, no thread makes its last statement, the loop looks at no
watcher that its thread has freed, and `read_cb` is called with no watcher of a client. -/
theorem net_defined_iff (sock : ℤ) (ctx : Addr) (events : List NetEvent) :
    Outcome.Holds (fun _ => True) (events.foldlM netStep (Net.start sock ctx)) ↔
      ∃ m, events.foldlM meterStep Meter.start = some m :=
  net_metered.holds_iff ⟨_, meters_start sock ctx⟩

/-- A connection whose thread is one step late: it looks for its `ev_thread` in a variable that is
gone; and one whose thread is in time, and has freed the watcher that the loop looks at. -/
example : [NetEvent.accept false 7, .turn 0, .ret, .turn 0].foldlM meterStep Meter.start = none ∧
    (NetEvent.accept false 7 :: List.replicate 8 (.turn 0) ++ [NetEvent.ret, .look 0]).foldlM
      meterStep Meter.start = none := ⟨rfl, rfl⟩
