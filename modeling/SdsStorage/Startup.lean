/-
**The start of the server.**

`main` ignores the status of both functions it calls before the event loop.  What keeps it from
running on after a failure is an assertion, for the configuration, and the log lines of level
`LOG_FATAL`, for the socket: the logger was never initialised, so that its descriptor is 0, and such
a line ends the process.

`netsocket_init` puts the default in place of a port up to 1024, and of a shorter queue; then it
cuts the port to sixteen bits.  If they are zero, the kernel binds the socket to a port it picks.

Main definitions:

* `fatalLine` — what a line of level `LOG_FATAL` does to the process;
* `NetIo`, `NetSocket`, `Listener`, `netsocketInit` — the socket;
* `Running`, `serverMain` — the server as it enters its loop.

Main results:

* `Log.log_fatalLine` — **a fatal line ends the process** unless the logger has no descriptor;
* `serverMain_starts_iff` — **when the server gets to its loop**;
* `serverMain_port_iff` — **when it listens on the port it was given**, and for how many
  connections.
-/

import SdsStorage.ConfDecode
import SdsStorage.LogLine
import SdsStorage.SdsStore

set_option relaxedAutoImplicit false
set_option autoImplicit false

/-! ### Fatal lines -/

/-- What `log_fatal` does, with a logger that writes to this descriptor. -/
def fatalLine (fd : ℤ) : Outcome Unit := if fd < 0 then .ok () else .error .abort

namespace Log

/-- The logger before `log_init`, which the server does not call. -/
def Logger.zero : Logger := { fd := 0, nerror := 0 }

/-- A call aborts when it writes a line of level `LOG_FATAL`. -/
theorem logWith_aborted {libc : Libc} {appends : List Append} {l : Logger} {level : ℤ} {buf : Bytes}
    {c : LogCall} (hlevel : logValidLevel level = true)
    (h : logWith libc appends l level buf = .ok c) :
    c.aborted = decide (0 ≤ l.fd ∧ level = logFatal) := by
  rw [logWith, if_pos hlevel] at h
  by_cases hfd : l.fd < 0
  · rw [if_pos hfd] at h
    cases h
    have hno : ¬ (0 ≤ l.fd ∧ level = logFatal) := fun hyes => by omega
    exact (decide_eq_false hno).symm
  · rw [if_neg hfd, Outcome.bind_eq_ok] at h
    obtain ⟨s, -, h⟩ := h
    rw [Outcome.bind_eq_ok] at h
    obtain ⟨bytes, -, h⟩ := h
    cases h
    have hopen : 0 ≤ l.fd := Int.not_lt.1 hfd
    simp only [hopen, true_and]

/-- **A fatal line ends the process**, unless the logger has no descriptor. -/
theorem log_fatalLine {libc : Libc} (hstrftime : StrftimeFits libc)
    (hvsnprintf : VsnprintfFits libc) (address : ℕ → UInt64) (l : Logger) {place : LogPlace}
    (hlevel : place.level = logFatal) (hfile : Terminated place.file) (fmt : Bytes)
    (args : List Slot) {buf : Bytes} (hbuf : buf.length = logMaxLen) :
    (log libc address l place fmt args buf >>= fun c =>
      if c.aborted then (.error .abort : Outcome Unit) else .ok ()) = fatalLine l.fd := by
  have hvalid : logValidLevel place.level = true := by
    rw [hlevel]
    rfl
  obtain ⟨c, hc, -⟩ :=
    ((log_fits hstrftime hvsnprintf (fun _ => 0) address l hvalid hfile hbuf).2 fmt args).writes
  have haborted := logWith_aborted hvalid hc
  rw [hc, Outcome.ok_bind, haborted, fatalLine]
  by_cases hfd : l.fd < 0
  · have hno : ¬ (0 ≤ l.fd ∧ place.level = logFatal) := fun hyes => by omega
    rw [if_pos hfd, if_neg (by simpa using hno)]
  · have hyes : 0 ≤ l.fd ∧ place.level = logFatal := ⟨Int.not_lt.1 hfd, hlevel⟩
    rw [if_neg hfd, if_pos (by simpa using hyes)]

end Log

/-! ### `netsocket_init` -/

/-- What the calls to `socket`, `bind` and `listen` return, and the port that the kernel picks for a
socket that is bound to the port 0. -/
structure NetIo where
  socket : ℤ
  bind : ℤ
  listen : ℤ
  picked : ℕ

/-- The port that a socket gets that is bound to this one. -/
def NetIo.bound (io : NetIo) (port : ℕ) : ℕ := if port = 0 then io.picked else port

/-- The kernel picks a port that is not reserved. -/
def NetIo.PicksFree (io : NetIo) : Prop := 1024 < io.picked ∧ io.picked < 2 ^ 16

/-- `netsocket`, less its loop and its context; the port and the length of the queue are never
set. -/
structure NetSocket where
  addr : Slice
  sock : ℤ

/-- What was asked of the kernel: the port the socket is bound to, if it is, at any address, and how
many connections may wait. -/
structure Listener where
  port : Option ℕ
  backlog : ℤ

/-- `NETSOCKET_DEFAULT_BACKLOG`. -/
def netsocketDefaultBacklog : ℤ := 1024

/-- `NETSOCKET_DEFAULT_PORT`. -/
def netsocketDefaultPort : ℤ := 8765

/-- `NETSOCKET_DEFAULT_ADDR`: `127.0.0.1`. -/
def netsocketDefaultAddr : Bytes := [0x31, 0x32, 0x37, 0x2e, 0x30, 0x2e, 0x30, 0x2e, 0x31]

/-- The port that `htons` makes of an `int`. -/
def htons (port : ℤ) : ℕ := (port % 2 ^ 16).toNat

/-- `netsocket_init` of a structure that is there, with the descriptor of the logger: the status,
and what was made. -/
def netsocketInit (fd : ℤ) (io : NetIo) (saddr : CharPtr) (port backlog : ℤ) :
    Outcome (ℤ × Option (NetSocket × Listener)) := do
  let port := if port ≤ 1024 then netsocketDefaultPort else port
  let addr ← sliceInit
    (if saddr ≠ .null then saddr else .mem (CString.cstr netsocketDefaultAddr))
  let backlog := if backlog < netsocketDefaultBacklog then netsocketDefaultBacklog else backlog
  if io.socket < 0 then do
    fatalLine fd
    .ok (-1, none)
  else do
    -- after a `bind` that fails the function goes on
    let bound ← if io.bind ≠ 0 then (fatalLine fd).map fun _ => none
      else .ok (some (io.bound (htons port)))
    if io.listen < 0 then do
      fatalLine fd
      .ok (-1, none)
    else
      .ok (0, some ({ addr := addr.2, sock := io.socket }, { port := bound, backlog := backlog }))

/-! ### `main` -/

/-- The server as it enters its loop. -/
structure Running where
  st : SdsStore
  ns : NetSocket
  listener : Listener

/-- `main`, up to the loop; `conf` is what `conf_create` meets, when there is an argument. -/
def serverMain (jsonLoads : Bytes → Option Json) (conf : Option ConfIo) (net : NetIo) :
    Outcome Running :=
  match conf with
  -- the status is ignored, and the pointer to the configuration is what was on the stack
  | none => .error .wild
  | some io => do
      let ss ← sdsStoreInit jsonLoads io
      let made ← netsocketInit Log.Logger.zero.fd net (sliceValue ss.cf.addr) ss.cf.port
        ss.cf.backlog
      match made.2 with
      -- the status is ignored, and so is the loop
      | none => .error .wild
      | some (ns, listener) => .ok { st := ss, ns := ns, listener := listener }

/-! ### The address -/

/-- `slice_init` of a pointer that may be read makes a slice that reads back. -/
theorem sliceInit_mem {mem : Bytes} (h : (0 : UInt8) ∈ mem) :
    ∃ s se, sliceInit (.mem mem) = .ok (0, se) ∧ se.Represents s := by
  obtain ⟨hnul, t, ht⟩ := CString.eq_append_of_mem h
  obtain ⟨se, hinit, hrep⟩ := sliceInit_cstr hnul t
  rw [← ht] at hinit
  exact ⟨_, se, hinit, hrep⟩

/-- The string of a value is null or terminated. -/
theorem jsonStringValue_cases (v : Option Json) :
    jsonStringValue v = .null ∨ ∃ s, jsonStringValue v = .mem (CString.cstr s) := by
  rcases v with _ | v
  · exact Or.inl rfl
  · cases v with
    | string s => exact Or.inr ⟨s, rfl⟩
    | _ => exact Or.inl rfl

/-- The address of a configuration reads back, or there is none. -/
theorem confCreate_addr {jsonLoads : Bytes → Option Json} {io : ConfIo} {cf : Conf}
    (h : confCreate jsonLoads io = .ok (some cf)) :
    sliceValue cf.addr = .null ∨ ∃ mem, sliceValue cf.addr = .mem mem ∧ (0 : UInt8) ∈ mem := by
  rw [confCreate] at h
  split at h
  · rw [Outcome.bind_eq_ok] at h
    obtain ⟨n, -, h⟩ := h
    split at h
    · cases h
    · rename_i root _
      rw [Outcome.bind_eq_ok] at h
      obtain ⟨cf', hcf, h⟩ := h
      cases h
      simp only [confFields, Outcome.bind_eq_ok] at hcf
      obtain ⟨port, -, addr, -, addr', haddr, backlog, -, dir, -, dir', -, len, -, hcf⟩ := hcf
      cases hcf
      dsimp only
      rcases jsonStringValue_cases addr with hnull | ⟨s, hstring⟩
      · rw [hnull] at haddr
        cases haddr
        exact Or.inl rfl
      · obtain ⟨t, se, hinit, hrep⟩ :=
          sliceInit_mem (List.mem_append_right s (List.mem_cons_self : (0 : UInt8) ∈ [0]))
        rw [hstring, CString.cstr, hinit] at haddr
        cases haddr
        rw [hrep.value_eq]
        split
        · exact Or.inl rfl
        · exact Or.inr ⟨_, rfl, List.mem_append_right _ List.mem_cons_self⟩
  · split at h <;> cases h

/-- The address of the socket can be copied, or is the default. -/
theorem sliceInit_saddr {value : CharPtr}
    (h : value = .null ∨ ∃ mem, value = .mem mem ∧ (0 : UInt8) ∈ mem) :
    ∃ r, sliceInit (if value ≠ .null then value else
      .mem (CString.cstr netsocketDefaultAddr)) = .ok r := by
  rcases h with rfl | ⟨mem, rfl, hmem⟩
  · exact ⟨_, rfl⟩
  · obtain ⟨s, se, hinit, -⟩ := sliceInit_mem hmem
    rw [if_pos (by rintro ⟨⟩)]
    exact ⟨_, hinit⟩

/-! ### The start -/

/-- The three calls succeed. -/
def NetIo.Succeeds (io : NetIo) : Prop := 0 ≤ io.socket ∧ io.bind = 0 ∧ 0 ≤ io.listen

/-- **What `netsocket_init` makes**, when a fatal line ends the process. -/
theorem netsocketInit_eq (fd : ℤ) (hfd : 0 ≤ fd) (io : NetIo) {saddr : CharPtr}
    (hsaddr : saddr = .null ∨ ∃ mem, saddr = .mem mem ∧ (0 : UInt8) ∈ mem) (port backlog : ℤ) :
    (¬ io.Succeeds → netsocketInit fd io saddr port backlog = .error .abort) ∧
      (io.Succeeds → ∃ addr, netsocketInit fd io saddr port backlog =
        .ok (0, some ({ addr := addr, sock := io.socket },
          { port := some (io.bound (htons (if port ≤ 1024 then netsocketDefaultPort else port)))
            backlog := max netsocketDefaultBacklog backlog }))) := by
  have hfatal : fatalLine fd = .error .abort := if_neg (Int.not_lt.2 hfd)
  have hmax : (if backlog < netsocketDefaultBacklog then netsocketDefaultBacklog else backlog) =
      max netsocketDefaultBacklog backlog := by
    rw [max_def]
    split <;> split <;> omega
  obtain ⟨addr, haddr⟩ := sliceInit_saddr hsaddr
  simp only [netsocketInit, haddr, Outcome.ok_bind, hfatal, Except.map, hmax]
  constructor
  · intro hno
    by_cases hsocket : io.socket < 0
    · rw [if_pos hsocket]
      rfl
    · rw [if_neg hsocket]
      by_cases hbind : io.bind ≠ 0
      · rw [if_pos hbind]
        rfl
      · have hlisten : io.listen < 0 := by
          by_contra hge
          exact hno ⟨Int.not_lt.1 hsocket, not_not.1 hbind, Int.not_lt.1 hge⟩
        rw [if_neg hbind, if_pos hlisten]
        rfl
  · rintro ⟨hsocket, hbind, hlisten⟩
    rw [if_neg (Int.not_lt.2 hsocket), if_neg (not_not.2 hbind), if_neg (Int.not_lt.2 hlisten)]
    exact ⟨_, rfl⟩

/-- The server in its loop, from its configuration. -/
theorem serverMain_of_conf {jsonLoads : Bytes → Option Json} {io : ConfIo} {cf : Conf}
    (hconf : confCreate jsonLoads io = .ok (some cf)) (net : NetIo) :
    (¬ net.Succeeds → serverMain jsonLoads (some io) net = .error .abort) ∧
      (net.Succeeds → ∃ r, serverMain jsonLoads (some io) net = .ok r ∧ r.st.cf = cf ∧
        r.ns.sock = net.socket ∧ r.listener =
          { port := some (net.bound
              (htons (if cf.port ≤ 1024 then netsocketDefaultPort else cf.port)))
            backlog := max netsocketDefaultBacklog cf.backlog }) := by
  have hserves : callocServes sdsStoreMaxSet := by decide
  obtain ⟨sets, hsets⟩ : ∃ sets : CVector Addr, _ := vectorInit_isOk hserves
  have hstore : sdsStoreInit jsonLoads io = .ok { sets := sets, cf := cf } := by
    simp only [sdsStoreInit, hconf, hsets, Outcome.ok_bind]
  obtain ⟨hfails, hstarts⟩ := netsocketInit_eq Log.Logger.zero.fd (Int.le_refl 0) net
    (confCreate_addr hconf) cf.port cf.backlog
  constructor
  · intro hno
    simp only [serverMain, hstore, Outcome.ok_bind, hfails hno, Outcome.error_bind]
  · intro hyes
    obtain ⟨addr, hinit⟩ := hstarts hyes
    simp only [serverMain, hstore, Outcome.ok_bind, hinit]
    exact ⟨_, rfl, rfl, rfl, rfl⟩

/-- A server that runs has a configuration and a socket. -/
theorem serverMain_ok {jsonLoads : Bytes → Option Json} {conf : Option ConfIo} {net : NetIo}
    {r : Running} (h : serverMain jsonLoads conf net = .ok r) :
    (∃ io cf, conf = some io ∧ confCreate jsonLoads io = .ok (some cf)) ∧ net.Succeeds := by
  cases conf with
  | none => cases h
  | some io =>
      cases hconf : confCreate jsonLoads io with
      | error f =>
          simp only [serverMain, sdsStoreInit, hconf, Outcome.error_bind] at h
          cases h
      | ok o =>
          cases o with
          | none =>
              simp only [serverMain, sdsStoreInit, hconf, Outcome.ok_bind, Outcome.error_bind] at h
              cases h
          | some cf =>
              refine ⟨⟨io, cf, rfl, hconf⟩, ?_⟩
              by_contra hno
              rw [(serverMain_of_conf hconf net).1 hno] at h
              cases h

/-- **When the server gets to its loop**: it was given a configuration that is parsed, and the three
calls for its socket succeed. -/
theorem serverMain_starts_iff (jsonLoads : Bytes → Option Json) (conf : Option ConfIo)
    (net : NetIo) :
    (∃ r, serverMain jsonLoads conf net = .ok r) ↔
      (∃ io cf, conf = some io ∧ confCreate jsonLoads io = .ok (some cf)) ∧ net.Succeeds := by
  constructor
  · rintro ⟨r, h⟩
    exact serverMain_ok h
  · rintro ⟨⟨io, cf, rfl, hconf⟩, hsucceeds⟩
    obtain ⟨r, h, -⟩ := (serverMain_of_conf hconf net).2 hsucceeds
    exact ⟨r, h⟩

/-! ### The port -/

/-- The port that the socket gets for the `int` of a configuration. -/
def boundPort (net : NetIo) (port : ℤ) : ℕ :=
  net.bound (htons (if port ≤ 1024 then netsocketDefaultPort else port))

/-- The port is the number that was given exactly when that has sixteen bits and is not reserved. -/
theorem boundPort_eq_iff {net : NetIo} (hpicks : net.PicksFree) (n : ℤ) :
    (boundPort net (CInt.toInt32 n) : ℤ) = n ↔ 1024 < n ∧ n < 2 ^ 16 := by
  obtain ⟨hgt, hlt⟩ := hpicks
  rw [CInt.toInt32_eq, boundPort, NetIo.bound, htons, netsocketDefaultPort]
  split <;> split <;> omega

/-- The port is reserved exactly for a number with more bits, whose last sixteen it is. -/
theorem boundPort_le_iff {net : NetIo} (hpicks : net.PicksFree) (port : ℤ) :
    boundPort net port ≤ 1024 ↔
      2 ^ 16 ≤ port ∧ 0 < port % 2 ^ 16 ∧ port % 2 ^ 16 ≤ 1024 := by
  obtain ⟨hgt, hlt⟩ := hpicks
  rw [boundPort, NetIo.bound, htons, netsocketDefaultPort]
  split <;> split <;> omega

/-- The number as it is leads to the port of the socket exactly when it is not reserved and does not
end in zeros, or when it ends in the default port. -/
theorem boundPort_eq_htons_iff (net : NetIo) (port : ℤ) :
    htons port ≠ 0 ∧ boundPort net port = htons port ↔
      (1024 < port ∧ port % 2 ^ 16 ≠ 0) ∨ port % 2 ^ 16 = netsocketDefaultPort := by
  rw [boundPort, NetIo.bound, htons, htons, netsocketDefaultPort]
  split <;> split <;> omega

/-- The fields of an object that are used for the socket. -/
theorem confFields_socket {stray : CharPtr} {members : List (Bytes × Json)} {cf : Conf}
    (h : confFields stray (.object members) = .ok cf) :
    cf.port = CInt.toInt32 (jsonIntegerValue (members.lookup keyPort)) ∧
      cf.backlog = CInt.toInt32 (jsonIntegerValue (members.lookup keyBacklogDataDir)) := by
  have hport : jsonObjectGet (.object members) (confKey stray .port) =
      .ok (members.lookup keyPort) := jsonObjectGet_key (by decide)
  have hbacklog : jsonObjectGet (.object members) (confKey stray .backlog) =
      .ok (members.lookup keyBacklogDataDir) := jsonObjectGet_key (by decide)
  rw [confFields, hport, Outcome.ok_bind, Outcome.bind_eq_ok] at h
  obtain ⟨addr, -, h⟩ := h
  rw [Outcome.bind_eq_ok] at h
  obtain ⟨addr', -, h⟩ := h
  rw [hbacklog, Outcome.ok_bind] at h
  simp only [Outcome.bind_eq_ok] at h
  obtain ⟨dir, -, dir', -, len, -, h⟩ := h
  cases h
  exact ⟨rfl, rfl⟩

/-- What a server listens with. -/
theorem serverMain_listener {jsonLoads : Bytes → Option Json} {content : Bytes}
    {members : List (Bytes × Json)} (hnul : CString.NoNul content)
    (hlen : content.length < confBufferMax) (hjson : jsonLoads content = some (.object members))
    {stray cfJunk : CharPtr} {net : NetIo} {r : Running}
    (h : serverMain jsonLoads (some { file := .bytes content, stray := stray, cf := cfJunk }) net =
      .ok r) :
    r.listener =
      { port := some (boundPort net (CInt.toInt32 (jsonIntegerValue (members.lookup keyPort))))
        backlog := max netsocketDefaultBacklog
          (CInt.toInt32 (jsonIntegerValue (members.lookup keyBacklogDataDir))) } := by
  obtain ⟨⟨io, cf, hio, hconf⟩, hsucceeds⟩ := serverMain_ok h
  cases hio
  obtain ⟨r', h', -, -, hlistener⟩ := (serverMain_of_conf hconf net).2 hsucceeds
  rw [h] at h'
  cases h'
  have hfields : confFields stray (.object members) = .ok cf := by
    rw [confCreate_eq hnul hlen hjson] at hconf
    cases hf : confFields stray (.object members) with
    | error f =>
        rw [hf] at hconf
        cases hconf
    | ok cf' =>
        rw [hf] at hconf
        cases hconf
        rfl
  obtain ⟨hport, hbacklog⟩ := confFields_socket hfields
  rw [hlistener, hport, hbacklog, boundPort]

/-- **When the server listens on the port it was given.**  For every file it starts with, whose text
is an object and is read as a whole: exactly when the number is above 1024 and has sixteen bits; it
listens on a reserved port exactly when a larger number ends in it, and is none that ends in zeros.
The number of connections that may wait is not what is found under `backlog`. -/
theorem serverMain_port_iff {jsonLoads : Bytes → Option Json} {content : Bytes}
    {members : List (Bytes × Json)} (hnul : CString.NoNul content)
    (hlen : content.length < confBufferMax) (hjson : jsonLoads content = some (.object members))
    {stray cfJunk : CharPtr} {net : NetIo} (hpicks : net.PicksFree) {r : Running}
    (h : serverMain jsonLoads (some { file := .bytes content, stray := stray, cf := cfJunk }) net =
      .ok r) :
    ∃ p : ℕ, r.listener.port = some p ∧
      ((p : ℤ) = jsonIntegerValue (members.lookup keyPort) ↔
        1024 < jsonIntegerValue (members.lookup keyPort) ∧
          jsonIntegerValue (members.lookup keyPort) < 2 ^ 16) ∧
      (p ≤ 1024 ↔ 2 ^ 16 ≤ CInt.toInt32 (jsonIntegerValue (members.lookup keyPort)) ∧
        0 < CInt.toInt32 (jsonIntegerValue (members.lookup keyPort)) % 2 ^ 16 ∧
        CInt.toInt32 (jsonIntegerValue (members.lookup keyPort)) % 2 ^ 16 ≤ 1024) ∧
      r.listener.backlog = max netsocketDefaultBacklog
        (CInt.toInt32 (jsonIntegerValue (members.lookup keyBacklogDataDir))) := by
  have hlistener := serverMain_listener hnul hlen hjson h
  refine ⟨boundPort net (CInt.toInt32 (jsonIntegerValue (members.lookup keyPort))), ?_,
    boundPort_eq_iff hpicks _, boundPort_le_iff hpicks _, ?_⟩
  · rw [hlistener]
  · rw [hlistener]

/-- `{"port":65558}`. -/
def largePortText : Bytes :=
  [0x7b, 0x22, 0x70, 0x6f, 0x72, 0x74, 0x22, 0x3a, 0x36, 0x35, 0x35, 0x35, 0x38, 0x7d]

/-- A parser, as far as that text goes. -/
def parseLargePort (text : Bytes) : Option Json :=
  if text = largePortText then some (.object [(keyPort, .integer 65558)]) else none

/-- The result applied to a port of seventeen bits: the server listens on port 22. -/
theorem serverMain_port_iff_large : ∃ r, serverMain parseLargePort
      (some { file := .bytes largePortText, stray := .null, cf := .null })
      { socket := 3, bind := 0, listen := 0, picked := 32768 } = .ok r ∧
    ∃ p : ℕ, r.listener.port = some p ∧
      ((p : ℤ) = jsonIntegerValue ([(keyPort, Json.integer 65558)].lookup keyPort) ↔
        1024 < jsonIntegerValue ([(keyPort, Json.integer 65558)].lookup keyPort) ∧
          jsonIntegerValue ([(keyPort, Json.integer 65558)].lookup keyPort) < 2 ^ 16) ∧
      (p ≤ 1024 ↔
        2 ^ 16 ≤ CInt.toInt32 (jsonIntegerValue ([(keyPort, Json.integer 65558)].lookup keyPort)) ∧
        0 < CInt.toInt32 (jsonIntegerValue ([(keyPort, Json.integer 65558)].lookup keyPort)) %
          2 ^ 16 ∧
        CInt.toInt32 (jsonIntegerValue ([(keyPort, Json.integer 65558)].lookup keyPort)) % 2 ^ 16 ≤
          1024) ∧
      r.listener.backlog = max netsocketDefaultBacklog (CInt.toInt32
        (jsonIntegerValue ([(keyPort, Json.integer 65558)].lookup keyBacklogDataDir))) := by
  have hnul : CString.NoNul largePortText := by decide
  have hlen : largePortText.length < confBufferMax := by decide
  obtain ⟨cf, hcf⟩ : ∃ cf, confFields .null (.object [(keyPort, .integer 65558)]) = .ok cf :=
    ⟨_, rfl⟩
  have hconf : confCreate parseLargePort
      { file := .bytes largePortText, stray := .null, cf := .null } = .ok (some cf) :=
    confCreate_isOk hnul hlen (if_pos rfl) hcf
  obtain ⟨r, hr, -⟩ := (serverMain_of_conf hconf
    { socket := 3, bind := 0, listen := 0, picked := 32768 }).2 ⟨by decide, rfl, by decide⟩
  have hpicks : NetIo.PicksFree { socket := 3, bind := 0, listen := 0, picked := 32768 } :=
    ⟨by decide, by decide⟩
  exact ⟨r, hr, serverMain_port_iff hnul hlen (if_pos rfl) hpicks hr⟩
