/-
**A log line.**

`_log_safe` and `_log` put a line together in an array of 4096 bytes: a bracket, the time, its
milliseconds, the level with the place in the source, the message, and a newline.  Each part is told
the room that is left, and says how many characters it wrote without the terminator; so there is
always room for one more, and the newline takes it.

Main definitions:

* `Log.Libc` — the functions of the C library;
* `Log.Append` — a function that writes a part of the line; `Log.strftimeTo`, `Log.safeSnprintf`,
  `Log.vscnprintf`;
* `Log.appendTo`, `Log.pushChar`, `Log.logLine` — the line;
* `Log.logSafe`, `Log.log` — the two functions;
* `Log.LineFits` — what is expected of them.

Main results:

* `Log.Appends.appendTo` — **the step lemma**: a part leaves room for one more character;
* `Log.logWith_fits` — the run lemma;
* `Log.log_fits` — **a line fits its buffer**.
-/

import SdsStorage.LogSafe

set_option relaxedAutoImplicit false
set_option autoImplicit false

namespace Log

/-! ### The parts of a line -/

/-- `LOG_MAX_LEN`. -/
def logMaxLen : ℕ := 4096

/-- The functions of the C library: `strftime` of a time, and `vsnprintf`, with the bytes they store
into an array of some size and what they return; `write`, with what it returns. -/
structure Libc where
  strftime : Bytes → ℤ → ℕ → Bytes × ℕ
  vsnprintf : ℕ → Bytes → List Slot → Bytes × ℤ
  write : ℤ → Bytes → ℤ

/-- `strftime` stores no more bytes than there is room for, and returns fewer. -/
def StrftimeFits (libc : Libc) : Prop :=
  ∀ format sec size, 1 ≤ size →
    (libc.strftime format sec size).1.length ≤ size ∧ (libc.strftime format sec size).2 < size

/-- `vsnprintf` stores no more bytes than there is room for; nothing is said of what it returns. -/
def VsnprintfFits (libc : Libc) : Prop :=
  ∀ size format ap, 1 ≤ size → (libc.vsnprintf size format ap).1.length ≤ size

/-- A function that writes to an object, from an offset on, into an array of some size. -/
abbrev Append := Bytes → ℕ → ℕ → Outcome (ℤ × Bytes)

/-- `"%Y-%m-%d %H:%M:%S."`. -/
def dateFormat : Bytes :=
  CString.cstr [0x25, 0x59, 0x2d, 0x25, 0x6d, 0x2d, 0x25, 0x64, 0x20, 0x25, 0x48, 0x3a, 0x25, 0x4d,
    0x3a, 0x25, 0x53, 0x2e]

/-- `"%03ld"`. -/
def msecFormat : Bytes := CString.cstr [0x25, 0x30, 0x33, 0x6c, 0x64]

/-- `"] [%s%s\x1b[0m \x1b[90m] %s:%d "`. -/
def headerFormat : Bytes :=
  CString.cstr [0x5d, 0x20, 0x5b, 0x25, 0x73, 0x25, 0x73, 0x1b, 0x5b, 0x30, 0x6d, 0x20, 0x1b, 0x5b,
    0x39, 0x30, 0x6d, 0x5d, 0x20, 0x25, 0x73, 0x3a, 0x25, 0x64, 0x20]

/-- `_log_strftime`. -/
def strftimeTo (libc : Libc) (sec : ℤ) : Append := fun buf start size => do
  let (stored, n) := libc.strftime dateFormat sec size
  let buf ← CString.memcpyAt buf start stored
  .ok (CInt.toInt32 n, buf)

/-- `_safe_snprintf`. -/
def safeSnprintf (stray : ℕ → UInt8) (format : Bytes) (ap : List Slot) : Append :=
  fun buf start size => safeVsnprintf stray buf start size format ap

/-- `_vscnprintf`. -/
def vscnprintf (libc : Libc) (format : Bytes) (ap : List Slot) : Append := fun buf start size => do
  let (stored, n) := libc.vsnprintf size format ap
  let buf ← CString.memcpyAt buf start stored
  if n ≤ 0 then .ok (0, buf)
  else if n < CInt.toInt32 size then .ok (n, buf)
  else .ok (CInt.toInt32 (CInt.toUInt64 (size - 1)), buf)

/-! ### The line -/

/-- The local variables `buf` and `len`. -/
structure LineState where
  buf : Bytes
  len : ℤ
  deriving DecidableEq, Repr

/-- `size - len`. -/
def LineState.room (s : LineState) : ℤ := logMaxLen - s.len

/-- `len += f(buf + len, size - len, ...)`. -/
def appendTo (s : LineState) (f : Append) : Outcome LineState :=
  if s.len < 0 then .error .outOfBounds
  else do
    let (n, buf) ← f s.buf s.len.toNat (CInt.toUInt64 s.room)
    .ok { buf := buf, len := CInt.toInt32 (s.len + n) }

/-- `buf[len++] = c`. -/
def pushChar (s : LineState) (c : UInt8) : Outcome LineState :=
  if s.len < 0 then .error .outOfBounds
  else do
    let buf ← CString.memcpyAt s.buf s.len.toNat [c]
    .ok { buf := buf, len := CInt.toInt32 (s.len + 1) }

/-- The line, from the bracket to the newline. -/
def logLine (appends : List Append) (buf : Bytes) : Outcome LineState := do
  let s ← pushChar { buf := buf, len := 0 } 0x5b
  let s ← appends.foldlM appendTo s
  pushChar s 0x0a

/-- The bytes that are handed to `write`. -/
def lineBytes (s : LineState) : Outcome Bytes :=
  if CInt.toUInt64 s.len ≤ s.buf.length then .ok (s.buf.take (CInt.toUInt64 s.len))
  else .error .overread

/-! ### The two functions -/

/-- The logger. -/
structure Logger where
  fd : ℤ
  nerror : ℤ
  deriving DecidableEq, Repr

/-- `logger_level_names`. -/
def levelNames : List Bytes :=
  [[0x46, 0x41, 0x54, 0x41, 0x4c], [0x45, 0x52, 0x52], [0x57, 0x41, 0x52, 0x4e],
    [0x49, 0x4e, 0x46, 0x4f], [0x44, 0x45, 0x42, 0x55, 0x47]]

/-- `logger_level_colors`. -/
def levelColors : List Bytes :=
  [[0x1b, 0x5b, 0x33, 0x35, 0x6d], [0x1b, 0x5b, 0x33, 0x36, 0x6d], [0x1b, 0x5b, 0x33, 0x32, 0x6d],
    [0x1b, 0x5b, 0x33, 0x33, 0x6d], [0x1b, 0x5b, 0x33, 0x31, 0x6d]]

/-- An entry of one of the tables. -/
def entryAt (table : List Bytes) (level : ℤ) : CharPtr :=
  if level < 0 then .wild
  else
    match table[level.toNat]? with
    | some s => .mem (CString.cstr s)
    | none => .wild

/-- `LOG_FATAL`. -/
def logFatal : ℤ := 0

/-- `LOG_DEBUG`. -/
def logDebug : ℤ := 4

/-- `_log_valid_level`. -/
def logValidLevel (level : ℤ) : Bool := if level < logFatal ∨ level > logDebug then false else true

/-- The place in the source a line is about, its level, and the time. -/
structure LogPlace where
  file : CharPtr
  line : UInt32
  level : ℤ
  sec : ℤ
  usec : ℤ
  deriving DecidableEq, Repr

/-- An argument that is a pointer to characters. -/
def strSlot (p : CharPtr) (bits : UInt64) : Slot := { bits := bits, str := p }

/-- The argument of `"%03ld"`. -/
def msecArgs (place : LogPlace) : List Slot :=
  [strSlot .wild (UInt64.ofNat (CInt.toUInt64 (place.usec.tdiv 1000)))]

/-- The arguments of the header; `address` stands for the values of the pointers. -/
def headerArgs (address : ℕ → UInt64) (place : LogPlace) : List Slot :=
  [strSlot (entryAt levelColors place.level) (address 0),
    strSlot (entryAt levelNames place.level) (address 1), strSlot place.file (address 2),
    strSlot .wild place.line.toUInt64]

/-- What a call has done. -/
structure LogCall where
  logger : Logger
  written : Option Bytes
  aborted : Bool
  deriving DecidableEq, Repr

/-- The body that `_log_safe` and `_log` share. -/
def logWith (libc : Libc) (appends : List Append) (l : Logger) (level : ℤ) (buf : Bytes) :
    Outcome LogCall :=
  if logValidLevel level then
    if l.fd < 0 then .ok { logger := l, written := none, aborted := false }
    else do
      let s ← logLine appends buf
      let bytes ← lineBytes s
      let n := libc.write l.fd bytes
      let nerror := if n < 0 then CInt.toInt32 (l.nerror + 1) else l.nerror
      .ok { logger := { l with nerror := nerror }, written := some bytes,
            aborted := decide (level = logFatal) }
  else .ok { logger := l, written := none, aborted := false }

/-- The parts `_log_safe` puts a line together from. -/
def logSafeAppends (libc : Libc) (stray : ℕ → UInt8) (address : ℕ → UInt64) (place : LogPlace)
    (fmt : Bytes) (args : List Slot) : List Append :=
  [strftimeTo libc place.sec, safeSnprintf stray msecFormat (msecArgs place),
    safeSnprintf stray headerFormat (headerArgs address place), safeSnprintf stray fmt args]

/-- The parts `_log` puts a line together from. -/
def logAppends (libc : Libc) (address : ℕ → UInt64) (place : LogPlace) (fmt : Bytes)
    (args : List Slot) : List Append :=
  [strftimeTo libc place.sec, vscnprintf libc msecFormat (msecArgs place),
    vscnprintf libc headerFormat (headerArgs address place), vscnprintf libc fmt args]

/-- `_log_safe`; `buf` is what lies in the array before. -/
def logSafe (libc : Libc) (stray : ℕ → UInt8) (address : ℕ → UInt64) (l : Logger)
    (place : LogPlace) (fmt : Bytes) (args : List Slot) (buf : Bytes) : Outcome LogCall :=
  logWith libc (logSafeAppends libc stray address place fmt args) l place.level buf

/-- `_log`. -/
def log (libc : Libc) (address : ℕ → UInt64) (l : Logger) (place : LogPlace) (fmt : Bytes)
    (args : List Slot) (buf : Bytes) : Outcome LogCall :=
  logWith libc (logAppends libc address place fmt args) l place.level buf

/-! ### What a part does -/

/-- The function returns how many characters it wrote, with room for one more, and stores nothing
outside. -/
def Appends (f : Append) : Prop :=
  ∀ buf start size, 1 ≤ size → start + size = buf.length → buf.length = logMaxLen →
    ∃ n buf', f buf start size = .ok (n, buf') ∧ buf'.length = buf.length ∧ 0 ≤ n ∧ n < (size : ℤ)

theorem strftimeTo_appends {libc : Libc} (hstrftime : StrftimeFits libc) (sec : ℤ) :
    Appends (strftimeTo libc sec) := by
  intro buf start size hsize hend hbuf
  obtain ⟨hstored, hcount⟩ := hstrftime dateFormat sec size hsize
  obtain ⟨buf', hcopy, hlen⟩ := CString.memcpyAt_isOk
    (by omega : start + (libc.strftime dateFormat sec size).1.length ≤ buf.length)
  rw [logMaxLen] at hbuf
  have hint : CInt.toInt32 ((libc.strftime dateFormat sec size).2 : ℤ) =
      (libc.strftime dateFormat sec size).2 := CInt.toInt32_natCast_of_lt (by omega)
  refine ⟨(libc.strftime dateFormat sec size).2, buf', ?_, hlen, by omega⟩
  simp only [strftimeTo, hcopy, Outcome.ok_bind, hint]

theorem vscnprintf_appends {libc : Libc} (hvsnprintf : VsnprintfFits libc) (format : Bytes)
    (ap : List Slot) : Appends (vscnprintf libc format ap) := by
  intro buf start size hsize hend hbuf
  have hstored := hvsnprintf size format ap hsize
  obtain ⟨buf', hcopy, hlen⟩ := CString.memcpyAt_isOk
    (by omega : start + (libc.vsnprintf size format ap).1.length ≤ buf.length)
  rw [logMaxLen] at hbuf
  have hint : CInt.toInt32 (size : ℤ) = size := CInt.toInt32_natCast_of_lt (by omega)
  have hlast : CInt.toInt32 (CInt.toUInt64 ((size : ℤ) - 1)) = size - 1 := by
    rw [CInt.toUInt64_of_nonneg (by omega) (by omega), CInt.toInt32_natCast_of_lt (by omega)]
    omega
  simp only [vscnprintf, hcopy, Outcome.ok_bind, hint, hlast]
  split
  · exact ⟨0, buf', rfl, hlen, by omega⟩
  · split
    · exact ⟨_, buf', rfl, hlen, by omega⟩
    · exact ⟨_, buf', rfl, hlen, by omega⟩

/-- What the safe formatter writes for a format made of pieces. -/
theorem safeSnprintf_appends (stray : ℕ → UInt8) (pieces : List Piece) (format : Bytes)
    (ap : List Slot) :
    Appends (safeSnprintf stray (spell pieces ++ 0 :: format) (argsOf pieces ++ ap)) := by
  intro buf start size hsize hend hbuf
  have hrun := safeVsnprintf_pieces stray hsize hend.le pieces format ap
  have hkept : ((textOf stray pieces).take (size - 1)).length ≤ size - 1 := List.length_take_le _ _
  rw [logMaxLen] at hbuf
  rw [CInt.toInt32_natCast_of_lt (by omega)] at hrun
  refine ⟨_, _, hrun, length_put ?_, by omega⟩
  rw [CString.cstr, List.length_append, List.length_singleton]
  omega

/-- What the safe formatter writes for a format that ends in no directive. -/
theorem safeSnprintf_appends_of_ending (stray : ℕ → UInt8) {fmt : Bytes} {args : List Slot}
    (hfmt : CString.NoNul fmt) (hargs : EnoughArgs fmt args) (hend : ending none fmt = none) :
    Appends (safeSnprintf stray (CString.cstr fmt) args) := by
  obtain ⟨pieces, more, hspell, rfl⟩ := exists_pieces hfmt none hargs
  rw [hend, openBytes, List.nil_append, List.append_nil] at hspell
  rw [hspell]
  exact safeSnprintf_appends stray pieces [] more

/-! ### The run -/

/-- There is room for one more character. -/
structure LineInv (s : LineState) : Prop where
  buf : s.buf.length = logMaxLen
  pos : 1 ≤ s.len
  room : 1 ≤ s.room

/-- **The step lemma**: a part leaves room for one more character. -/
theorem Appends.appendTo {f : Append} (hf : Appends f) {s : LineState} (hs : LineInv s) :
    ∃ t, appendTo s f = .ok t ∧ LineInv t := by
  obtain ⟨hbuf, hpos, hroom⟩ := hs
  rw [LineState.room, logMaxLen] at hroom
  have hsize : CInt.toUInt64 s.room = 4096 - s.len.toNat := by
    rw [LineState.room, logMaxLen, CInt.toUInt64_of_nonneg (by omega) (by omega)]
    omega
  obtain ⟨n, buf', hcall, hlen, hn, hn'⟩ := hf s.buf s.len.toNat (CInt.toUInt64 s.room)
    (by rw [hsize]; omega) (by rw [hsize, hbuf, logMaxLen]; omega) hbuf
  rw [hsize] at hn'
  have hsum : CInt.toInt32 (s.len + n) = s.len + n :=
    CInt.toInt32_of_range (by omega) (by omega)
  refine ⟨{ buf := buf', len := s.len + n }, ?_, hlen.trans hbuf, ?_, ?_⟩
  · rw [Log.appendTo, if_neg (by omega), hcall, Outcome.ok_bind]
    dsimp only
    rw [hsum]
  · exact le_add_of_le_of_nonneg hpos hn
  · rw [LineState.room, logMaxLen]
    dsimp only
    omega

/-- A character is stored behind the ones before it. -/
theorem pushChar_eq {buf : Bytes} {len : ℕ} (hlen : len < buf.length)
    (hbuf : buf.length = logMaxLen) (c : UInt8) :
    ∃ buf', pushChar { buf := buf, len := len } c = .ok { buf := buf', len := (len + 1 : ℕ) } ∧
      buf'.length = logMaxLen ∧ buf'.take (len + 1) = buf.take len ++ [c] := by
  have hstart : ¬ (len : ℤ) < 0 := by omega
  have hfits : len + ([c] : Bytes).length ≤ buf.length := hlen
  have hbound : len + 1 < 2 ^ 31 := by
    rw [hbuf, logMaxLen] at hlen
    omega
  have hint : CInt.toInt32 ((len : ℤ) + 1) = (len + 1 : ℕ) :=
    CInt.toInt32_natCast_of_lt hbound
  have hcopy : CString.memcpyAt buf len [c] =
      .ok (buf.take len ++ [c] ++ buf.drop (len + [c].length)) := by
    rw [CString.memcpyAt, if_pos hfits]
  have hwritten : (buf.take len ++ [c]).length = len + 1 := by
    rw [List.length_append, List.length_take_of_le hlen.le, List.length_singleton]
  refine ⟨_, ?_, (CString.length_of_memcpyAt hcopy).trans hbuf, List.take_left' hwritten⟩
  rw [pushChar, if_neg hstart, Int.toNat_natCast, hcopy, Outcome.ok_bind, hint]

/-- The bracket leaves room. -/
theorem pushChar_bracket {buf : Bytes} (hbuf : buf.length = logMaxLen) :
    ∃ s, pushChar { buf := buf, len := 0 } 0x5b = .ok s ∧ LineInv s := by
  have hpos : 0 < buf.length := by
    rw [hbuf]
    decide
  obtain ⟨buf', hpush, hlen, -⟩ := pushChar_eq hpos hbuf 0x5b
  have hroom : (1 : ℤ) ≤ 4096 - 1 := by decide
  exact ⟨_, hpush, hlen, le_refl (1 : ℤ), hroom⟩

/-- The newline takes the room that is left, and ends what is written. -/
theorem pushChar_newline {s : LineState} (hs : LineInv s) :
    ∃ t bytes, pushChar s 0x0a = .ok t ∧ lineBytes t = .ok bytes ∧ bytes.length ≤ logMaxLen ∧
      bytes.getLast? = some 0x0a := by
  obtain ⟨buf, len⟩ := s
  obtain ⟨hbuf, hpos, hroom⟩ := hs
  rw [LineState.room] at hroom
  dsimp only at hbuf hpos hroom
  obtain ⟨n, rfl⟩ : ∃ n : ℕ, len = n := ⟨len.toNat, by omega⟩
  obtain ⟨buf', hpush, hlen, htake⟩ := pushChar_eq (by omega : n < buf.length) hbuf 0x0a
  rw [logMaxLen] at hlen hroom
  have hsize : CInt.toUInt64 ((n + 1 : ℕ) : ℤ) = n + 1 :=
    CInt.toUInt64_natCast_of_lt (by omega)
  refine ⟨_, buf'.take (n + 1), hpush, ?_, ?_, ?_⟩
  · rw [lineBytes]
    dsimp only
    rw [hsize, if_pos (by omega)]
  · rw [List.length_take, logMaxLen]
    omega
  · rw [htake, List.getLast?_concat]

/-! ### A line fits its buffer -/

/-- What is expected of a log line: every part is told of some room, and the bytes that are written
fit the array and end with a newline.  A store outside the array would end the call with a fault. -/
structure LineFits (appends : List Append) (l : Logger) (buf : Bytes) (call : Outcome LogCall) :
    Prop where
  room : ∀ s, pushChar { buf := buf, len := 0 } 0x5b = .ok s →
    Outcome.EachCall (fun s _ => 1 ≤ s.room) Log.appendTo appends s
  writes : ∃ c, call = .ok c ∧ (0 ≤ l.fd → c.written ≠ none) ∧
    ∀ bytes, c.written = some bytes →
      bytes.length ≤ logMaxLen ∧ bytes.getLast? = some 0x0a

/-- **The run lemma**: a line put together from parts that leave room fits its buffer. -/
theorem logWith_fits (libc : Libc) {appends : List Append} (happends : ∀ f ∈ appends, Appends f)
    (l : Logger) {level : ℤ} (hlevel : logValidLevel level = true) {buf : Bytes}
    (hbuf : buf.length = logMaxLen) :
    LineFits appends l buf (logWith libc appends l level buf) := by
  obtain ⟨s, hbracket, hs⟩ := pushChar_bracket hbuf
  have hstep : ∀ s, ∀ f ∈ appends, LineInv s → ∃ t, Log.appendTo s f = .ok t ∧ LineInv t :=
    fun s f hf hs => (happends f hf).appendTo hs
  constructor
  · intro s' hs'
    rw [hbracket] at hs'
    cases hs'
    refine Outcome.eachCall_of_inv hs ?_ fun t _ ht => ht.room
    intro t u f hf hcall ht
    obtain ⟨v, hv, hinv⟩ := hstep t f hf ht
    rw [hcall] at hv
    cases hv
    exact hinv
  · rw [logWith, if_pos hlevel]
    by_cases hfd : l.fd < 0
    · rw [if_pos hfd]
      refine ⟨_, rfl, fun h => absurd hfd (by omega), ?_⟩
      intro bytes h
      cases h
    · obtain ⟨t, hparts, ht⟩ := Outcome.foldlM_isOk hs hstep
      obtain ⟨u, bytes, hnewline, hbytes, hlen, hlast⟩ := pushChar_newline ht
      have hline : logLine appends buf = .ok u := by
        rw [logLine, hbracket, Outcome.ok_bind, hparts, Outcome.ok_bind, hnewline]
      rw [if_neg hfd, hline, Outcome.ok_bind, hbytes, Outcome.ok_bind]
      refine ⟨_, rfl, fun _ => Option.some_ne_none _, ?_⟩
      intro bytes' h
      cases h
      exact ⟨hlen, hlast⟩

/-- The entries of the tables are strings. -/
theorem terminated_entryAt {table : List Bytes} (htable : table.length = 5) {level : ℤ}
    (hlevel : logValidLevel level = true) : Terminated (entryAt table level) := by
  rw [logValidLevel, logFatal, logDebug] at hlevel
  split at hlevel
  · cases hlevel
  · have hlt : level.toNat < table.length := by omega
    rw [entryAt, if_neg (by omega), List.getElem?_eq_getElem hlt]
    exact List.mem_append_right _ List.mem_cons_self

/-- The parts of `_log_safe` leave room. -/
theorem logSafeAppends_append {libc : Libc} (hstrftime : StrftimeFits libc) (stray : ℕ → UInt8)
    (address : ℕ → UInt64) {place : LogPlace} (hlevel : logValidLevel place.level = true)
    (hfile : Terminated place.file) {fmt : Bytes} {args : List Slot} (hfmt : CString.NoNul fmt)
    (hargs : EnoughArgs fmt args) (hend : ending none fmt = none) :
    ∀ f ∈ logSafeAppends libc stray address place (CString.cstr fmt) args, Appends f := by
  have hmsec : Appends (safeSnprintf stray msecFormat (msecArgs place)) :=
    safeSnprintf_appends_of_ending stray (by decide) trivial rfl
  have hheader : Appends (safeSnprintf stray headerFormat (headerArgs address place)) := by
    refine safeSnprintf_appends_of_ending stray (by decide) ?_ rfl
    exact ⟨fun _ => terminated_entryAt rfl hlevel, fun _ => terminated_entryAt rfl hlevel,
      fun _ => hfile, fun h => absurd h (by decide), trivial⟩
  have hmessage := safeSnprintf_appends_of_ending stray hfmt hargs hend
  intro f hf
  simp only [logSafeAppends, List.mem_cons, List.not_mem_nil, or_false] at hf
  rcases hf with rfl | rfl | rfl | rfl
  · exact strftimeTo_appends hstrftime _
  · exact hmsec
  · exact hheader
  · exact hmessage

/-- The parts of `_log` leave room. -/
theorem logAppends_append {libc : Libc} (hstrftime : StrftimeFits libc)
    (hvsnprintf : VsnprintfFits libc) (address : ℕ → UInt64) (place : LogPlace) (fmt : Bytes)
    (args : List Slot) : ∀ f ∈ logAppends libc address place fmt args, Appends f := by
  intro f hf
  simp only [logAppends, List.mem_cons, List.not_mem_nil, or_false] at hf
  rcases hf with rfl | rfl | rfl | rfl
  · exact strftimeTo_appends hstrftime _
  · exact vscnprintf_appends hvsnprintf _ _
  · exact vscnprintf_appends hvsnprintf _ _
  · exact vscnprintf_appends hvsnprintf _ _

/-- **A line fits its buffer**, from both functions; the message of `_log_safe` must not end in a
directive. -/
theorem log_fits {libc : Libc} (hstrftime : StrftimeFits libc) (hvsnprintf : VsnprintfFits libc)
    (stray : ℕ → UInt8) (address : ℕ → UInt64) (l : Logger) {place : LogPlace}
    (hlevel : logValidLevel place.level = true) (hfile : Terminated place.file) {buf : Bytes}
    (hbuf : buf.length = logMaxLen) :
    (∀ fmt args, CString.NoNul fmt → EnoughArgs fmt args → ending none fmt = none →
      LineFits (logSafeAppends libc stray address place (CString.cstr fmt) args) l buf
        (logSafe libc stray address l place (CString.cstr fmt) args buf)) ∧
    ∀ fmt args, LineFits (logAppends libc address place fmt args) l buf
      (log libc address l place fmt args buf) := by
  constructor
  · intro fmt args hfmt hargs hend
    exact logWith_fits libc
      (logSafeAppends_append hstrftime stray address hlevel hfile hfmt hargs hend) l hlevel hbuf
  · intro fmt args
    exact logWith_fits libc (logAppends_append hstrftime hvsnprintf address place fmt args) l hlevel
      hbuf

/-! ### A line -/

/-- `2019-11-24 10:52:54.`. -/
def sampleDate : Bytes :=
  [0x32, 0x30, 0x31, 0x39, 0x2d, 0x31, 0x31, 0x2d, 0x32, 0x34, 0x20, 0x31, 0x30, 0x3a, 0x35, 0x32,
    0x3a, 0x35, 0x34, 0x2e]

/-- What `vsnprintf` prints for the two formats of a line, and for one without directives. -/
def sampleText (format : Bytes) (ap : List Slot) : Bytes :=
  if format = msecFormat then [0x30, 0x34, 0x32]
  else if format = headerFormat then
    match ap with
    | [color, name, file, line] =>
        [0x5d, 0x20, 0x5b] ++ stringText color ++ stringText name ++
          [0x1b, 0x5b, 0x30, 0x6d, 0x20, 0x1b, 0x5b, 0x39, 0x30, 0x6d, 0x5d, 0x20] ++
          stringText file ++ [0x3a] ++ CString.decimal (signedOf false line.bits) ++ [0x20]
    | _ => []
  else untilNul format

/-- The C library at 10:52:54. -/
def sampleLibc : Libc where
  strftime _ _ size := if sampleDate.length < size then (CString.cstr sampleDate, sampleDate.length)
    else ([], 0)
  vsnprintf size format ap :=
    (if size = 0 then [] else CString.cstr ((sampleText format ap).take (size - 1)),
      (sampleText format ap).length)
  write _ bytes := bytes.length

/-- Line 69 of `log.c`, 42 milliseconds later. -/
def samplePlace : LogPlace :=
  { file := .mem (CString.cstr [0x6c, 0x6f, 0x67, 0x2e, 0x63])
    line := 69
    level := 3
    sec := 1574592774
    usec := 42000 }

theorem log_fits_sample :
    LineFits (logSafeAppends sampleLibc (fun _ => 0) (fun _ => 1) samplePlace
        (CString.cstr [0x68, 0x69]) []) { fd := 1, nerror := 0 } (List.replicate 4096 0)
      (logSafe sampleLibc (fun _ => 0) (fun _ => 1) { fd := 1, nerror := 0 } samplePlace
        (CString.cstr [0x68, 0x69]) [] (List.replicate 4096 0)) ∧
    LineFits (logAppends sampleLibc (fun _ => 1) samplePlace (CString.cstr [0x68, 0x69]) [])
      { fd := 1, nerror := 0 } (List.replicate 4096 0)
      (log sampleLibc (fun _ => 1) { fd := 1, nerror := 0 } samplePlace
        (CString.cstr [0x68, 0x69]) [] (List.replicate 4096 0)) := by
  have hstrftime : StrftimeFits sampleLibc := by
    intro format sec size hsize
    rw [sampleLibc]
    dsimp only
    split
    · rename_i hfits
      rw [CString.cstr, List.length_append, List.length_singleton]
      exact ⟨hfits, hfits⟩
    · exact ⟨Nat.zero_le _, hsize⟩
  have hvsnprintf : VsnprintfFits sampleLibc := by
    intro size format ap hsize
    rw [sampleLibc]
    dsimp only
    rw [if_neg (by omega), CString.cstr, List.length_append, List.length_take,
      List.length_singleton]
    omega
  have hfile : Terminated samplePlace.file := by decide
  have hlevel : logValidLevel samplePlace.level = true := rfl
  have hbuf : (List.replicate 4096 (0 : UInt8)).length = logMaxLen := List.length_replicate
  have hfits := log_fits hstrftime hvsnprintf (fun _ => 0) (fun _ => 1) { fd := 1, nerror := 0 }
    hlevel hfile hbuf
  exact ⟨hfits.1 [0x68, 0x69] [] (by decide) trivial rfl, hfits.2 _ []⟩

end Log
