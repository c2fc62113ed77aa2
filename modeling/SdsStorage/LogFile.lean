/-
**The file a logger writes to.**

The logger keeps the number of its file, and the number alone.  `log_deinit` gives the number back
without forgetting it, `log_reopen` closes whatever the number stands for, and `log_init` takes
standard output for granted.  A number that was given back is the number of the next file that
anybody opens, a client's connection for instance.  Before the first call of `log_init` the number
is 0, which is standard input.

What the rest of the process does between the calls is left open, but for one thing: it closes no
file but its own.

Main definitions:

* `Log.Holder`, `Log.LoggerState` — whom a number belongs to, and the logger among all the files;
* `Log.logInit`, `Log.logReopen`, `Log.logDeinit`, `Log.logAny` — the functions;
* `Log.LoggerCall`, `Log.LoggerEvent`, `Log.loggerStep` — the calls of the logger, and what the
  rest of the process does between them;
* `Log.OwnCloses` — the rest of the process closes no file but its own;
* `Log.LoggerPlan`, `Log.LoggerPlan.step` — what the logger should be doing, which speaks of no
  numbers.

Main results:

* `Log.LoggerState.Follows.call` — **the step lemma**: a call that the plan allows is safe in every
  state, and the state after it is what the plan says;
* `Log.LoggerState.Follows.harm` — a call that the plan does not allow is unsafe after enough
  files were opened;
* `Log.logger_safe_iff` — **which calls are safe whatever happens between them**.
-/

import SdsStorage.Descriptors
import SdsStorage.LogText

set_option relaxedAutoImplicit false
set_option autoImplicit false

namespace Log

/-! ### The functions -/

/-- Whom the file under a number belongs to. -/
inductive Holder where
  /-- One of the streams the process was started with. -/
  | stream (n : ℕ)
  /-- A log file. -/
  | logFile (name : Bytes)
  /-- The rest of the process. -/
  | foreign (k : ℕ)
  deriving DecidableEq, Repr

/-- The logger among the files of the process; `told` is the file that it was told to write to, if
it was told of one. -/
structure LoggerState where
  files : Descriptors Holder
  name : Option Bytes
  fd : ℤ
  told : Option Holder

namespace LoggerState

/-- A number is written to or closed that is to be this file's: nothing happens where the number is
not in use, and harm is done where it is another file's. -/
def touch (s : LoggerState) (fd : ℤ) (holder : Option Holder) : Option LoggerState :=
  if fd < 0 then some s
  else
    match s.files.get fd.toNat with
    | none => some s
    | some h => if some h = holder then some s else none

/-- `close(l->fd)`. -/
def closeFd (s : LoggerState) : Option LoggerState := do
  let s ← s.touch s.fd s.told
  some (if s.fd < 0 then s else { s with files := s.files.close s.fd.toNat })

/-- `l->fd = open(…)`, which has no file without a name; `opens` tells whether it succeeds where
there is one. -/
def openLog (s : LoggerState) (name : Option Bytes) (opens : Bool) : LoggerState :=
  match name with
  | some (c :: cs) =>
    if opens then
      { s with files := (s.files.openFile (.logFile (c :: cs))).1
               fd := (s.files.openFile (.logFile (c :: cs))).2
               told := some (.logFile (c :: cs)) }
    else { s with fd := -1 }
  | _ => { s with fd := -1 }

end LoggerState

/-- `LOG_STDOUT_TYPE`. -/
def logStdoutType : ℤ := 0

/-- `LOG_STDERR_TYPE`. -/
def logStderrType : ℤ := 1

/-- `LOG_DEFINE_TYPE`. -/
def logDefineType : ℤ := 2

/-- `_log` and `_log_safe`: a line of any level but `LOG_FATAL`. -/
def logAny (s : LoggerState) : Option LoggerState := s.touch s.fd s.told

/-- `log_init` from where the file is chosen. -/
def logReady (s : LoggerState) (fd : ℤ) (told : Holder) : Option (ℤ × LoggerState) := do
  let s ← logAny { s with fd := fd, told := some told }
  some (0, s)

/-- `log_init`. -/
def logInit (s : LoggerState) (outputType : ℤ) (filename : Option Bytes) (opens : Bool) :
    Option (ℤ × LoggerState) :=
  let s := { s with name := filename }
  if outputType < logStdoutType ∨ outputType > logDefineType then some (-1, s)
  else if outputType = logStdoutType then logReady s 1 (.stream 1)
  else if outputType = logStderrType then logReady s stderrFileno (.stream 2)
  else if filename = none ∨ filename = some [] then logReady s 1 (.stream 1)
  else
    let s := s.openLog filename opens
    if s.fd < 0 then do
      let s ← s.touch stderrFileno (some (.stream 2))
      some (-1, s)
    else do
      let s ← logAny s
      some (0, s)

/-- `log_deinit`. -/
def logDeinit (s : LoggerState) : Option LoggerState :=
  if s.fd < 0 ∨ s.fd = stderrFileno then some s else s.closeFd

/-- `log_reopen`. -/
def logReopen (s : LoggerState) (opens : Bool) : Option LoggerState :=
  if s.fd ≠ stderrFileno then do
    let s ← s.closeFd
    let s := s.openLog s.name opens
    if s.fd < 0 then s.touch stderrFileno (some (.stream 2)) else some s
  else some s

/-! ### The runs -/

/-- A call of the logger. -/
inductive LoggerCall where
  | init (outputType : ℤ) (filename : Option Bytes) (opens : Bool)
  | reopen (opens : Bool)
  | deinit
  | line
  deriving DecidableEq, Repr

/-- What happens in the process: a call of the logger, or a file that somebody else opens, or closes
by its number. -/
inductive LoggerEvent where
  | call (c : LoggerCall)
  | opened (k : ℕ)
  | closed (n : ℕ)
  deriving DecidableEq, Repr

/-- The call, where the event is one. -/
def LoggerEvent.call? : LoggerEvent → Option LoggerCall
  | call c => some c
  | _ => none

/-- A call; nothing is left to say once harm is done. -/
def loggerCall (s : LoggerState) : LoggerCall → Option LoggerState
  | .init outputType filename opens => (logInit s outputType filename opens).map Prod.snd
  | .reopen opens => logReopen s opens
  | .deinit => logDeinit s
  | .line => logAny s

/-- One event. -/
def loggerStep (s : LoggerState) : LoggerEvent → Option LoggerState
  | .call c => loggerCall s c
  | .opened k => some { s with files := (s.files.openFile (.foreign k)).1 }
  | .closed n => some { s with files := s.files.close n }

/-- Whatever the rest of the process closes, from this state on, is a file of its own. -/
def OwnCloses : LoggerState → List LoggerEvent → Prop
  | _, [] => True
  | s, e :: events =>
    (∀ n h, e = .closed n → s.files.get n = some h → ∃ k, h = .foreign k) ∧
      ∀ t, loggerStep s e = some t → OwnCloses t events

/-- The process at its start: three streams, and a logger that is zero and was told of no file. -/
def LoggerState.start : LoggerState where
  files := { entries := [some (.stream 0), some (.stream 1), some (.stream 2)] }
  name := none
  fd := 0
  told := none

/-! ### The plan -/

/-- What the logger does with a line: it goes to a file, is left out, or has no file to go to, since
none was chosen yet or the last one was closed. -/
inductive LoggerMode where
  | writing (h : Holder)
  | silent
  | unset
  deriving DecidableEq, Repr

/-- What the logger should be doing, whether standard output is still open, and the name of the log
file. -/
structure LoggerPlan where
  mode : LoggerMode
  stdoutKept : Bool
  name : Option Bytes
  deriving DecidableEq, Repr

namespace LoggerPlan

/-- A file is chosen. -/
def openLog (p : LoggerPlan) (opens : Bool) : LoggerPlan :=
  match p.name with
  | some (c :: cs) => { p with mode := if opens then .writing (.logFile (c :: cs)) else .silent }
  | _ => { p with mode := .silent }

/-- The file is closed. -/
def drop (p : LoggerPlan) (h : Holder) : LoggerPlan :=
  { p with mode := .unset, stdoutKept := p.stdoutKept && h ≠ .stream 1 }

/-- Standard output is chosen, which must be open. -/
def toStdout (p : LoggerPlan) : Option LoggerPlan :=
  if p.stdoutKept then some { p with mode := .writing (.stream 1) } else none

/-- A call; none where it is not allowed. -/
def step (p : LoggerPlan) : LoggerCall → Option LoggerPlan
  | .init outputType filename opens =>
    let p := { p with name := filename }
    if outputType < logStdoutType ∨ outputType > logDefineType then some p
    else if outputType = logStdoutType then p.toStdout
    else if outputType = logStderrType then some { p with mode := .writing (.stream 2) }
    else if filename = none ∨ filename = some [] then p.toStdout
    else some (p.openLog opens)
  | .reopen opens =>
    match p.mode with
    | .unset => none
    | .silent => some (p.openLog opens)
    | .writing h => some (if h = .stream 2 then p else (p.drop h).openLog opens)
  | .deinit =>
    match p.mode with
    | .unset => none
    | .silent => some p
    | .writing h => some (if h = .stream 2 then p else p.drop h)
  | .line => if p.mode = .unset then none else some p

/-- The plan at the start of the process. -/
def start : LoggerPlan where
  mode := .unset
  stdoutKept := true
  name := none

theorem openLog_mode_ne (p : LoggerPlan) (opens : Bool) : (p.openLog opens).mode ≠ .unset := by
  rw [openLog]
  split
  · cases opens <;> simp
  · simp

end LoggerPlan

/-! ### The streams -/

/-- The streams are where they were, but for standard output, which may have been closed. -/
structure Streams (files : Descriptors Holder) (stdoutKept : Bool) : Prop where
  own : ∀ n k, files.get n = some (.stream k) → n = k
  stderr : files.get 2 = some (.stream 2)
  stdout : stdoutKept = true ↔ files.get 1 = some (.stream 1)

namespace Streams

variable {files : Descriptors Holder} {kept : Bool} {h : Holder}

/-- A new file is no stream. -/
theorem openFile (hs : Streams files kept) (hnew : ∀ n, h ≠ .stream n) :
    Streams (files.openFile h).1 kept where
  own n k hget := by
    rw [Descriptors.get_openFile] at hget
    split at hget
    · exact absurd (Option.some.inj hget) (hnew k)
    · exact hs.own n k hget
  stderr := files.get_openFile_of_some h hs.stderr
  stdout := by
    rw [hs.stdout]
    refine ⟨files.get_openFile_of_some h, fun hget => ?_⟩
    rw [Descriptors.get_openFile] at hget
    split at hget
    · exact absurd (Option.some.inj hget) (hnew 1)
    · exact hget

/-- What is closed is not standard error, but it may be standard output. -/
theorem close (hs : Streams files kept) {n : ℕ} (hget : files.get n = some h)
    (hne : h ≠ .stream 2) : Streams (files.close n) (kept && h ≠ .stream 1) where
  own m k hm := by
    rw [Descriptors.get_close] at hm
    split at hm
    · cases hm
    · exact hs.own m k hm
  stderr := by
    rw [Descriptors.get_close, if_neg, hs.stderr]
    rintro rfl
    exact hne (Option.some.inj (hget.symm.trans hs.stderr))
  stdout := by
    rw [Bool.and_eq_true, decide_eq_true_eq, hs.stdout, Descriptors.get_close]
    by_cases hn : 1 = n
    · subst hn
      rw [if_pos rfl, hget, Option.some.injEq]
      exact ⟨fun hboth => absurd hboth.1 hboth.2, fun hnone => by cases hnone⟩
    · rw [if_neg hn]
      refine ⟨And.left, fun hout => ⟨hout, ?_⟩⟩
      rintro rfl
      exact hn (hs.own n 1 hget).symm

/-- Closing a file of the rest of the process, or a number that is not in use, closes no stream. -/
theorem close_foreign (hs : Streams files kept) {n : ℕ}
    (hget : ∀ h, files.get n = some h → ∃ k, h = .foreign k) : Streams (files.close n) kept where
  own m k hm := by
    rw [Descriptors.get_close] at hm
    split at hm
    · cases hm
    · exact hs.own m k hm
  stderr := by
    rw [Descriptors.get_close, if_neg, hs.stderr]
    rintro rfl
    obtain ⟨k, hk⟩ := hget _ hs.stderr
    cases hk
  stdout := by
    rw [hs.stdout, Descriptors.get_close]
    by_cases hn : 1 = n
    · subst hn
      rw [if_pos rfl]
      refine iff_of_false (fun hout => ?_) (by simp)
      obtain ⟨k, hk⟩ := hget _ hout
      cases hk
    · rw [if_neg hn]

end Streams

/-! ### The state and the plan -/

namespace LoggerState

/-- The state is what the plan says of it. -/
def Shows (s : LoggerState) : LoggerMode → Prop
  | .writing h => (∃ n : ℕ, s.fd = n ∧ s.files.get n = some h) ∧ s.told = some h
  | .silent => s.fd < 0
  | .unset => ∃ n : ℕ, s.fd = n ∧ n ≠ 2 ∧ ∀ h, s.files.get n = some h → s.told ≠ some h

/-- The logger does what the plan says. -/
structure Follows (s : LoggerState) (p : LoggerPlan) : Prop where
  name : s.name = p.name
  streams : Streams s.files p.stdoutKept
  told : ∀ k, s.told ≠ some (.foreign k)
  mode : s.Shows p.mode

theorem start_follows : start.Follows LoggerPlan.start where
  name := rfl
  streams :=
    { own := by
        intro n k hget
        match n with
        | 0 | 1 | 2 =>
          rw [start, Descriptors.get] at hget
          simpa using hget
        | n + 3 => cases hget
      stderr := rfl
      stdout := ⟨fun _ => rfl, fun _ => rfl⟩ }
  told := fun k hk => by cases hk
  mode := ⟨0, rfl, by decide, fun h _ hh => by cases hh⟩

variable {s : LoggerState} {p : LoggerPlan} {h : Holder} {n : ℕ}

/-- A number of the right file, or of none, may be touched. -/
theorem touch_of_get {fd : ℤ} (hfd : fd = n) (hget : s.files.get n = some h) :
    s.touch fd (some h) = some s := by
  rw [touch, hfd, if_neg (by omega), Int.toNat_natCast, hget]
  exact if_pos rfl

/-- Standard error may always be touched. -/
theorem Follows.touch_stderr (hs : s.Follows p) :
    s.touch stderrFileno (some (.stream 2)) = some s :=
  touch_of_get (n := 2) rfl hs.streams.stderr

/-- A number of another file may not be touched. -/
theorem touch_of_ne {fd : ℤ} (hfd : fd = n) {other : Holder} {told : Option Holder}
    (hget : s.files.get n = some other) (hne : told ≠ some other) : s.touch fd told = none := by
  rw [touch, hfd, if_neg (by omega), Int.toNat_natCast, hget]
  exact if_neg hne.symm

/-- Where the logger writes, it writes to its file. -/
theorem Follows.fd_eq_stderr_iff (hs : s.Follows p) (hmode : p.mode = .writing h) :
    s.fd = stderrFileno ↔ h = .stream 2 := by
  have hshows := hs.mode
  rw [hmode] at hshows
  obtain ⟨⟨n, hn, hget⟩, -⟩ := hshows
  rw [hn]
  constructor
  · intro htwo
    have hnum : n = 2 := by
      rw [stderrFileno] at htwo
      omega
    rw [hnum, hs.streams.stderr] at hget
    exact (Option.some.inj hget).symm
  · rintro rfl
    rw [hs.streams.own n 2 hget]
    rfl

/-- A file is opened where it has a name, or there is none. -/
theorem Follows.openLog (hname : s.name = p.name) (hstreams : Streams s.files p.stdoutKept)
    (htold : ∀ k, s.told ≠ some (.foreign k)) (opens : Bool) :
    (s.openLog s.name opens).Follows (p.openLog opens) := by
  obtain ⟨files, file, fd, told⟩ := s
  obtain ⟨mode, kept, name⟩ := p
  obtain rfl : file = name := hname
  have hnone : (-1 : ℤ) < 0 := by decide
  match file, opens with
  | none, _ => exact ⟨rfl, hstreams, htold, hnone⟩
  | some [], _ => exact ⟨rfl, hstreams, htold, hnone⟩
  | some (c :: cs), false => exact ⟨rfl, hstreams, htold, hnone⟩
  | some (c :: cs), true =>
    refine ⟨rfl, hstreams.openFile fun n hn => ?_, fun k hk => ?_, ?_⟩
    · cases hn
    · cases hk
    · exact ⟨⟨_, rfl, files.get_openFile_self _⟩, rfl⟩

/-- The file is closed, unless it is standard error. -/
theorem Follows.closeFd (hs : s.Follows p) (hmode : p.mode = .writing h) (hne : h ≠ .stream 2) :
    ∃ t, s.closeFd = some t ∧ t.Follows (p.drop h) := by
  have hfd := hs.fd_eq_stderr_iff hmode
  have hshows := hs.mode
  rw [hmode] at hshows
  obtain ⟨⟨n, hn, hget⟩, htold⟩ := hshows
  refine ⟨{ s with files := s.files.close n }, ?_, hs.name, hs.streams.close hget hne, hs.told, ?_⟩
  · have hfresh : s.touch s.fd s.told = some s := by
      rw [htold]
      exact touch_of_get hn hget
    rw [LoggerState.closeFd, hfresh, Option.bind_eq_bind, Option.bind_some, if_neg (by omega), hn,
      Int.toNat_natCast]
  · refine ⟨n, hn, ?_, fun h hh => ?_⟩
    · rintro rfl
      exact hne (hfd.1 hn)
    · rw [Descriptors.get_close, if_pos rfl] at hh
      cases hh

/-! ### The calls -/

/-- The file is chosen, and the first line is written to it. -/
theorem logReady_follows {fd : ℤ} (hname : s.name = p.name)
    (hstreams : Streams s.files p.stdoutKept) (hfd : fd = n) (hget : s.files.get n = some h)
    (hlogs : ∀ k, h ≠ .foreign k) :
    ∃ t, logReady s fd h = some (0, t) ∧ t.Follows { p with mode := .writing h } := by
  refine ⟨{ s with fd := fd, told := some h }, ?_, hname, hstreams, ?_, ⟨n, hfd, hget⟩, rfl⟩
  swap
  · exact fun k hk => hlogs k (Option.some.inj hk)
  have hfresh : logAny { s with fd := fd, told := some h } =
      some { s with fd := fd, told := some h } :=
    touch_of_get (s := { s with fd := fd, told := some h }) hfd hget
  rw [logReady, hfresh]
  rfl

/-- Standard output is chosen while it is open. -/
theorem logReady_stdout {q : LoggerPlan} (hname : s.name = p.name)
    (hstreams : Streams s.files p.stdoutKept) (hq : p.toStdout = some q) :
    ∃ t, logReady s 1 (.stream 1) = some (0, t) ∧ t.Follows q := by
  rw [LoggerPlan.toStdout] at hq
  split at hq
  · rename_i hkept
    obtain rfl := Option.some.inj hq
    exact logReady_follows (n := 1) hname hstreams rfl (hstreams.stdout.1 hkept)
      fun k hk => by cases hk
  · cases hq

/-- A line, where there is a file for it or it is left out. -/
theorem Follows.line (hs : s.Follows p) (hmode : p.mode ≠ .unset) : logAny s = some s := by
  have hshows := hs.mode
  rw [logAny]
  cases hcase : p.mode with
  | writing h =>
      rw [hcase] at hshows
      obtain ⟨⟨n, hn, hget⟩, htold⟩ := hshows
      rw [htold]
      exact touch_of_get hn hget
  | silent =>
      rw [hcase] at hshows
      exact if_pos hshows
  | unset => exact absurd hcase hmode

theorem Follows.init {q : LoggerPlan} (hs : s.Follows p) {outputType : ℤ}
    {filename : Option Bytes} {opens : Bool}
    (hq : p.step (.init outputType filename opens) = some q) :
    ∃ r t, logInit s outputType filename opens = some (r, t) ∧ t.Follows q := by
  have hfile : { s with name := filename }.Follows { p with name := filename } :=
    ⟨rfl, hs.streams, hs.told, hs.mode⟩
  rw [LoggerPlan.step] at hq
  rw [logInit]
  dsimp only at hq ⊢
  split at hq
  · rename_i hrange
    obtain rfl := Option.some.inj hq
    rw [if_pos hrange]
    exact ⟨_, _, rfl, hfile⟩
  rename_i hrange
  rw [if_neg hrange]
  split at hq
  · rename_i hout
    rw [if_pos hout]
    exact ⟨0, logReady_stdout hfile.name hfile.streams hq⟩
  rename_i hout
  rw [if_neg hout]
  split at hq
  · rename_i herr
    obtain rfl := Option.some.inj hq
    rw [if_pos herr]
    exact ⟨0, logReady_follows (n := 2) hfile.name hfile.streams rfl hfile.streams.stderr
      fun k hk => by cases hk⟩
  rename_i herr
  rw [if_neg herr]
  split at hq
  · rename_i hempty
    rw [if_pos hempty]
    exact ⟨0, logReady_stdout hfile.name hfile.streams hq⟩
  rename_i hempty
  obtain rfl := Option.some.inj hq
  have hopened := Follows.openLog hfile.name hfile.streams hfile.told opens
  rw [if_neg hempty]
  split
  · rw [hopened.touch_stderr]
    exact ⟨_, _, rfl, hopened⟩
  · rename_i hfd
    refine ⟨0, _, ?_, hopened⟩
    rw [hopened.line (LoggerPlan.openLog_mode_ne _ opens)]
    rfl

theorem Follows.deinit {q : LoggerPlan} (hs : s.Follows p) (hq : p.step .deinit = some q) :
    ∃ t, logDeinit s = some t ∧ t.Follows q := by
  have hshows := hs.mode
  rw [LoggerPlan.step] at hq
  rw [logDeinit]
  cases hcase : p.mode with
  | writing h =>
      rw [hcase] at hq hshows
      have hfd := hs.fd_eq_stderr_iff hcase
      obtain ⟨⟨n, hn, hget⟩, -⟩ := hshows
      obtain rfl := Option.some.inj hq
      by_cases htwo : h = .stream 2
      · rw [if_pos (Or.inr (hfd.2 htwo)), if_pos htwo]
        exact ⟨s, rfl, hs⟩
      · obtain ⟨t, ht, hfollows⟩ := hs.closeFd hcase htwo
        rw [if_neg, if_neg htwo]
        · exact ⟨t, ht, hfollows⟩
        · rw [hfd]
          rintro (hneg | heq)
          · omega
          · exact htwo heq
  | silent =>
      rw [hcase] at hq hshows
      obtain rfl := Option.some.inj hq
      have hneg : s.fd < 0 := hshows
      rw [if_pos (Or.inl hneg)]
      exact ⟨s, rfl, hs⟩
  | unset =>
      rw [hcase] at hq
      cases hq

/-- The file is opened again once it is closed. -/
theorem logReopen_follows {t : LoggerState} {opens : Bool} (hfd : s.fd ≠ stderrFileno)
    (hclose : s.closeFd = some t) (hname : t.name = p.name)
    (hstreams : Streams t.files p.stdoutKept) (htold : ∀ k, t.told ≠ some (.foreign k)) :
    ∃ u, logReopen s opens = some u ∧ u.Follows (p.openLog opens) := by
  have hopened := Follows.openLog hname hstreams htold opens
  refine ⟨_, ?_, hopened⟩
  rw [logReopen, if_pos hfd, hclose, Option.bind_eq_bind, Option.bind_some]
  dsimp only
  split
  · exact hopened.touch_stderr
  · rfl

theorem Follows.reopen {q : LoggerPlan} (hs : s.Follows p) {opens : Bool}
    (hq : p.step (.reopen opens) = some q) : ∃ t, logReopen s opens = some t ∧ t.Follows q := by
  have hshows := hs.mode
  rw [LoggerPlan.step] at hq
  cases hcase : p.mode with
  | writing h =>
      rw [hcase] at hq
      obtain rfl := Option.some.inj hq
      have hfd := hs.fd_eq_stderr_iff hcase
      by_cases htwo : h = .stream 2
      · rw [if_pos htwo, logReopen, if_neg (not_not_intro (hfd.2 htwo))]
        exact ⟨s, rfl, hs⟩
      · obtain ⟨t, ht, hfollows⟩ := hs.closeFd hcase htwo
        rw [if_neg htwo]
        exact logReopen_follows (mt hfd.1 htwo) ht hfollows.name hfollows.streams hfollows.told
  | silent =>
      rw [hcase] at hq hshows
      obtain rfl := Option.some.inj hq
      have hneg : s.fd < 0 := hshows
      have hnone : s.closeFd = some s := by
        rw [LoggerState.closeFd, touch, if_pos hneg, Option.bind_eq_bind, Option.bind_some,
          if_pos hneg]
      have hfd : s.fd ≠ stderrFileno := by
        rw [stderrFileno]
        omega
      exact logReopen_follows hfd hnone hs.name hs.streams hs.told
  | unset =>
      rw [hcase] at hq
      cases hq

/-- **The step lemma**: a call that the plan allows is safe, and what the plan says. -/
theorem Follows.call {q : LoggerPlan} (hs : s.Follows p) {c : LoggerCall} (hq : p.step c = some q) :
    ∃ t, loggerCall s c = some t ∧ t.Follows q := by
  cases c with
  | init outputType filename opens =>
      obtain ⟨r, t, ht, hfollows⟩ := hs.init hq
      rw [loggerCall, ht]
      exact ⟨t, rfl, hfollows⟩
  | reopen opens => exact hs.reopen hq
  | deinit => exact hs.deinit hq
  | line =>
      rw [LoggerPlan.step] at hq
      split at hq
      · cases hq
      · rename_i hmode
        obtain rfl := Option.some.inj hq
        exact ⟨s, hs.line hmode, hs⟩

/-! ### The rest of the process -/

/-- Another file is opened. -/
theorem Follows.opened (hs : s.Follows p) (k : ℕ) :
    Follows { s with files := (s.files.openFile (.foreign k)).1 } p where
  name := hs.name
  streams := hs.streams.openFile fun n hn => by cases hn
  told := hs.told
  mode := by
    have hshows := hs.mode
    cases hcase : p.mode with
    | writing h =>
        rw [hcase] at hshows
        obtain ⟨⟨n, hn, hget⟩, htold⟩ := hshows
        exact ⟨⟨n, hn, s.files.get_openFile_of_some _ hget⟩, htold⟩
    | silent =>
        rw [hcase] at hshows
        exact hshows
    | unset =>
        rw [hcase] at hshows
        obtain ⟨n, hn, hne, hlost⟩ := hshows
        refine ⟨n, hn, hne, fun h hh => ?_⟩
        rw [Descriptors.get_openFile] at hh
        split at hh
        · rw [← hh]
          exact hs.told k
        · exact hlost h hh

/-- A file of the rest of the process is closed. -/
theorem Follows.closed (hs : s.Follows p)
    (hget : ∀ h, s.files.get n = some h → ∃ k, h = .foreign k) :
    Follows { s with files := s.files.close n } p where
  name := hs.name
  streams := hs.streams.close_foreign hget
  told := hs.told
  mode := by
    have hshows := hs.mode
    cases hcase : p.mode with
    | writing h =>
        rw [hcase] at hshows
        obtain ⟨⟨m, hm, hown⟩, htold⟩ := hshows
        refine ⟨⟨m, hm, ?_⟩, htold⟩
        rw [Descriptors.get_close, if_neg, hown]
        rintro rfl
        obtain ⟨k, rfl⟩ := hget h hown
        exact hs.told k htold
    | silent =>
        rw [hcase] at hshows
        exact hshows
    | unset =>
        rw [hcase] at hshows
        obtain ⟨m, hm, hne, hlost⟩ := hshows
        refine ⟨m, hm, hne, fun h hh => ?_⟩
        rw [Descriptors.get_close] at hh
        split at hh
        · cases hh
        · exact hlost h hh

/-- **The step lemma**, for what the rest of the process does. -/
theorem Follows.foreign (hs : s.Follows p) {e : LoggerEvent} (he : e.call? = none)
    (hown : ∀ n h, e = .closed n → s.files.get n = some h → ∃ k, h = .foreign k) :
    ∃ t, loggerStep s e = some t ∧ t.Follows p := by
  cases e with
  | call c => cases he
  | opened k => exact ⟨_, rfl, hs.opened k⟩
  | closed n => exact ⟨_, rfl, hs.closed fun h => hown n h rfl⟩

/-- **The run lemma**: calls that the plan allows are safe, whatever happens between them. -/
theorem Follows.run {q : LoggerPlan} (hs : s.Follows p) (events : List LoggerEvent)
    (hown : OwnCloses s events)
    (hq : (events.filterMap LoggerEvent.call?).foldlM LoggerPlan.step p = some q) :
    ∃ t, events.foldlM loggerStep s = some t ∧ t.Follows q := by
  induction events generalizing s p with
  | nil =>
      obtain rfl := Option.some.inj hq
      exact ⟨s, rfl, hs⟩
  | cons e events ih =>
      obtain ⟨hclose, hrest⟩ := hown
      rw [List.foldlM_cons]
      cases hcall : e.call? with
      | none =>
          rw [List.filterMap_cons_none hcall] at hq
          obtain ⟨t, ht, hfollows⟩ := hs.foreign hcall hclose
          rw [ht, Option.bind_eq_bind, Option.bind_some]
          exact ih hfollows (hrest t ht) hq
      | some c =>
          rw [List.filterMap_cons_some hcall, List.foldlM_cons, Option.bind_eq_bind,
            Option.bind_eq_some_iff] at hq
          obtain ⟨r, hr, hq⟩ := hq
          obtain ⟨t, ht, hfollows⟩ := hs.call hr
          have hstep : loggerStep s e = some t := by
            cases e with
            | call d =>
                obtain rfl := Option.some.inj hcall
                exact ht
            | opened k => cases hcall
            | closed n => cases hcall
          rw [hstep, Option.bind_eq_bind, Option.bind_some]
          exact ih hfollows (hrest t hstep) hq

/-! ### What is not allowed -/

/-- A number that is not the logger's is another file's after enough files were opened. -/
theorem exists_taken (files : Descriptors Holder) {told : Option Holder}
    (hget : ∀ h, files.get n = some h → told ≠ some h) (hlogs : ∀ k, told ≠ some (.foreign k)) :
    ∃ k other, (files.opens (.foreign 0) k).get n = some other ∧ told ≠ some other := by
  cases hcase : files.get n with
  | none =>
      obtain ⟨k, hk⟩ := files.exists_opens (.foreign 0) hcase
      exact ⟨k, .foreign 0, hk, hlogs 0⟩
  | some other => exact ⟨0, other, hcase, hget other hcase⟩

/-- The other files are opened one after the other. -/
theorem foldlM_opened (s : LoggerState) (k : ℕ) :
    (List.replicate k (LoggerEvent.opened 0)).foldlM loggerStep s =
      some { s with files := s.files.opens (.foreign 0) k } := by
  induction k generalizing s with
  | zero => rfl
  | succ k ih =>
      rw [List.replicate_succ, List.foldlM_cons, loggerStep, Option.bind_eq_bind,
        Option.bind_some, ih, Descriptors.opens]

/-- Standard output is chosen, but the number is another file's. -/
theorem logReady_of_ne {other : Holder} (hget : s.files.get 1 = some other)
    (hne : some (.stream 1) ≠ some other) : logReady s 1 (.stream 1) = none := by
  have hharm : logAny { s with fd := 1, told := some (.stream 1) } = none :=
    touch_of_ne (s := { s with fd := 1, told := some (.stream 1) }) (n := 1) rfl hget hne
  rw [logReady, hharm]
  rfl

/-- `log_init` is not allowed only where it takes standard output for open. -/
theorem logInit_of_step_eq_none {outputType : ℤ} {filename : Option Bytes} {opens : Bool}
    (hq : p.step (.init outputType filename opens) = none) :
    p.stdoutKept = false ∧ ∀ s : LoggerState,
      logInit s outputType filename opens =
        logReady { s with name := filename } 1 (.stream 1) := by
  have hout : ∀ p : LoggerPlan, p.toStdout = none → p.stdoutKept = false := by
    intro p hp
    rw [LoggerPlan.toStdout] at hp
    split at hp
    · cases hp
    · rename_i hkept
      exact Bool.eq_false_of_not_eq_true hkept
  rw [LoggerPlan.step] at hq
  dsimp only at hq
  split at hq
  · cases hq
  rename_i hrange
  split at hq
  · rename_i htype
    refine ⟨hout { p with name := filename } hq, fun s => ?_⟩
    rw [logInit]
    dsimp only
    rw [if_neg hrange, if_pos htype]
  rename_i htype
  split at hq
  · cases hq
  rename_i herr
  split at hq
  · rename_i hempty
    refine ⟨hout { p with name := filename } hq, fun s => ?_⟩
    rw [logInit]
    dsimp only
    rw [if_neg hrange, if_neg htype, if_neg herr, if_pos hempty]
  · cases hq

/-- Every call but `log_init` uses the number that the logger has. -/
theorem loggerCall_of_touch {c : LoggerCall} (hfd : s.fd = n) (hne : n ≠ 2)
    (hharm : s.touch s.fd s.told = none) (hinit : ∀ t f o, c ≠ .init t f o) :
    loggerCall s c = none := by
  have hother : s.fd ≠ stderrFileno := by
    rw [hfd, stderrFileno]
    omega
  have hclose : s.closeFd = none := by
    rw [closeFd, hharm]
    rfl
  cases c with
  | init outputType filename opens => exact absurd rfl (hinit _ _ _)
  | reopen opens =>
      rw [loggerCall, logReopen, if_pos hother, hclose]
      rfl
  | deinit =>
      rw [loggerCall, logDeinit, if_neg, hclose]
      rintro (hneg | heq)
      · omega
      · exact hother heq
  | line => exact hharm

/-- Only a file that is missing is in the way of the calls but `log_init`. -/
theorem mode_of_step_eq_none {c : LoggerCall} (hq : p.step c = none)
    (hinit : ∀ t f o, c ≠ .init t f o) : p.mode = .unset := by
  cases c with
  | init outputType filename opens => exact absurd rfl (hinit _ _ _)
  | reopen opens =>
      rw [LoggerPlan.step] at hq
      split at hq
      · assumption
      · cases hq
      · cases hq
  | deinit =>
      rw [LoggerPlan.step] at hq
      split at hq
      · assumption
      · cases hq
      · cases hq
  | line =>
      rw [LoggerPlan.step] at hq
      split at hq
      · assumption
      · cases hq

/-- Opening other files is no call. -/
theorem filterMap_opened (k : ℕ) :
    (List.replicate k (LoggerEvent.opened 0)).filterMap LoggerEvent.call? = [] := by
  induction k with
  | zero => rfl
  | succ k ih => exact ih

/-- The calls of the calls. -/
theorem filterMap_map_call (calls : List LoggerCall) :
    (calls.map LoggerEvent.call).filterMap LoggerEvent.call? = calls := by
  induction calls with
  | nil => rfl
  | cons c calls ih => exact congrArg (c :: ·) ih

/-- **A call that the plan does not allow does harm** after enough files were opened. -/
theorem Follows.harm (hs : s.Follows p) {c : LoggerCall} (hq : p.step c = none) :
    ∃ k, loggerCall { s with files := s.files.opens (.foreign 0) k } c = none := by
  by_cases hinit : ∃ t f o, c = .init t f o
  · obtain ⟨outputType, filename, opens, rfl⟩ := hinit
    obtain ⟨hkept, hready⟩ := logInit_of_step_eq_none hq
    have hout : ∀ h, s.files.get 1 = some h → some (.stream 1) ≠ some h := by
      rintro h hget hh
      rw [hs.streams.stdout.2 (hget.trans hh.symm)] at hkept
      cases hkept
    obtain ⟨k, other, hget, hne⟩ := exists_taken s.files hout fun k hk => by cases hk
    refine ⟨k, ?_⟩
    rw [loggerCall, hready, logReady_of_ne hget hne]
    rfl
  · have hother : ∀ t f o, c ≠ .init t f o := fun t f o heq => hinit ⟨t, f, o, heq⟩
    have hshows := hs.mode
    rw [mode_of_step_eq_none hq hother] at hshows
    obtain ⟨n, hn, hne, hlost⟩ := hshows
    obtain ⟨k, other, hget, hnot⟩ := exists_taken s.files hlost hs.told
    refine ⟨k, loggerCall_of_touch (n := n) hn hne ?_ hother⟩
    exact touch_of_ne (s := { s with files := s.files.opens (.foreign 0) k }) hn hget hnot

/-- Where the rest of the process closes nothing, it closes no file but its own. -/
theorem ownCloses_of_ne {events : List LoggerEvent} (h : ∀ e ∈ events, ∀ n, e ≠ .closed n) :
    OwnCloses s events := by
  induction events generalizing s with
  | nil => trivial
  | cons e events ih =>
      refine ⟨fun n _ hclosed => absurd hclosed (h e List.mem_cons_self n), fun t _ => ?_⟩
      exact ih fun e he => h e (List.mem_cons_of_mem _ he)

/-- **The run lemma** for calls of which one is not allowed. -/
theorem Follows.harm_run (hs : s.Follows p) (calls : List LoggerCall)
    (hq : calls.foldlM LoggerPlan.step p = none) :
    ∃ events : List LoggerEvent, events.filterMap LoggerEvent.call? = calls ∧
      (∀ e ∈ events, ∀ n, e ≠ .closed n) ∧ events.foldlM loggerStep s = none := by
  induction calls generalizing s p with
  | nil => cases hq
  | cons c calls ih =>
      cases hstep : p.step c with
      | none =>
          obtain ⟨k, hk⟩ := hs.harm hstep
          refine ⟨List.replicate k (.opened 0) ++ (c :: calls).map .call, ?_, ?_, ?_⟩
          · rw [List.filterMap_append, filterMap_opened, List.nil_append, filterMap_map_call]
          · intro e he n hclosed
            rcases List.mem_append.1 he with hopened | hcall
            · rw [List.eq_of_mem_replicate hopened] at hclosed
              cases hclosed
            · obtain ⟨d, -, rfl⟩ := List.mem_map.1 hcall
              cases hclosed
          · rw [List.foldlM_append, foldlM_opened, Option.bind_eq_bind, Option.bind_some,
              List.map_cons, List.foldlM_cons, loggerStep, hk]
            rfl
      | some q =>
          rw [List.foldlM_cons, hstep, Option.bind_eq_bind, Option.bind_some] at hq
          obtain ⟨t, ht, hfollows⟩ := hs.call hstep
          obtain ⟨events, hcalls, hclosed, hharm⟩ := ih hfollows hq
          refine ⟨.call c :: events, ?_, ?_, ?_⟩
          · exact congrArg (c :: ·) hcalls
          · rintro e (_ | ⟨_, he⟩) n
            · rintro ⟨⟩
            · exact hclosed e he n
          · rw [List.foldlM_cons, loggerStep, ht, Option.bind_eq_bind, Option.bind_some, hharm]

end LoggerState

/-- **Which calls are safe whatever happens between them.**  As long as the rest of the process
closes no file but its own: no call writes to, or closes, a file that the logger did not choose
exactly when the plan allows each of them. -/
theorem logger_safe_iff (calls : List LoggerCall) :
    (∀ events : List LoggerEvent, events.filterMap LoggerEvent.call? = calls →
      OwnCloses LoggerState.start events →
        (events.foldlM loggerStep LoggerState.start).isSome) ↔
      (calls.foldlM LoggerPlan.step LoggerPlan.start).isSome := by
  constructor
  · intro hsafe
    rw [Option.isSome_iff_ne_none]
    intro hnone
    obtain ⟨events, hcalls, hclosed, hharm⟩ := LoggerState.start_follows.harm_run calls hnone
    have hrun := hsafe events hcalls (LoggerState.ownCloses_of_ne hclosed)
    rw [hharm] at hrun
    cases hrun
  · rintro hplan events rfl hown
    obtain ⟨q, hq⟩ := Option.isSome_iff_exists.1 hplan
    obtain ⟨t, ht, -⟩ := LoggerState.start_follows.run events hown hq
    rw [ht]
    rfl

/-- A line after the log file was closed, and one before a file was chosen. -/
example : [.init 2 (some [0x61]) true, .deinit, .line].foldlM LoggerPlan.step LoggerPlan.start =
    none ∧ [.line].foldlM LoggerPlan.step LoggerPlan.start = none := ⟨rfl, rfl⟩

end Log
