/-
**Full writes.**

`write_n` hands its buffer over in as many calls to `write` as it takes.  It goes on after a short
write and after an interruption, and stops when a call returns 0 or fails with another error, so
that what it has handed over is always a first part of the buffer, as long as the number it
returns.

Main definitions:

* `Stopping` — the next call ends the loop;
* `WritesInOrder` — what a call to `write_n` is expected to do.

Main results:

* `writeN_writesInOrder` — **under every schedule the buffer is handed over in order**, and a call
  that stops short of its end has a reason to.
-/

import SdsStorage.Utils

set_option relaxedAutoImplicit false
set_option autoImplicit false

namespace Utils

/-- The next call returns 0, or fails with an error that is not an interruption. -/
def Stopping (sk : Sink) : Prop :=
  sk.answers.head? = some .zero ∨ sk.answers.head? = some .fail

/-- The state the loop of `write_n` starts from. -/
def writeNStart (sk : Sink) : WriteN := { writen := 0, sink := sk }

/-- What is expected of a call: what was handed over is a first part of the buffer, its length is
the result, and the turn that leaves the loop has handed over everything, or meets a call that
returns 0 or fails; a call that does not return has come to the end of the schedule. -/
structure WritesInOrder (buf : ℤ → UInt8) (len : ℕ) (sk : Sink) (res : Option Fault × WriteN) :
    Prop where
  in_order : ∃ r : ℕ, r ≤ len ∧ res.2.writen = r ∧ res.2.sink.sent = sk.sent ++ memBytes buf 0 r
  stops : ∃ s, Loop.Reaches (writeNTurn false buf len) (writeNStart sk) s ∧
    writeNTurn false buf len s = .done res ∧
    (res.1 = none → res.2.writen = len ∨ Stopping s.sink) ∧
    (res.1 ≠ none → res.1 = some .blocked ∧ s.sink.answers = [])

/-- A turn that leaves the loop before everything is handed over has a reason to. -/
theorem WriteNSent.stops {buf : ℤ → UInt8} {len : ℕ} {sk : Sink} {s : WriteN}
    {res : Option Fault × WriteN} (hlen : len < 2 ^ 31) (hs : WriteNSent buf len sk s)
    (h : writeNTurn false buf len s = .done res) :
    (res.1 = none → res.2.writen = len ∨ Stopping s.sink) ∧
      (res.1 ≠ none → res.1 = some .blocked ∧ s.sink.answers = []) := by
  have h0 := hs.nonneg
  have hle := hs.le_len
  have hcounted := CInt.toUInt64_of_nonneg h0 (by omega)
  have hrest := CInt.toUInt64_sub_of_nonneg h0 hle (by omega)
  rcases writeNTurn_done_cases h with ⟨hge, rfl⟩ | ⟨hnull, -⟩ | ⟨hnil, rfl⟩ |
    ⟨ev, rest, hanswers, hev, rfl⟩
  · refine ⟨fun _ => Or.inl ?_, fun hne => absurd rfl hne⟩
    dsimp only
    omega
  · cases hnull
  · refine ⟨?_, fun _ => ⟨rfl, hnil⟩⟩
    intro hnone
    cases hnone
  · refine ⟨fun _ => ?_, fun hne => absurd rfl hne⟩
    rw [Stopping, hanswers]
    rcases hev with rfl | rfl | hzero
    · exact Or.inr (Or.inl rfl)
    · exact Or.inr (Or.inr rfl)
    · -- nothing was left to hand over
      refine Or.inl ?_
      dsimp only
      omega

/-- **Under every schedule the buffer is handed over in order.** -/
theorem writeN_writesInOrder (buf : ℤ → UInt8) {len : ℕ} (hlen : len < 2 ^ 31) (sk : Sink) :
    WritesInOrder buf len sk (writeN sk false buf len) := by
  obtain ⟨res, hrun⟩ := Option.isSome_iff_exists.1 (writeN_isSome sk false buf len)
  have hsent := writeN_sent buf hlen sk
  have hres : writeN sk false buf len = res := by rw [writeN, hrun, Option.getD_some]
  rw [hres] at hsent ⊢
  obtain ⟨s, hreach, hdone⟩ := Loop.reaches_of_run hrun
  have hs : WriteNSent buf len sk s := by
    refine hreach.inv (fun _ _ hs hturn => writeNTurn_again_sent hlen hs hturn) ?_
    exact ⟨Int.le_refl 0, Int.natCast_nonneg len, by simp [memBytes]⟩
  obtain ⟨r, hr⟩ := Int.eq_ofNat_of_zero_le hsent.nonneg
  refine ⟨⟨r, ?_, hr, ?_⟩, s, hreach, hdone, hs.stops hlen hdone⟩
  · have hle := hsent.le_len
    omega
  · rw [hsent.sent_eq, hr, Int.toNat_natCast]

/-- Five bytes that go out in two pieces, with an interruption between them, and of which the last
is refused. -/
theorem writeN_writesInOrder_five :
    WritesInOrder (memOf [1, 2, 3, 4, 5] fun _ => 0) 5
      { answers := [.accept 1, .intr, .accept 1, .fail], sent := [] }
      (writeN { answers := [.accept 1, .intr, .accept 1, .fail], sent := [] } false
        (memOf [1, 2, 3, 4, 5] fun _ => 0) 5) :=
  writeN_writesInOrder _ (by decide) _

end Utils
