/-
**Transfers over descriptors.**

`read` and `write` may move fewer bytes than asked for, be interrupted, fail, or find the end of
the stream.  What a descriptor will do is written down beforehand: a source lists what arrives, a
sink lists what each call to `write` will answer.  `read_n` and `write_n` repeat the calls until
the requested number of bytes has been moved, counting them in an `int`.

Main definitions:

* `ReadEvent`, `Source`, `Source.read` — what arrives on a descriptor, and one call to `read`;
* `Source.Reads` — what a call that returns has done;
* `WriteEvent`, `Sink`, `Sink.write` — the answers of a descriptor, and one call to `write`;
* `Utils.readN`, `Utils.writeN` — `read_n` and `write_n`;
* `Utils.parseFileName`, `Utils.baseName` — `parse_file_name`, and what it is to find.

Main results:

* `Utils.readN_isSome`, `Utils.writeN_isSome` — both loops come to an end, or wait;
* `Utils.readNTurn_again_read`, `Utils.writeNTurn_again_cases`, `Utils.writeNTurn_done_cases` — what
  the turns of the loops do;
* `Utils.readN_rule` — the invariant rule of `read_n`;
* `Utils.readN_inv` — `read_n` stores within its buffer;
* `Utils.readN_null` — **`read_n` into a null buffer moves nothing**;
* `Utils.writeN_sent` — **`write_n` counts what it has handed over**;
* `Utils.writeN_of_accepts` — **`write_n` sends its buffer in order under any segmentation**, or
  has sent a first part of it and waits;
* `Utils.parseFileName_cstr` — `parse_file_name` finds what follows the last `/`.
-/

import SdsStorage.Loop
import SdsStorage.Slice
import Mathlib.Data.List.DropRight
import Mathlib.Data.List.Infix

set_option relaxedAutoImplicit false
set_option autoImplicit false

/-! ### What arrives on a descriptor -/

/-- What the next call to `read` finds. -/
inductive ReadEvent where
  /-- The bytes `b :: bs` have arrived; a call takes as many of them as it asks for. -/
  | data (b : UInt8) (bs : Bytes)
  /-- The call returns 0. -/
  | eof
  /-- The call returns -1 with `EINTR`. -/
  | intr
  /-- The call returns -1 with another error. -/
  | fail
  deriving DecidableEq, Repr

/-- The value of `EINTR`. -/
def eintr : ℤ := 4

/-- A descriptor to read from: what arrives on it, and whether its end comes after that. -/
structure Source where
  arrivals : List ReadEvent
  ended : Bool
  deriving DecidableEq, Repr

namespace Source

/-- The bytes of one event. -/
def eventBytes : ReadEvent → Bytes
  | .data b bs => b :: bs
  | _ => []

/-- The bytes that arrive, in order. -/
def bytes (src : Source) : Bytes := src.arrivals.flatMap eventBytes

/-- A bound on the number of calls that find something. -/
def weight (src : Source) : ℕ := (src.arrivals.map fun ev => (eventBytes ev).length + 1).sum

/-- Nothing arrives, and the end does not come either. -/
def Silent (src : Source) : Prop := src.arrivals = [] ∧ src.ended = false

instance (src : Source) : Decidable src.Silent := inferInstanceAs (Decidable (_ ∧ _))

theorem not_silent_iff {src : Source} : ¬ src.Silent ↔ src.arrivals ≠ [] ∨ src.ended = true := by
  simp only [Silent, not_and, Bool.not_eq_false]
  exact ⟨fun h => or_iff_not_imp_left.2 fun h' => h (not_not.1 h'),
    fun h h' => h.resolve_left (not_not.2 h')⟩

/-- What is left of an event after a call took `n` of its bytes. -/
def leftover (bs : Bytes) (n : ℕ) (rest : List ReadEvent) : List ReadEvent :=
  match bs.drop n with
  | [] => rest
  | b :: bs => .data b bs :: rest

/-- One call to `read` for `n` bytes: its result, the bytes it placed, and the descriptor after it.
A call with a null buffer fails when there is something to place, and leaves it where it is. -/
def read (src : Source) (null : Bool) (n : ℕ) : Outcome (ℤ × Bytes × Source) :=
  match src.arrivals with
  | [] => if src.ended then .ok (0, [], src) else .error .blocked
  | .data b bs :: rest =>
      if null then .ok (-1, [], src)
      else
        let chunk := (b :: bs).take n
        .ok (chunk.length, chunk, { src with arrivals := leftover (b :: bs) n rest })
  | .eof :: rest => .ok (0, [], { src with arrivals := rest })
  | .intr :: rest => .ok (-1, [], { src with arrivals := rest })
  | .fail :: rest => .ok (-1, [], { src with arrivals := rest })

/-- What a call to `read` that returns has done: it took a first part of the bytes of an event, or
it placed nothing, and stayed where it was or passed an event without bytes. -/
inductive Reads (null : Bool) (n : ℕ) : Source → ℤ × Bytes × Source → Prop
  | took {b : UInt8} {bs : Bytes} {rest : List ReadEvent} {ended : Bool} : null = false →
      Reads null n { arrivals := .data b bs :: rest, ended := ended }
        (((b :: bs).take n).length, (b :: bs).take n,
          { arrivals := leftover (b :: bs) n rest, ended := ended })
  | stayed {src : Source} {r : ℤ} : r ≤ 0 → null = true ∨ src.arrivals = [] →
      Reads null n src (r, [], src)
  | passed {ev : ReadEvent} {rest : List ReadEvent} {ended : Bool} {r : ℤ} : r ≤ 0 →
      eventBytes ev = [] →
      Reads null n { arrivals := ev :: rest, ended := ended }
        (r, [], { arrivals := rest, ended := ended })

theorem reads_of_read {src : Source} {null : Bool} {n : ℕ} {res : ℤ × Bytes × Source}
    (h : src.read null n = .ok res) : Reads null n src res := by
  obtain ⟨arrivals, ended⟩ := src
  cases arrivals with
  | nil =>
      cases ended with
      | true =>
          cases h
          exact .stayed (Int.le_refl 0) (Or.inr rfl)
      | false => cases h
  | cons ev rest =>
      cases ev with
      | data b bs =>
          cases null with
          | true =>
              cases h
              exact .stayed (by decide) (Or.inl rfl)
          | false =>
              cases h
              exact .took rfl
      | eof | intr | fail =>
          cases h
          exact .passed (by decide) rfl

/-- A call that does not return waits: nothing arrives, and the end does not come. -/
theorem read_error {src : Source} {null : Bool} {n : ℕ} {f : Fault}
    (h : src.read null n = .error f) : f = .blocked ∧ src.Silent := by
  obtain ⟨arrivals, ended⟩ := src
  cases arrivals with
  | nil =>
      cases ended with
      | true => cases h
      | false =>
          cases h
          exact ⟨rfl, rfl, rfl⟩
  | cons ev rest =>
      cases ev with
      | data b bs => cases null <;> cases h
      | eof | intr | fail => cases h

/-- What a call leaves of a descriptor ends as the descriptor does. -/
theorem ended_read {src src' : Source} {null : Bool} {n : ℕ} {r : ℤ} {chunk : Bytes}
    (h : src.read null n = .ok (r, chunk, src')) : src'.ended = src.ended := by
  cases reads_of_read h with
  | took | stayed | passed => rfl

theorem weight_cons (ev : ReadEvent) (rest : List ReadEvent) (ended : Bool) :
    weight { arrivals := ev :: rest, ended := ended } =
      (eventBytes ev).length + 1 + weight { arrivals := rest, ended := ended } := by
  simp only [weight, List.map_cons, List.sum_cons]

/-- What is left of an event weighs less than the event. -/
theorem weight_leftover {bs : Bytes} {n : ℕ} (hn : 0 < n) (rest : List ReadEvent) (ended : Bool) :
    weight { arrivals := leftover bs n rest, ended := ended } ≤
      bs.length + weight { arrivals := rest, ended := ended } := by
  rw [leftover]
  cases hdrop : bs.drop n with
  | nil => exact Nat.le_add_left _ _
  | cons b bs' =>
      have hlen := congrArg List.length hdrop
      rw [List.length_drop, List.length_cons] at hlen
      rw [weight_cons, eventBytes, List.length_cons]
      omega

/-- A call that places bytes leaves less to come. -/
theorem weight_read {src src' : Source} {null : Bool} {n : ℕ} {r : ℤ} {chunk : Bytes}
    (h : src.read null n = .ok (r, chunk, src')) (hr : 0 < r) : src'.weight < src.weight := by
  cases reads_of_read h with
  | @took b bs rest ended _ =>
      have hn : 0 < n := by
        rw [List.length_take, List.length_cons] at hr
        omega
      have hle : weight { arrivals := leftover (b :: bs) n rest, ended := ended } ≤
          (b :: bs).length + weight { arrivals := rest, ended := ended } :=
        weight_leftover hn rest ended
      rw [weight_cons, eventBytes]
      exact Nat.lt_of_le_of_lt hle (by omega)
  | stayed hle => omega
  | passed hle => omega

/-- A call that returns a positive number placed that many bytes, and no more than it was asked
for. -/
theorem read_pos {src src' : Source} {null : Bool} {n : ℕ} {r : ℤ} {chunk : Bytes}
    (h : src.read null n = .ok (r, chunk, src')) (hr : 0 < r) :
    r = chunk.length ∧ chunk.length ≤ n := by
  cases reads_of_read h with
  | took => exact ⟨rfl, List.length_take_le _ _⟩
  | stayed hle => omega
  | passed hle => omega

/-- The bytes that are left of an event come before those of the others. -/
theorem bytes_leftover (bs : Bytes) (n : ℕ) (rest : List ReadEvent) (ended : Bool) :
    bytes { arrivals := leftover bs n rest, ended := ended } =
      bs.drop n ++ bytes { arrivals := rest, ended := ended } := by
  rw [leftover]
  cases bs.drop n with
  | nil => rfl
  | cons b bs' => rfl

/-- A call with a buffer takes what it places from the front of what is to come, and counts it. -/
theorem read_bytes {src src' : Source} {n : ℕ} {r : ℤ} {chunk : Bytes}
    (h : src.read false n = .ok (r, chunk, src')) :
    src.bytes = chunk ++ src'.bytes ∧ (r ≤ 0 → chunk = []) := by
  cases reads_of_read h with
  | took =>
      refine ⟨?_, ?_⟩
      · rw [bytes_leftover, ← List.append_assoc, List.take_append_drop]
        rfl
      · intro hr
        exact List.length_eq_zero_iff.1 (by omega)
  | stayed => exact ⟨rfl, fun _ => rfl⟩
  | @passed ev rest ended _ _ hev =>
      refine ⟨?_, fun _ => rfl⟩
      rw [bytes, List.flatMap_cons, hev]
      rfl

end Source

/-! ### What a descriptor accepts -/

/-- What the next call to `write` answers. -/
inductive WriteEvent where
  /-- At most `k + 1` bytes are accepted. -/
  | accept (k : ℕ)
  /-- The call returns 0. -/
  | zero
  /-- The call returns -1 with `EINTR`. -/
  | intr
  /-- The call returns -1 with another error. -/
  | fail
  deriving DecidableEq, Repr

/-- A descriptor to write to: the answers to come, and what was handed to it so far. -/
structure Sink where
  answers : List WriteEvent
  sent : Bytes
  deriving DecidableEq, Repr

/-- The `n` bytes of memory from the offset `i` on. -/
def memBytes (buf : ℤ → UInt8) (i : ℤ) (n : ℕ) : Bytes :=
  (List.range n).map fun k : ℕ => buf (i + (k : ℤ))

/-- A stretch of memory that starts with the bytes `m`; what lies around them is `around`. -/
def memOf (m : Bytes) (around : ℤ → UInt8) (i : ℤ) : UInt8 :=
  if 0 ≤ i ∧ i < m.length then m.getD i.toNat 0 else around i

/-- The results of one call to `write`. -/
inductive WriteResult where
  | wrote (w : ℕ)
  | zero
  | failed (interrupted : Bool)

namespace Sink

/-- One call to `write` of the `n` bytes of `buf` from the offset `i` on. -/
def write (sk : Sink) (null : Bool) (buf : ℤ → UInt8) (i : ℤ) (n : ℕ) :
    Outcome (WriteResult × Sink) :=
  if null then .ok (.failed false, sk)
  else
    match sk.answers with
    | [] => .error .blocked
    | .accept k :: rest =>
        let w := min (k + 1) n
        .ok (.wrote w, { answers := rest, sent := sk.sent ++ memBytes buf i w })
    | .zero :: rest => .ok (.zero, { sk with answers := rest })
    | .intr :: rest => .ok (.failed true, { sk with answers := rest })
    | .fail :: rest => .ok (.failed false, { sk with answers := rest })

end Sink

namespace Utils

/-! ### `read_n` -/

/-- The state of `read_n`: the counter, the stores made so far as pairs of an offset from the
buffer and the bytes stored there, and the descriptor. -/
structure ReadN where
  readn : ℤ
  stores : List (ℤ × Bytes)
  src : Source
  deriving DecidableEq, Repr

/-- One turn of the loop of `read_n`. -/
def readNTurn (null : Bool) (len : ℕ) (s : ReadN) : Loop.Turn ReadN (Outcome ReadN) :=
  if CInt.toUInt64 s.readn < len then
    match s.src.read null (CInt.toUInt64 (len - s.readn)) with
    | .error f => .done (.error f)
    | .ok (r, chunk, src) =>
        if 0 < r then
          .again { readn := CInt.toInt32 (s.readn + r), stores := s.stores ++ [(s.readn, chunk)],
                   src := src }
        else if r = 0 then .done (.ok { s with src := src })
        -- the result of the call, not `errno`, is compared with `EINTR`
        else if r ≠ eintr then .done (.ok { s with src := src })
        else .again { s with src := src }
  else .done (.ok s)

/-- `read_n`; its result is the counter of the final state. -/
def readN (src : Source) (null : Bool) (len : ℕ) : Outcome ReadN :=
  (Loop.run (readNTurn null len) (src.weight + 1) { readn := 0, stores := [], src := src }).getD
    (.error .blocked)

/-- What a turn of `read_n` that goes round again has done: it placed what one call found. -/
theorem readNTurn_again_read {null : Bool} {len : ℕ} {s s' : ReadN}
    (h : readNTurn null len s = .again s') :
    ∃ r chunk src, s.src.read null (CInt.toUInt64 (len - s.readn)) = .ok (r, chunk, src) ∧
      0 < r ∧ s' = { readn := CInt.toInt32 (s.readn + r), stores := s.stores ++ [(s.readn, chunk)],
                     src := src } := by
  rw [readNTurn] at h
  split at h
  · split at h
    · cases h
    · rename_i r chunk src hread
      split at h
      · rename_i hpos
        cases h
        exact ⟨r, chunk, src, hread, hpos, rfl⟩
      -- `read` never returns the value of `EINTR` without having placed bytes
      · split at h
        · cases h
        · split at h
          · cases h
          · rename_i hpos _ hintr
            have := not_not.1 hintr
            rw [eintr] at this
            omega
  · cases h

/-- A turn that goes round again leaves less to come. -/
theorem readNTurn_again_weight {null : Bool} {len : ℕ} {s s' : ReadN}
    (h : readNTurn null len s = .again s') : s'.src.weight < s.src.weight := by
  obtain ⟨r, chunk, src, hread, hpos, rfl⟩ := readNTurn_again_read h
  exact Source.weight_read hread hpos

/-- A turn that does not return is in a call that does not. -/
theorem readNTurn_error {null : Bool} {len : ℕ} {s : ReadN} {f : Fault}
    (h : readNTurn null len s = .done (.error f)) :
    CInt.toUInt64 s.readn < len ∧
      s.src.read null (CInt.toUInt64 (len - s.readn)) = .error f := by
  rw [readNTurn] at h
  split at h
  · rename_i hlt
    refine ⟨hlt, ?_⟩
    split at h
    · rename_i hread
      cases h
      exact hread
    · split at h
      · cases h
      · split at h
        · cases h
        · split at h <;> cases h
  · cases h

/-- **`read_n` comes to an end**, or waits: its loop never runs out of turns. -/
theorem readN_isSome (src : Source) (null : Bool) (len : ℕ) :
    (Loop.run (readNTurn null len) (src.weight + 1)
      { readn := 0, stores := [], src := src }).isSome :=
  Loop.run_isSome_of_variant (I := fun _ => True) (fun s => s.src.weight)
    (fun _ _ _ h => ⟨trivial, readNTurn_again_weight h⟩) trivial (Nat.lt_succ_self _)

/-- The stores made so far lie within a buffer of `len` bytes. -/
structure ReadNInv (len : ℕ) (s : ReadN) : Prop where
  nonneg : 0 ≤ s.readn
  le_len : s.readn ≤ len
  stores_le : ∀ st ∈ s.stores, 0 ≤ st.1 ∧ st.1.toNat + st.2.length ≤ len

/-- In a buffer of fewer than `2 ^ 31` bytes the counter does not wrap. -/
theorem readNTurn_again_eq {null : Bool} {len : ℕ} (hlen : len < 2 ^ 31) {s s' : ReadN}
    (h0 : 0 ≤ s.readn) (hle : s.readn ≤ len) (h : readNTurn null len s = .again s') :
    ∃ chunk src, s.src.read null (len - s.readn.toNat) = .ok (chunk.length, chunk, src) ∧
      0 < chunk.length ∧ chunk.length ≤ len - s.readn.toNat ∧
      s' = { readn := s.readn + chunk.length, stores := s.stores ++ [(s.readn, chunk)],
             src := src } := by
  obtain ⟨r, chunk, src, hread, hpos, rfl⟩ := readNTurn_again_read h
  rw [CInt.toUInt64_sub_of_nonneg h0 hle (by omega)] at hread
  obtain ⟨rfl, hchunk⟩ := Source.read_pos hread hpos
  have hnext : CInt.toInt32 (s.readn + (chunk.length : ℤ)) = s.readn + chunk.length :=
    CInt.toInt32_of_range (by omega) (by omega)
  exact ⟨chunk, src, hread, by omega, hchunk, by rw [hnext]⟩

/-- What a turn does that returns: at most one more call, which found nothing. -/
theorem readNTurn_done_eq {null : Bool} {len : ℕ} {s rn : ReadN}
    (h : readNTurn null len s = .done (.ok rn)) :
    (¬ CInt.toUInt64 s.readn < len ∧ rn = s) ∨
      ∃ r chunk src, s.src.read null (CInt.toUInt64 (len - s.readn)) = .ok (r, chunk, src) ∧
        r ≤ 0 ∧ rn = { s with src := src } := by
  rw [readNTurn] at h
  split at h
  · split at h
    · cases h
    · rename_i r chunk src hread
      split at h
      · cases h
      · rename_i hpos
        split at h
        · cases h
          exact Or.inr ⟨r, chunk, src, hread, Int.not_lt.1 hpos, rfl⟩
        · split at h
          · cases h
            exact Or.inr ⟨r, chunk, src, hread, Int.not_lt.1 hpos, rfl⟩
          · cases h
  · rename_i hge
    cases h
    exact Or.inl ⟨hge, rfl⟩

/-- An invariant of `read_n`: it holds at the start, a call that places bytes keeps it, and so does
a last call that places none. -/
theorem readN_rule {src : Source} {null : Bool} {len : ℕ} (hlen : len < 2 ^ 31) {I : ReadN → Prop}
    (hstart : I { readn := 0, stores := [], src := src })
    (hplace : ∀ s chunk src', I s → 0 ≤ s.readn → s.readn.toNat + chunk.length ≤ len →
      s.src.read null (len - s.readn.toNat) = .ok (chunk.length, chunk, src') →
      I { readn := s.readn + chunk.length, stores := s.stores ++ [(s.readn, chunk)], src := src' })
    (hlast : ∀ s n r chunk src', I s → s.src.read null n = .ok (r, chunk, src') → r ≤ 0 →
      I { s with src := src' })
    {rn : ReadN} (h : readN src null len = .ok rn) : I rn ∧ 0 ≤ rn.readn ∧ rn.readn ≤ len := by
  have hbegin : I { readn := 0, stores := [], src := src } ∧ (0 : ℤ) ≤ 0 ∧ (0 : ℤ) ≤ len :=
    ⟨hstart, Int.le_refl 0, Int.natCast_nonneg len⟩
  rw [readN] at h
  cases hrun : Loop.run (readNTurn null len) (src.weight + 1)
      { readn := 0, stores := [], src := src } with
  | none =>
      rw [hrun] at h
      cases h
  | some r =>
      rw [hrun, Option.getD_some] at h
      refine Loop.run_inv (I := fun s => I s ∧ 0 ≤ s.readn ∧ s.readn ≤ len)
        (Q := fun r : Outcome ReadN => ∀ rn, r = .ok rn → I rn ∧ 0 ≤ rn.readn ∧ rn.readn ≤ len)
        ?_ ?_ hbegin hrun rn h
      · rintro s s' ⟨hs, h0, hle⟩ hturn
        obtain ⟨chunk, src', hread, -, hchunk, rfl⟩ := readNTurn_again_eq hlen h0 hle hturn
        refine ⟨hplace s chunk src' hs h0 (by omega) hread, ?_, ?_⟩ <;> dsimp only <;> omega
      · rintro s r ⟨hs, h0, hle⟩ hturn rn rfl
        rcases readNTurn_done_eq hturn with ⟨-, rfl⟩ | ⟨r, chunk, src', hread, hr, rfl⟩
        · exact ⟨hs, h0, hle⟩
        · exact ⟨hlast s _ r chunk src' hs hread hr, h0, hle⟩

/-- **`read_n` stores within its buffer**, and counts no more than its length. -/
theorem readN_inv {src : Source} {null : Bool} {len : ℕ} (hlen : len < 2 ^ 31) {rn : ReadN}
    (h : readN src null len = .ok rn) : ReadNInv len rn := by
  have hfits : (∀ st ∈ rn.stores, 0 ≤ st.1 ∧ st.1.toNat + st.2.length ≤ len) ∧
      0 ≤ rn.readn ∧ rn.readn ≤ len := by
    refine readN_rule hlen
      (I := fun s => ∀ st ∈ s.stores, 0 ≤ st.1 ∧ st.1.toNat + st.2.length ≤ len) ?_ ?_ ?_ h
    · intro st hst
      cases hst
    · intro s chunk src' hs h0 hfit _ st hst
      rcases List.mem_append.1 hst with hold | hnew
      · exact hs st hold
      · rw [List.mem_singleton] at hnew
        subst hnew
        exact ⟨h0, hfit⟩
    · intro s n r chunk src' hs _ _
      exact hs
  exact ⟨hfits.2.1, hfits.2.2, hfits.1⟩

/-- What has arrived in one piece of the length asked for is read as it is. -/
theorem readN_of_data {b : UInt8} {bs : Bytes} {len : ℕ} (hlen : (b :: bs).length = len)
    (hlt : len < 2 ^ 31) (rest : List ReadEvent) (ended : Bool) :
    readN { arrivals := .data b bs :: rest, ended := ended } false len =
      .ok { readn := len, stores := [(0, b :: bs)],
            src := { arrivals := rest, ended := ended } } := by
  have hpos : 0 < len := by
    rw [← hlen]
    exact Nat.succ_pos _
  have hu : CInt.toUInt64 (len : ℤ) = len := CInt.toUInt64_natCast_of_lt (by omega)
  have hcond : CInt.toUInt64 0 < len := hpos
  have htake : (b :: bs).take len = b :: bs := List.take_of_length_le (Nat.le_of_eq hlen)
  have hleft : Source.leftover (b :: bs) len rest = rest := by
    rw [Source.leftover, List.drop_of_length_le (Nat.le_of_eq hlen)]
  have hnext : CInt.toInt32 (0 + (len : ℤ)) = len := by
    rw [Int.zero_add, CInt.toInt32_natCast_of_lt hlt]
  have hfirst : readNTurn false len
      { readn := 0, stores := [], src := { arrivals := .data b bs :: rest, ended := ended } } =
      .again { readn := len, stores := [(0, b :: bs)],
               src := { arrivals := rest, ended := ended } } := by
    rw [readNTurn, if_pos hcond]
    have hr : (0 : ℤ) < len := by exact_mod_cast hpos
    simp only [Int.sub_zero, hu, Source.read, Bool.false_eq_true, if_false, htake, hleft, hlen,
      if_pos hr, hnext, List.nil_append]
  have hlast : readNTurn false len
      { readn := len, stores := [(0, b :: bs)], src := { arrivals := rest, ended := ended } } =
      .done (.ok { readn := len, stores := [(0, b :: bs)],
                   src := { arrivals := rest, ended := ended } }) := by
    rw [readNTurn, hu, if_neg (Nat.lt_irrefl len)]
  have hrun : Loop.run (readNTurn false len) 2
      { readn := 0, stores := [], src := { arrivals := .data b bs :: rest, ended := ended } } =
      some (.ok { readn := len, stores := [(0, b :: bs)],
                  src := { arrivals := rest, ended := ended } }) := by
    rw [Loop.run_again hfirst, Loop.run_done hlast]
  have hfuel : 2 ≤ Source.weight { arrivals := .data b bs :: rest, ended := ended } + 1 := by
    rw [Source.weight_cons]
    omega
  rw [readN, Loop.run_mono hrun hfuel, Option.getD_some]

/-- **`read_n` into a null buffer moves nothing**: it returns 0 at the first thing it finds. -/
theorem readN_null {src : Source} (h : ¬ src.Silent) (len : ℕ) :
    ∃ src', readN src true len = .ok { readn := 0, stores := [], src := src' } := by
  have hdone : ∃ src', readNTurn true len { readn := 0, stores := [], src := src } =
      .done (.ok { readn := 0, stores := [], src := src' }) := by
    rw [Source.not_silent_iff] at h
    obtain ⟨arrivals, ended⟩ := src
    rw [readNTurn]
    split_ifs with hlen
    · cases arrivals with
      | nil =>
          have hended : ended = true := by simpa using h
          exact ⟨_, by simp only [Source.read, hended]; rfl⟩
      | cons ev rest => cases ev <;> exact ⟨_, rfl⟩
    · exact ⟨_, rfl⟩
  obtain ⟨src', hturn⟩ := hdone
  exact ⟨src', by rw [readN, Loop.run_done hturn]; rfl⟩

/-- All bytes that were to arrive still are, after a read into a null buffer. -/
theorem readN_null_bytes {src : Source} {len : ℕ} {rn : ReadN} (h : readN src true len = .ok rn) :
    rn.src.bytes = src.bytes := by
  obtain ⟨arrivals, ended⟩ := src
  have hturn : ∃ r, readNTurn true len { readn := 0, stores := [], src := ⟨arrivals, ended⟩ } =
      .done r ∧ ∀ rn, r = .ok rn → rn.src.bytes = Source.bytes ⟨arrivals, ended⟩ := by
    rw [readNTurn]
    split_ifs with hlen
    · cases arrivals with
      | nil =>
          cases ended with
          | true => exact ⟨_, rfl, fun rn hrn => by cases hrn; rfl⟩
          | false => exact ⟨_, rfl, fun rn hrn => by cases hrn⟩
      | cons ev rest => cases ev <;> exact ⟨_, rfl, fun rn hrn => by cases hrn; rfl⟩
    · exact ⟨_, rfl, fun rn hrn => by cases hrn; rfl⟩
  obtain ⟨r, hdone, hbytes⟩ := hturn
  rw [readN, Loop.run_done hdone] at h
  exact hbytes rn h

/-- On a silent descriptor `read_n` waits for ever. -/
theorem readN_silent {src : Source} (h : src.Silent) (null : Bool) {len : ℕ} (hlen : 0 < len) :
    readN src null len = .error .blocked := by
  obtain ⟨arrivals, ended⟩ := src
  obtain ⟨harr, hend⟩ := h
  dsimp only at harr hend
  subst harr hend
  have hturn : readNTurn null len { readn := 0, stores := [], src := ⟨[], false⟩ } =
      .done (.error .blocked) := by
    have hpos : CInt.toUInt64 0 < len := hlen
    simp only [readNTurn, if_pos hpos, Source.read, Bool.false_eq_true, if_false]
  rw [readN, Loop.run_done hturn]
  rfl

/-! ### `write_n` -/

/-- The state of `write_n`. -/
structure WriteN where
  writen : ℤ
  sink : Sink
  deriving DecidableEq, Repr

/-- One turn of the loop of `write_n`.  The state is kept when the call does not return, so that
what was sent before is known. -/
def writeNTurn (null : Bool) (buf : ℤ → UInt8) (len : ℕ) (s : WriteN) :
    Loop.Turn WriteN (Option Fault × WriteN) :=
  if CInt.toUInt64 s.writen < len then
    match s.sink.write null buf s.writen (CInt.toUInt64 (len - s.writen)) with
    | .error f => .done (some f, s)
    | .ok (.wrote w, sink) =>
        if 0 < w then .again { writen := CInt.toInt32 (s.writen + w), sink := sink }
        else .done (none, { s with sink := sink })
    | .ok (.zero, sink) => .done (none, { s with sink := sink })
    | .ok (.failed interrupted, sink) =>
        if interrupted then .again { s with sink := sink }
        else .done (none, { s with sink := sink })
  else .done (none, s)

/-- `write_n`: the fault that kept it from returning, if any, and the final state; its result is
the counter. -/
def writeN (sk : Sink) (null : Bool) (buf : ℤ → UInt8) (len : ℕ) : Option Fault × WriteN :=
  (Loop.run (writeNTurn null buf len) (sk.answers.length + 1) { writen := 0, sink := sk }).getD
    (some .blocked, { writen := 0, sink := sk })

/-- What a turn of `write_n` that goes round again has done: some bytes were taken, or the call was
interrupted. -/
theorem writeNTurn_again_cases {null : Bool} {buf : ℤ → UInt8} {len : ℕ} {s s' : WriteN}
    (h : writeNTurn null buf len s = .again s') :
    ∃ ev rest, s.sink.answers = ev :: rest ∧
      ((∃ w : ℕ, 0 < w ∧ w ≤ CInt.toUInt64 (len - s.writen) ∧
          s' = { writen := CInt.toInt32 (s.writen + w),
                 sink := { answers := rest, sent := s.sink.sent ++ memBytes buf s.writen w } }) ∨
        ev = .intr ∧ s' = { s with sink := { s.sink with answers := rest } }) := by
  obtain ⟨writen, answers, sent⟩ := s
  rw [writeNTurn] at h
  split at h
  · cases null with
    | true => simp [Sink.write] at h
    | false =>
        cases answers with
        | nil => simp [Sink.write] at h
        | cons ev rest =>
            refine ⟨ev, rest, rfl, ?_⟩
            cases ev with
            | accept k =>
                simp only [Sink.write, Bool.false_eq_true, if_false] at h
                split at h
                · rename_i hpos
                  cases h
                  exact Or.inl ⟨_, hpos, Nat.min_le_right _ _, rfl⟩
                · cases h
            | intr =>
                simp only [Sink.write, Bool.false_eq_true, if_false, if_true] at h
                cases h
                exact Or.inr ⟨rfl, rfl⟩
            | zero | fail => simp [Sink.write] at h
  · cases h

/-- What a turn that leaves the loop has done: everything was counted, the buffer is null, the call
waits, or its answer is used up and nothing is taken. -/
theorem writeNTurn_done_cases {null : Bool} {buf : ℤ → UInt8} {len : ℕ} {s : WriteN}
    {r : Option Fault × WriteN} (h : writeNTurn null buf len s = .done r) :
    (¬ CInt.toUInt64 s.writen < len ∧ r = (none, s)) ∨
      (null = true ∧ r = (none, s)) ∨
      (s.sink.answers = [] ∧ r = (some .blocked, s)) ∨
      ∃ ev rest, s.sink.answers = ev :: rest ∧
        (ev = .zero ∨ ev = .fail ∨ CInt.toUInt64 (len - s.writen) = 0) ∧
        r = (none, { s with sink := { s.sink with answers := rest } }) := by
  obtain ⟨writen, answers, sent⟩ := s
  rw [writeNTurn] at h
  split at h
  · cases null with
    | true =>
        cases h
        exact Or.inr (Or.inl ⟨rfl, rfl⟩)
    | false =>
        cases answers with
        | nil =>
            cases h
            exact Or.inr (Or.inr (Or.inl ⟨rfl, rfl⟩))
        | cons ev rest =>
            refine Or.inr (Or.inr (Or.inr ⟨ev, rest, rfl, ?_⟩))
            cases ev with
            | accept k =>
                simp only [Sink.write, Bool.false_eq_true, if_false] at h
                split at h
                · cases h
                · -- an empty write, which a call for a positive length cannot be
                  rename_i hempty
                  cases h
                  have hzero : CInt.toUInt64 (len - writen) = 0 := by omega
                  refine ⟨Or.inr (Or.inr hzero), ?_⟩
                  rw [hzero, Nat.min_zero]
                  simp [memBytes]
            | intr => simp [Sink.write] at h
            | zero =>
                cases h
                exact ⟨Or.inl rfl, rfl⟩
            | fail =>
                cases h
                exact ⟨Or.inr (Or.inl rfl), rfl⟩
  · rename_i hge
    cases h
    exact Or.inl ⟨hge, rfl⟩

/-- A turn of `write_n` that goes round again has used up an answer. -/
theorem writeNTurn_again_answers {null : Bool} {buf : ℤ → UInt8} {len : ℕ} {s s' : WriteN}
    (h : writeNTurn null buf len s = .again s') :
    ∃ ev, s.sink.answers = ev :: s'.sink.answers := by
  obtain ⟨ev, rest, hanswers, ⟨w, -, -, rfl⟩ | ⟨-, rfl⟩⟩ := writeNTurn_again_cases h
  · exact ⟨ev, hanswers⟩
  · exact ⟨ev, hanswers⟩

theorem length_answers_of_again {null : Bool} {buf : ℤ → UInt8} {len : ℕ} {s s' : WriteN}
    (h : writeNTurn null buf len s = .again s') :
    s'.sink.answers.length < s.sink.answers.length := by
  obtain ⟨ev, hanswers⟩ := writeNTurn_again_answers h
  rw [hanswers]
  exact Nat.lt_succ_self _

/-- So has one that returns before everything was handed over. -/
theorem writeNTurn_done_answers {buf : ℤ → UInt8} {len : ℕ} {s : WriteN}
    {r : Option Fault × WriteN} (hlt : CInt.toUInt64 s.writen < len)
    (h : writeNTurn false buf len s = .done r) (hr : r.1 = none) :
    r.2.sink.answers.length < s.sink.answers.length := by
  rcases writeNTurn_done_cases h with ⟨hge, -⟩ | ⟨hnull, -⟩ | ⟨-, rfl⟩ |
    ⟨ev, rest, hanswers, -, rfl⟩
  · exact absurd hlt hge
  · cases hnull
  · cases hr
  · rw [hanswers]
    exact Nat.lt_succ_self _

/-- **`write_n` comes to an end**, or waits. -/
theorem writeN_isSome (sk : Sink) (null : Bool) (buf : ℤ → UInt8) (len : ℕ) :
    (Loop.run (writeNTurn null buf len) (sk.answers.length + 1)
      { writen := 0, sink := sk }).isSome := by
  refine Loop.run_isSome_of_variant (I := fun _ => True) (fun s => s.sink.answers.length) ?_ trivial
    (Nat.lt_succ_self _)
  intro s s' _ h
  exact ⟨trivial, length_answers_of_again h⟩

/-- A call to `write_n` that returns and has something to hand over has used up answers. -/
theorem writeN_answers {sk : Sink} {buf : ℤ → UInt8} {len : ℕ} (hlen : 0 < len)
    (h : (writeN sk false buf len).1 = none) :
    (writeN sk false buf len).2.sink.answers.length < sk.answers.length := by
  obtain ⟨r, hr⟩ := Option.isSome_iff_exists.1 (writeN_isSome sk false buf len)
  rw [writeN, hr, Option.getD_some] at h ⊢
  refine Loop.run_inv (I := fun s => s.sink.answers.length < sk.answers.length ∨
      s = { writen := 0, sink := sk })
    (Q := fun r : Option Fault × WriteN => r.1 = none →
      r.2.sink.answers.length < sk.answers.length) ?_ ?_ (Or.inr rfl) hr h
  · intro s s' hs hturn
    have hless := length_answers_of_again hturn
    rcases hs with hlt | rfl
    · exact Or.inl (hless.trans hlt)
    · exact Or.inl hless
  · intro s r hs hturn hnone
    by_cases hmore : CInt.toUInt64 s.writen < len
    · have hless := writeNTurn_done_answers hmore hturn hnone
      rcases hs with hlt | rfl
      · exact hless.trans hlt
      · exact hless
    · rw [writeNTurn, if_neg hmore] at hturn
      cases hturn
      rcases hs with hlt | rfl
      · exact hlt
      · exact absurd hlen hmore

theorem memBytes_append (buf : ℤ → UInt8) (m n : ℕ) :
    memBytes buf 0 m ++ memBytes buf m n = memBytes buf 0 (m + n) := by
  simp only [memBytes, List.range_add, List.map_append, List.map_map]
  congr 1
  refine List.map_congr_left ?_
  intro k _
  simp

theorem length_memBytes (buf : ℤ → UInt8) (i : ℤ) (n : ℕ) : (memBytes buf i n).length = n := by
  simp [memBytes]

theorem memBytes_prefix (buf : ℤ → UInt8) {m n : ℕ} (h : m ≤ n) :
    memBytes buf 0 m <+: memBytes buf 0 n := by
  obtain ⟨k, rfl⟩ := Nat.exists_eq_add_of_le h
  exact ⟨memBytes buf m k, memBytes_append buf m k⟩

/-- Memory that starts with `m` has the bytes of `m` there. -/
theorem memBytes_memOf (m : Bytes) (around : ℤ → UInt8) :
    memBytes (memOf m around) 0 m.length = m := by
  refine List.ext_getElem (length_memBytes _ _ _) ?_
  intro i h₁ h₂
  have hin : (0 : ℤ) ≤ 0 + (i : ℤ) ∧ (0 : ℤ) + (i : ℤ) < m.length := by omega
  simp only [memBytes, List.getElem_map, List.getElem_range, memOf, if_pos hin]
  rw [Int.zero_add, Int.toNat_natCast, List.getD_eq_getElem?_getD, List.getElem?_eq_getElem h₂,
    Option.getD_some]

/-- The counter of `write_n` says how much of the buffer was handed over, whatever the answers. -/
structure WriteNSent (buf : ℤ → UInt8) (len : ℕ) (sk : Sink) (s : WriteN) : Prop where
  nonneg : 0 ≤ s.writen
  le_len : s.writen ≤ len
  sent_eq : s.sink.sent = sk.sent ++ memBytes buf 0 s.writen.toNat

theorem writeNTurn_again_sent {buf : ℤ → UInt8} {len : ℕ} {sk : Sink} (hlen : len < 2 ^ 31)
    {s s' : WriteN} (hs : WriteNSent buf len sk s) (h : writeNTurn false buf len s = .again s') :
    WriteNSent buf len sk s' := by
  obtain ⟨h0, hle, hsent⟩ := hs
  obtain ⟨ev, rest, -, ⟨w, -, hwle, rfl⟩ | ⟨-, rfl⟩⟩ := writeNTurn_again_cases h
  · rw [CInt.toUInt64_sub_of_nonneg h0 hle (by omega)] at hwle
    have hw : CInt.toInt32 (s.writen + (w : ℤ)) = ((s.writen.toNat + w : ℕ) : ℤ) := by
      rw [CInt.toInt32_of_range (by omega) (by omega), Nat.cast_add, Int.toNat_of_nonneg h0]
    rw [hw]
    refine ⟨Int.natCast_nonneg _, by dsimp only; omega, ?_⟩
    dsimp only
    rw [hsent, List.append_assoc, Int.toNat_natCast, ← memBytes_append, Int.toNat_of_nonneg h0]
  · exact ⟨h0, hle, hsent⟩

/-- A turn that returns hands nothing over. -/
theorem writeNTurn_done_sent {null : Bool} {buf : ℤ → UInt8} {len : ℕ} {s : WriteN}
    {r : Option Fault × WriteN} (h : writeNTurn null buf len s = .done r) :
    r.2.writen = s.writen ∧ r.2.sink.sent = s.sink.sent := by
  rcases writeNTurn_done_cases h with ⟨-, rfl⟩ | ⟨-, rfl⟩ | ⟨-, rfl⟩ | ⟨ev, rest, -, -, rfl⟩
  all_goals exact ⟨rfl, rfl⟩

/-- **What `write_n` has handed over is a first part of its buffer, of the length it counted**,
whatever the calls answer. -/
theorem writeN_sent (buf : ℤ → UInt8) {len : ℕ} (hlen : len < 2 ^ 31) (sk : Sink) :
    WriteNSent buf len sk (writeN sk false buf len).2 := by
  have hstart : WriteNSent buf len sk { writen := 0, sink := sk } :=
    ⟨Int.le_refl 0, Int.natCast_nonneg len, by simp [memBytes]⟩
  rw [writeN]
  cases hrun : Loop.run (writeNTurn false buf len) (sk.answers.length + 1)
      { writen := 0, sink := sk } with
  | none => exact hstart
  | some r =>
      refine Loop.run_inv (Q := fun r : Option Fault × WriteN => WriteNSent buf len sk r.2)
        (fun _ _ hs h => writeNTurn_again_sent hlen hs h) ?_ hstart hrun
      intro s r hs h
      obtain ⟨hcount, hsent⟩ := writeNTurn_done_sent h
      exact ⟨hcount ▸ hs.nonneg, hcount ▸ hs.le_len, hcount ▸ hsent ▸ hs.sent_eq⟩

/-- The sink only ever takes bytes: no answer is a failure, an interruption or 0. -/
def Sink.Accepts (sk : Sink) : Prop := ∀ ev ∈ sk.answers, ∃ k, ev = .accept k

/-- What holds of `write_n` before every turn on such a sink. -/
structure WriteNInv (buf : ℤ → UInt8) (len : ℕ) (sk : Sink) (s : WriteN) : Prop where
  nonneg : 0 ≤ s.writen
  le_len : s.writen ≤ len
  sent_eq : s.sink.sent = sk.sent ++ memBytes buf 0 s.writen.toNat
  accepts : Sink.Accepts s.sink

theorem writeNTurn_again {buf : ℤ → UInt8} {len : ℕ} {sk : Sink} (hlen : len < 2 ^ 31)
    {s s' : WriteN} (hs : WriteNInv buf len sk s) (h : writeNTurn false buf len s = .again s') :
    WriteNInv buf len sk s' := by
  have hsent := writeNTurn_again_sent hlen ⟨hs.nonneg, hs.le_len, hs.sent_eq⟩ h
  refine ⟨hsent.nonneg, hsent.le_len, hsent.sent_eq, ?_⟩
  obtain ⟨ev, hanswers⟩ := writeNTurn_again_answers h
  intro ev' hev
  exact hs.accepts ev' (by rw [hanswers]; exact List.mem_cons_of_mem ev hev)

/-- A turn that leaves such a sink leaves it as it is: everything was counted, or it waits because
no answer is left. -/
theorem writeNTurn_done {buf : ℤ → UInt8} {len : ℕ} {sk : Sink} (hlen : len < 2 ^ 31)
    {s : WriteN} {r : Option Fault × WriteN} (hs : WriteNInv buf len sk s)
    (h : writeNTurn false buf len s = .done r) :
    r.2 = s ∧ (r.1 = none → s.writen = len) ∧
      (r.1 ≠ none → s.writen < len ∧ s.sink.answers = []) := by
  have h0 := hs.nonneg
  have hle := hs.le_len
  have hcounted : CInt.toUInt64 s.writen = s.writen.toNat :=
    CInt.toUInt64_of_nonneg h0 (by omega)
  by_cases hlt : CInt.toUInt64 s.writen < len
  · rcases writeNTurn_done_cases h with ⟨hge, -⟩ | ⟨hnull, -⟩ | ⟨hnil, rfl⟩ |
      ⟨ev, rest, hanswers, hev, -⟩
    · exact absurd hlt hge
    · cases hnull
    · refine ⟨rfl, ?_, ?_⟩
      · intro hnone
        cases hnone
      · intro _
        exact ⟨by omega, hnil⟩
    · -- the descriptor takes what it is given, and there is something to give
      obtain ⟨k, rfl⟩ := hs.accepts ev (by rw [hanswers]; exact List.mem_cons_self)
      have hrest := CInt.toUInt64_sub_of_nonneg h0 hle (by omega)
      rcases hev with hzero | hfail | hnone
      · cases hzero
      · cases hfail
      · omega
  · rw [writeNTurn, if_neg hlt] at h
    cases h
    exact ⟨rfl, fun _ => by omega, fun hne => absurd rfl hne⟩

/-- **`write_n` sends its buffer in order under any segmentation**: what it has handed to a sink
that only takes bytes is a first part of the buffer, and the whole of it once it returns. -/
theorem writeN_of_accepts (buf : ℤ → UInt8) {len : ℕ} (hlen : len < 2 ^ 31) {sk : Sink}
    (hacc : Sink.Accepts sk) :
    WriteNInv buf len sk (writeN sk false buf len).2 ∧
      ((writeN sk false buf len).1 = none → (writeN sk false buf len).2.writen = len) := by
  have hstart : WriteNInv buf len sk { writen := 0, sink := sk } :=
    ⟨Int.le_refl 0, Int.natCast_nonneg len, by simp [memBytes], hacc⟩
  rw [writeN]
  cases hrun : Loop.run (writeNTurn false buf len) (sk.answers.length + 1)
      { writen := 0, sink := sk } with
  | none => exact ⟨hstart, fun hf => by cases hf⟩
  | some r =>
      refine Loop.run_inv (Q := fun r : Option Fault × WriteN =>
          WriteNInv buf len sk r.2 ∧ (r.1 = none → r.2.writen = len))
        (fun _ _ hs h => writeNTurn_again hlen hs h) ?_ hstart hrun
      intro s r hs h
      obtain ⟨hsame, hall, -⟩ := writeNTurn_done hlen hs h
      rw [hsame]
      exact ⟨hs, hall⟩

/-! ### `parse_file_name` -/

/-- The loop of `parse_file_name`: the position after the last `/`. -/
def fileNamePos : Bytes → ℕ → ℕ → Outcome ℕ
  | [], _, _ => .error .overread
  | b :: mem, index, pos =>
      if b = 0 then .ok pos
      else fileNamePos mem (index + 1) (if b = 47 then index + 1 else pos)

/-- `parse_file_name`: the status and the slice. -/
def parseFileName (path : CharPtr) : Outcome (ℤ × Slice) :=
  match path with
  | .null => .ok (-1, Slice.zero)
  | path => do
      let mem ← path.deref
      let pos ← fileNamePos mem 0 0
      let (_, se) ← sliceInit (.mem (mem.drop pos))
      .ok (0, se)

/-- What follows the last `/` of a path. -/
def baseName (path : Bytes) : Bytes := path.rtakeWhile (· ≠ 47)

theorem baseName_suffix (path : Bytes) : baseName path <:+ path := List.rtakeWhile_suffix _ _

/-- The loop, after the bytes `done` of the path: it has the position after their last `/`. -/
theorem fileNamePos_append {rest : Bytes} (hrest : CString.NoNul rest) (t done : Bytes) :
    fileNamePos (rest ++ 0 :: t) done.length (done.length - (baseName done).length) =
      .ok ((done ++ rest).length - (baseName (done ++ rest)).length) := by
  induction rest generalizing done with
  | nil =>
      rw [List.nil_append, List.append_nil, fileNamePos, if_pos rfl]
  | cons b rest ih =>
      rw [CString.noNul_cons] at hrest
      have hle := (baseName_suffix done).length_le
      have hnext : (if b = 47 then done.length + 1 else done.length - (baseName done).length) =
          (done ++ [b]).length - (baseName (done ++ [b])).length := by
        simp only [baseName] at hle ⊢
        split
        · rename_i hslash
          rw [List.rtakeWhile_concat_neg _ _ _ (by simpa using hslash), List.length_append]
          rfl
        · rename_i hother
          rw [List.rtakeWhile_concat_pos _ _ _ (by simpa using hother), List.length_append,
            List.length_append, List.length_singleton]
          omega
      have hlen : done.length + 1 = (done ++ [b]).length := by simp
      rw [List.cons_append, fileNamePos, if_neg hrest.1, hnext, hlen, ih hrest.2 (done ++ [b]),
        List.append_assoc, List.singleton_append]

/-- **`parse_file_name` finds what follows the last `/`.** -/
theorem parseFileName_cstr {path : Bytes} (h : CString.NoNul path) :
    ∃ se, parseFileName (.mem (CString.cstr path)) = .ok (0, se) ∧
      se.Represents (baseName path) := by
  have hpos := fileNamePos_append h [] []
  rw [List.nil_append] at hpos
  have hpos' : fileNamePos (CString.cstr path) 0 0 =
      .ok (path.length - (baseName path).length) := hpos
  have hdrop : (CString.cstr path).drop (path.length - (baseName path).length) =
      baseName path ++ 0 :: [] := by
    rw [CString.cstr, List.drop_append_of_le_length (Nat.sub_le _ _),
      ← List.suffix_iff_eq_drop.1 (baseName_suffix path)]
  have hnul : CString.NoNul (baseName path) := fun hmem => h ((baseName_suffix path).subset hmem)
  obtain ⟨se, hse, hrep⟩ := sliceInit_cstr hnul []
  refine ⟨se, ?_, hrep⟩
  simp only [parseFileName, CharPtr.deref, Outcome.ok_bind, hpos', hdrop, hse]

end Utils
