/-
**The loop that sends the file.**

`request_put_object_init` goes round until it has counted as many bytes as `stat` reported.  What it
counts is what `read_n` returns, and that is 0 at the end of the file, at an error, at an
interruption, and for a file that did not open; no exit of the loop asks for it.  So a file that
has become shorter since `stat` makes the loop go round for ever.

The results of the calls are endless sequences here, one for the file and one for a socket that
takes whatever it is given.  The loop ends when some first part of them is enough for it to leave.

Main definitions:

* `firstReads`, `firstAccepts` — the first results of the two sequences;
* `SendEnds` — the loop ends;
* `Delivers` — the reads of the file deliver a number of bytes.

Main results:

* `Utils.readN_of_arrivals` — `read_n` returns when as many results are there as bytes asked for;
* `Utils.readN_weight` — a call to `read_n` uses up some of them;
* `sendN_of_accepts` — `write_n` hands everything over to a socket that takes bytes;
* `sendEnds_iff` — **the loop ends exactly when the reads deliver what `stat` reported**.
-/

import SdsStorage.ClientStatus
import SdsStorage.ReadSchedule

set_option relaxedAutoImplicit false
set_option autoImplicit false

/-! ### Calls to `read` -/

namespace Source

/-- What is left of an event weighs no more than the event. -/
theorem weight_leftover_le (bs : Bytes) (n : ℕ) (rest : List ReadEvent) (ended : Bool) :
    weight { arrivals := leftover bs n rest, ended := ended } ≤
      bs.length + 1 + weight { arrivals := rest, ended := ended } := by
  rw [leftover]
  cases hdrop : bs.drop n with
  | nil => exact Nat.le_add_left _ _
  | cons b bs' =>
      have hlen := congrArg List.length hdrop
      rw [List.length_drop, List.length_cons] at hlen
      rw [weight_cons, eventBytes, List.length_cons]
      omega

theorem length_le_weight (arrivals : List ReadEvent) (ended : Bool) :
    arrivals.length ≤ weight { arrivals := arrivals, ended := ended } := by
  induction arrivals with
  | nil => exact Nat.zero_le _
  | cons ev rest ih =>
      rw [weight_cons, List.length_cons]
      omega

variable {src src' : Source} {n : ℕ} {r : ℤ} {chunk : Bytes}

/-- A call leaves no more to come than there was. -/
theorem weight_read_le (h : src.read false n = .ok (r, chunk, src')) :
    src'.weight ≤ src.weight := by
  cases reads_of_read h with
  | @took b bs rest ended _ =>
      rw [weight_cons]
      exact weight_leftover_le (b :: bs) n rest ended
  | stayed => exact Nat.le_refl _
  | passed =>
      rw [weight_cons]
      exact Nat.le_add_left _ _

/-- A call for some bytes leaves less, if anything was to come. -/
theorem weight_read_lt (hn : 0 < n) (hne : src.arrivals ≠ [])
    (h : src.read false n = .ok (r, chunk, src')) : src'.weight < src.weight := by
  cases reads_of_read h with
  | @took b bs rest ended _ =>
      have hle : weight { arrivals := leftover (b :: bs) n rest, ended := ended } ≤
          (b :: bs).length + weight { arrivals := rest, ended := ended } :=
        weight_leftover hn rest ended
      rw [weight_cons, eventBytes]
      exact hle.trans_lt (by omega)
  | stayed _ hnone => exact absurd (hnone.resolve_left Bool.false_ne_true) hne
  | passed =>
      rw [weight_cons]
      exact Nat.lt_add_of_pos_left (Nat.succ_pos _)

/-- A call takes at most one of the events. -/
theorem length_read (h : src.read false n = .ok (r, chunk, src')) :
    src.arrivals.length ≤ src'.arrivals.length + 1 := by
  cases reads_of_read h with
  | @took b bs rest ended _ =>
      dsimp only [leftover]
      cases (b :: bs).drop n with
      | nil => exact Nat.le_refl _
      | cons b' bs' => exact Nat.le_succ _
  | stayed => exact Nat.le_succ _
  | passed => exact Nat.le_refl _

/-- A call that finds an event leaves those behind it where they are. -/
theorem read_append {pre : List ReadEvent} (hne : pre ≠ []) (extra : List ReadEvent)
    (ended : Bool) (n : ℕ) :
    ∃ (r : ℤ) (chunk : Bytes) (pre' : List ReadEvent),
      Source.read { arrivals := pre ++ extra, ended := ended } false n =
        .ok (r, chunk, { arrivals := pre' ++ extra, ended := ended }) ∧
      pre.flatMap eventBytes = chunk ++ pre'.flatMap eventBytes := by
  cases pre with
  | nil => exact absurd rfl hne
  | cons ev rest =>
      cases ev with
      | data b bs =>
          have hleft : leftover (b :: bs) n (rest ++ extra) =
              leftover (b :: bs) n rest ++ extra := by
            rw [leftover, leftover]
            cases (b :: bs).drop n with
            | nil => rfl
            | cons b' bs' => rfl
          have hbytes := bytes_leftover (b :: bs) n rest ended
          refine ⟨((b :: bs).take n).length, (b :: bs).take n, leftover (b :: bs) n rest, ?_, ?_⟩
          · rw [List.cons_append]
            simp only [read, Bool.false_eq_true, if_false, hleft]
          · rw [bytes, bytes] at hbytes
            rw [hbytes, ← List.append_assoc, List.take_append_drop]
            rfl
      | eof | intr | fail => exact ⟨_, [], rest, rfl, rfl⟩

end Source

/-! ### Calls to `read_n` -/

namespace Utils

/-- **`read_n` returns** when as many results of `read` are there as it asks for bytes: every call
that does not end it has placed a byte. -/
theorem readN_of_arrivals {src : Source} {len : ℕ} (hlen : len < 2 ^ 31)
    (h : len ≤ src.arrivals.length) : ∃ rn, readN src false len = .ok rn := by
  obtain ⟨res, hrun⟩ := Option.isSome_iff_exists.1 (readN_isSome src false len)
  rw [readN, hrun, Option.getD_some]
  have hstart : (0 : ℤ) ≤ (readNStart src).readn ∧ (readNStart src).readn ≤ len ∧
      len ≤ (readNStart src).src.arrivals.length + (readNStart src).readn.toNat :=
    ⟨Int.le_refl 0, Int.natCast_nonneg len, h⟩
  refine Loop.run_inv (I := fun s : ReadN =>
      0 ≤ s.readn ∧ s.readn ≤ len ∧ len ≤ s.src.arrivals.length + s.readn.toNat)
    (Q := fun res => ∃ rn, res = .ok rn) ?_ ?_ hstart hrun
  · rintro s s' ⟨h0, hle, hleft⟩ hturn
    obtain ⟨chunk, src', hread, hpos, hchunk, rfl⟩ := readNTurn_again_eq hlen h0 hle hturn
    have hone := Source.length_read hread
    refine ⟨?_, ?_, ?_⟩ <;> dsimp only <;> omega
  · rintro s res ⟨h0, hle, hleft⟩ hturn
    cases res with
    | ok rn => exact ⟨rn, rfl⟩
    | error f =>
        obtain ⟨hlt, hread⟩ := readNTurn_error hturn
        obtain ⟨-, hnil, -⟩ := Source.read_error hread
        have hmore : CInt.toUInt64 s.readn = s.readn.toNat :=
          CInt.toUInt64_of_nonneg h0 (by omega)
        rw [hnil, List.length_nil] at hleft
        omega

/-- A call for some bytes uses up some of what is to come, if anything is. -/
theorem readN_weight {src : Source} {len : ℕ} (hpos : 0 < len) (hlen : len < 2 ^ 31)
    (hne : src.arrivals ≠ []) {rn : ReadN} (h : readN src false len = .ok rn) :
    rn.src.weight < src.weight := by
  obtain ⟨res, hrun⟩ := Option.isSome_iff_exists.1 (readN_isSome src false len)
  rw [readN, hrun, Option.getD_some] at h
  refine Loop.run_inv (I := fun s => s.src.weight < src.weight ∨ s = readNStart src)
    (Q := fun res => ∀ rn, res = .ok rn → rn.src.weight < src.weight) ?_ ?_ (Or.inr rfl) hrun rn h
  · intro s s' hs hturn
    have hless := readNTurn_again_weight hturn
    rcases hs with hlt | rfl
    · exact Or.inl (hless.trans hlt)
    · exact Or.inl hless
  · rintro s res hs hturn rn rfl
    rcases readNTurn_done_eq hturn with ⟨hge, rfl⟩ | ⟨r, chunk, src', hread, -, rfl⟩
    · rcases hs with hlt | rfl
      · exact hlt
      · exact absurd hpos hge
    · rcases hs with hlt | rfl
      · exact (Source.weight_read_le hread).trans_lt hlt
      · have hasked : CInt.toUInt64 ((len : ℤ) - (readNStart src).readn) = len := by
          rw [readNStart, Int.sub_zero, CInt.toUInt64_natCast_of_lt (by omega)]
        rw [hasked] at hread
        exact Source.weight_read_lt hpos hne hread

/-- What a call takes of a first part `pre` of what is to come: a first part of it, or all of it. -/
theorem readN_append {pre extra : List ReadEvent} {ended : Bool} {len : ℕ} (hlen : len < 2 ^ 31)
    {rn : ReadN} (h : readN { arrivals := pre ++ extra, ended := ended } false len = .ok rn) :
    (∃ pre', rn.src = { arrivals := pre' ++ extra, ended := ended } ∧
        (pre.flatMap Source.eventBytes).length =
          rn.readn.toNat + (pre'.flatMap Source.eventBytes).length) ∨
      (pre.flatMap Source.eventBytes).length ≤ rn.readn.toNat := by
  refine (readN_rule hlen (I := fun s : ReadN =>
    (∃ pre', s.src = { arrivals := pre' ++ extra, ended := ended } ∧
        (pre.flatMap Source.eventBytes).length =
          s.readn.toNat + (pre'.flatMap Source.eventBytes).length) ∨
      (pre.flatMap Source.eventBytes).length ≤ s.readn.toNat) ?_ ?_ ?_ h).1
  · exact Or.inl ⟨pre, rfl, (Nat.zero_add _).symm⟩
  · rintro ⟨readn, stores, src⟩ chunk src' hs h0 - hread
    dsimp only at hs h0 hread ⊢
    have hsum : (readn + chunk.length).toNat = readn.toNat + chunk.length := by omega
    rw [hsum]
    rcases hs with ⟨pre', rfl, hcount⟩ | hall
    · by_cases hne : pre' = []
      · rw [hne, List.flatMap_nil, List.length_nil] at hcount
        exact Or.inr (by omega)
      · obtain ⟨r, chunk', rest, hread', hbytes⟩ :=
          Source.read_append hne extra ended (len - readn.toNat)
        rw [hread] at hread'
        cases hread'
        refine Or.inl ⟨rest, rfl, ?_⟩
        rw [hcount, hbytes, List.length_append, Nat.add_assoc]
    · exact Or.inr (by omega)
  · rintro ⟨readn, stores, src⟩ n r chunk src' hs hread hr
    dsimp only at hs hread ⊢
    rcases hs with ⟨pre', rfl, hcount⟩ | hall
    · by_cases hne : pre' = []
      · rw [hne, List.flatMap_nil, List.length_nil] at hcount
        exact Or.inr (by omega)
      · obtain ⟨r', chunk', rest, hread', hbytes⟩ := Source.read_append hne extra ended n
        have hnone := (Source.read_bytes hread).2 hr
        rw [hread] at hread'
        cases hread'
        refine Or.inl ⟨rest, rfl, ?_⟩
        rw [hcount, hbytes, hnone, List.nil_append]
    · exact Or.inr hall

/-! ### Calls to `write_n` -/

/-- A turn of `write_n` on a sink that only takes bytes counts more than before. -/
theorem writeNTurn_again_counts {buf : ℤ → UInt8} {len : ℕ} {sk : Sink} (hlen : len < 2 ^ 31)
    {s s' : WriteN} (hs : WriteNInv buf len sk s) (h : writeNTurn false buf len s = .again s') :
    s.writen < s'.writen := by
  have h0 := hs.nonneg
  have hle := hs.le_len
  obtain ⟨ev, rest, hanswers, ⟨w, hpos, hwle, rfl⟩ | ⟨rfl, -⟩⟩ := writeNTurn_again_cases h
  · rw [CInt.toUInt64_sub_of_nonneg h0 hle (by omega)] at hwle
    rw [CInt.toInt32_of_range (by omega) (by omega)]
    exact Int.lt_add_of_pos_right _ (by omega)
  · obtain ⟨k, hk⟩ := hs.accepts .intr (by rw [hanswers]; exact List.mem_cons_self)
    cases hk

/-- **`write_n` hands everything over** to a sink that only takes bytes, when it is answered as
often as there are bytes. -/
theorem writeN_of_answers (buf : ℤ → UInt8) {len : ℕ} (hlen : len < 2 ^ 31) {sk : Sink}
    (hacc : Sink.Accepts sk) (hmany : len ≤ sk.answers.length) :
    (writeN sk false buf len).1 = none ∧
      sk.answers.length ≤ (writeN sk false buf len).2.sink.answers.length + len := by
  obtain ⟨r, hrun⟩ := Option.isSome_iff_exists.1 (writeN_isSome sk false buf len)
  rw [writeN, hrun, Option.getD_some]
  have hstart : WriteNInv buf len sk { writen := 0, sink := sk } :=
    ⟨Int.le_refl 0, Int.natCast_nonneg len, by simp [memBytes], hacc⟩
  refine Loop.run_inv (I := fun s : WriteN =>
      WriteNInv buf len sk s ∧ sk.answers.length ≤ s.sink.answers.length + s.writen.toNat)
    (Q := fun r : Option Fault × WriteN => r.1 = none ∧
      sk.answers.length ≤ r.2.sink.answers.length + len) ?_ ?_ ⟨hstart, Nat.le_refl _⟩ hrun
  · rintro s s' ⟨hs, hcount⟩ hturn
    refine ⟨writeNTurn_again hlen hs hturn, ?_⟩
    have hmore := writeNTurn_again_counts hlen hs hturn
    obtain ⟨ev, hanswers⟩ := writeNTurn_again_answers hturn
    have h0 := hs.nonneg
    rw [hanswers, List.length_cons] at hcount
    omega
  · rintro s r ⟨hs, hcount⟩ hturn
    obtain ⟨heq, -, hwait⟩ := writeNTurn_done hlen hs hturn
    have h0 := hs.nonneg
    have hle := hs.le_len
    refine ⟨?_, by rw [heq]; omega⟩
    by_contra hne
    obtain ⟨hlt, hnil⟩ := hwait hne
    rw [hnil, List.length_nil] at hcount
    omega

end Utils

/-- **A call returns the number of the bytes** when the socket takes whatever it is given. -/
theorem sendN_of_accepts (buf : ℤ → UInt8) {len : ℕ} (hlen : len < 2 ^ 31) {sk : Sink}
    (hacc : Utils.Sink.Accepts sk) (hmany : len ≤ sk.answers.length) :
    ∃ sk', sendN sk buf len = .ok ((len : ℕ), sk') ∧ Utils.Sink.Accepts sk' ∧
      sk.answers.length ≤ sk'.answers.length + len := by
  obtain ⟨hreturns, hcount⟩ := Utils.writeN_of_answers buf hlen hacc hmany
  obtain ⟨hinv, hall⟩ := Utils.writeN_of_accepts buf hlen hacc
  refine ⟨_, ?_, hinv.accepts, hcount⟩
  rw [sendN, hreturns, hall hreturns]

/-- A call to such a socket that returns has handed everything over. -/
theorem sendN_eq_len {buf : ℤ → UInt8} {len : ℕ} (hlen : len < 2 ^ 31) {sk : Sink}
    (hacc : Utils.Sink.Accepts sk) {r : ℤ × Sink} (h : sendN sk buf len = .ok r) :
    r.1 = len ∧ Utils.Sink.Accepts r.2 := by
  obtain ⟨hinv, hall⟩ := Utils.writeN_of_accepts buf hlen hacc
  rw [sendN] at h
  split at h
  · rename_i hreturns
    cases h
    exact ⟨hall hreturns, hinv.accepts⟩
  · cases h

/-! ### The loop -/

/-- A file whose first `k` reads are written down. -/
def firstReads (rd : ℕ → ReadEvent) (k : ℕ) : Source where
  arrivals := (List.range k).map rd
  ended := false

/-- A socket that takes whatever it is given, of which the first `k` answers are written down: the
call `i` takes at most `acc i + 1` bytes. -/
def firstAccepts (acc : ℕ → ℕ) (sent : Bytes) (k : ℕ) : Sink where
  answers := (List.range k).map fun i => .accept (acc i)
  sent := sent

/-- The state before the loop, for a file that may not have opened. -/
def sendLoopStart (file : Option (ℕ → ReadEvent)) (acc : ℕ → ℕ) (sent : Bytes) (k m : ℕ) :
    SendLoop where
  rn := 0
  fd := file.map fun rd => firstReads rd k
  sock := firstAccepts acc sent m

/-- **The loop ends**: some number of turns and of results of the calls is enough for it to
leave. -/
def SendEnds (req : ℤ → UInt8) (length : ℕ) (file : Option (ℕ → ReadEvent)) (acc : ℕ → ℕ)
    (sent : Bytes) : Prop :=
  ∃ (k m fuel : ℕ) (b : Bool) (last : SendLoop),
    Loop.run (sendTurn req length) fuel (sendLoopStart file acc sent k m) = some (.ok (b, last))

/-- The file has opened, and its reads deliver `n` bytes or more, taken together. -/
def Delivers (file : Option (ℕ → ReadEvent)) (n : ℕ) : Prop :=
  ∃ rd, file = some rd ∧ ∃ k, n ≤ (firstReads rd k).bytes.length

theorem firstAccepts_accepts (acc : ℕ → ℕ) (sent : Bytes) (k : ℕ) :
    Utils.Sink.Accepts (firstAccepts acc sent k) := by
  intro ev hev
  obtain ⟨i, -, rfl⟩ := List.mem_map.1 hev
  exact ⟨acc i, rfl⟩

/-- The bytes that are still to come from a descriptor that may not be open. -/
def leftBytes (fd : Option Source) : Bytes := (fd.map Source.bytes).getD []

/-- What a turn counts is taken from what is to come. -/
theorem readFd_leftBytes {fd fd' : Option Source} {len n : ℕ} (hlen : len < 2 ^ 31)
    {stores : List (ℤ × Bytes)} (h : readFd fd len = .ok (n, stores, fd')) :
    n + (leftBytes fd').length = (leftBytes fd).length := by
  cases fd with
  | none =>
      cases h
      rfl
  | some src =>
      rw [readFd] at h
      cases hread : Utils.readN src false len with
      | error f =>
          rw [hread] at h
          cases h
      | ok rn =>
          rw [hread] at h
          obtain ⟨hn, -, rfl⟩ : rn.readn = n ∧ rn.stores = stores ∧ some rn.src = fd' := by
            simpa [Except.map] using h
          obtain ⟨htook, -⟩ := readN_took hlen [] hread
          have hle := htook.le_length
          have hleft := htook.left_eq
          rw [hn, Int.toNat_natCast] at hle hleft
          have hdrop : leftBytes (some rn.src) = src.bytes.drop n := hleft
          have hall : leftBytes (some src) = src.bytes := rfl
          rw [hdrop, hall, List.length_drop]
          omega

/-- **The loop counts no more than there is**, and leaves a socket that takes bytes only when it
has counted everything. -/
theorem Turns.counted_le {req : ℤ → UInt8} {length : ℕ} {s t : SendLoop} {turns : List (ℕ × ℕ)}
    (h : Turns req length s turns t) (hacc : Utils.Sink.Accepts s.sock) :
    length ≤ s.rn + (leftBytes s.fd).length := by
  have hlen := requestReadBufferLength_lt
  induction h with
  | counted hge => omega
  | zero _ _ hsend =>
      obtain ⟨hall, -⟩ := sendN_eq_len hlen hacc hsend
      cases hall
  | @more s t n w stores fd sock turns hlt hread hsend _ ih =>
      obtain ⟨-, hacc'⟩ := sendN_eq_len hlen hacc hsend
      have hrest := ih hacc'
      have htaken := readFd_leftBytes hlen hread
      -- the sum may have wrapped around, which makes it smaller
      have hcount := CInt.toUInt64_natCast_le n
      have hsum := CInt.toUInt64_natCast_le (s.rn + CInt.toUInt64 n)
      push_cast at hsum
      dsimp only [SendLoop.after] at hrest
      omega

/-- What is there for the loop: of the file, what is still to be counted, and behind it more than
one call takes; and answers for as many turns as there can be. -/
structure Supplied (length : ℕ) (pre extra : List ReadEvent) (s : SendLoop) : Prop where
  fd_eq : s.fd = some { arrivals := pre ++ extra, ended := false }
  enough : length ≤ s.rn + (pre.flatMap Source.eventBytes).length
  more : requestReadBufferLength ≤ extra.length
  accepts : Utils.Sink.Accepts s.sock
  answers : Source.weight { arrivals := pre ++ extra, ended := false } * requestReadBufferLength ≤
    s.sock.answers.length

/-- **The loop leaves** when it is supplied: every turn uses up some of the file. -/
theorem sendLoop_leaves (req : ℤ → UInt8) {length : ℕ} (hlength : length < 2 ^ 63)
    {extra : List ReadEvent} : ∀ (w : ℕ) (pre : List ReadEvent) (s : SendLoop),
      Source.weight { arrivals := pre ++ extra, ended := false } ≤ w →
      Supplied length pre extra s →
      ∃ (fuel : ℕ) (b : Bool) (last : SendLoop),
        Loop.run (sendTurn req length) fuel s = some (.ok (b, last)) := by
  have hlen := requestReadBufferLength_lt
  have hpos : 0 < requestReadBufferLength := by decide
  intro w
  induction w with
  | zero =>
      intro pre s hw hs
      have hle := Source.length_le_weight (pre ++ extra) false
      have hmore := hs.more
      rw [List.length_append] at hle
      omega
  | succ w ih =>
      intro pre s hw hs
      by_cases hlt : s.rn < length
      · have hmore : requestReadBufferLength ≤ (pre ++ extra).length := by
          rw [List.length_append]
          exact hs.more.trans (Nat.le_add_left _ _)
        have hweight := Source.length_le_weight (pre ++ extra) false
        obtain ⟨rn, hread⟩ : ∃ rn, Utils.readN { arrivals := pre ++ extra, ended := false } false
            requestReadBufferLength = .ok rn := Utils.readN_of_arrivals hlen hmore
        obtain ⟨sock, hsend, hacc, hanswers⟩ := sendN_of_accepts req hlen hs.accepts
          ((Nat.le_mul_of_pos_left _ (by omega)).trans hs.answers)
        have hinv := Utils.readN_inv hlen hread
        obtain ⟨n, hn⟩ := Int.eq_ofNat_of_zero_le hinv.nonneg
        have hle := hinv.le_len
        have hfd : readFd s.fd requestReadBufferLength = .ok (n, rn.stores, some rn.src) := by
          rw [hs.fd_eq, readFd, hread, ← hn]
          rfl
        have hturn := sendTurn_eq hlt hfd hsend
        rw [if_neg hpos.ne'] at hturn
        have hsum : (s.after n (some rn.src) sock).rn = s.rn + n := by
          rw [SendLoop.after, CInt.toUInt64_natCast_of_lt (n := n) (by omega), ← Nat.cast_add,
            CInt.toUInt64_natCast_of_lt (by omega)]
        have henough := hs.enough
        rcases Utils.readN_append hlen hread with ⟨pre', hsrc, hcount⟩ | hall
        · have hless := Utils.readN_weight hpos hlen
            (List.ne_nil_of_length_pos (hpos.trans_le hmore)) hread
          rw [hsrc] at hless
          have hused := Nat.mul_le_mul_right requestReadBufferLength hless
          rw [Nat.succ_mul] at hused
          have hsupplied := hs.answers
          obtain ⟨fuel, b, last, hrun⟩ := ih pre' (s.after n (some rn.src) sock) (by omega) {
            fd_eq := by rw [SendLoop.after, hsrc]
            enough := by omega
            more := hs.more
            accepts := hacc
            answers := by
              have hsock : (s.after n (some rn.src) sock).sock = sock := rfl
              rw [hsock]
              omega }
          exact ⟨fuel + 1, b, last, by rw [Loop.run_again hturn, hrun]⟩
        · -- everything is counted, and the next turn leaves
          have hge : ¬ (s.after n (some rn.src) sock).rn < length := by omega
          refine ⟨2, false, s.after n (some rn.src) sock, ?_⟩
          rw [Loop.run_again hturn, Loop.run_done (sendTurn_counted hge)]
      · exact ⟨1, false, s, Loop.run_done (sendTurn_counted hlt)⟩

/-- **A loop that ends has been delivered the bytes it asked for.** -/
theorem delivers_of_sendEnds {req : ℤ → UInt8} {length : ℕ} {file : Option (ℕ → ReadEvent)}
    {acc : ℕ → ℕ} {sent : Bytes} (h : SendEnds req length file acc sent) :
    length = 0 ∨ Delivers file length := by
  obtain ⟨k, m, fuel, b, last, hrun⟩ := h
  obtain ⟨turns, hturns, -⟩ := turns_of_run hrun
  have hle := hturns.counted_le (firstAccepts_accepts acc sent m)
  cases file with
  | none => exact Or.inl (Nat.le_zero.1 hle)
  | some rd =>
      rw [sendLoopStart, Nat.zero_add] at hle
      exact Or.inr ⟨rd, rfl, k, hle⟩

/-- **A loop that is delivered them ends.** -/
theorem sendEnds_of_delivers (req : ℤ → UInt8) {length : ℕ} (hlength : length < 2 ^ 63)
    {file : Option (ℕ → ReadEvent)} (acc : ℕ → ℕ) (sent : Bytes)
    (h : length = 0 ∨ Delivers file length) : SendEnds req length file acc sent := by
  rcases h with rfl | ⟨rd, rfl, k, hk⟩
  · exact ⟨0, 0, 1, false, _, Loop.run_done (sendTurn_counted (Nat.not_lt_zero _))⟩
  · -- the reads that deliver the bytes, as many as one call can make behind them, and the answers
    let pre := (List.range k).map rd
    let extra := (List.range requestReadBufferLength).map fun i => rd (k + i)
    have hreads : firstReads rd (k + requestReadBufferLength) =
        { arrivals := pre ++ extra, ended := false } := by
      rw [firstReads, List.range_add, List.map_append, List.map_map]
      rfl
    let w := Source.weight { arrivals := pre ++ extra, ended := false }
    obtain ⟨fuel, b, last, hrun⟩ := sendLoop_leaves req hlength w pre
      (sendLoopStart (some rd) acc sent (k + requestReadBufferLength)
        (w * requestReadBufferLength)) (Nat.le_refl w) {
      fd_eq := congrArg some hreads
      enough := by
        rw [sendLoopStart, Nat.zero_add]
        exact hk
      more := by rw [List.length_map, List.length_range]
      accepts := firstAccepts_accepts acc sent _
      answers := by
        rw [sendLoopStart, firstAccepts, List.length_map, List.length_range] }
    exact ⟨_, _, fuel, b, last, hrun⟩

/-- **The loop ends exactly when the reads deliver what `stat` reported.** -/
theorem sendEnds_iff (req : ℤ → UInt8) {stSize : ℤ} (h0 : 0 ≤ stSize) (hlt : stSize < 2 ^ 63)
    (file : Option (ℕ → ReadEvent)) (acc : ℕ → ℕ) (sent : Bytes) :
    SendEnds req (CInt.toUInt64 stSize) file acc sent ↔
      stSize = 0 ∨ Delivers file stSize.toNat := by
  obtain ⟨length, rfl⟩ := Int.eq_ofNat_of_zero_le h0
  rw [CInt.toUInt64_natCast_of_lt (by omega), Int.toNat_natCast, Int.natCast_eq_zero]
  exact ⟨delivers_of_sendEnds, sendEnds_of_delivers req (by omega) acc sent⟩

/-- A file of two bytes, the second of which comes after an interruption, sent over a socket that
takes one byte at a time. -/
theorem sendEnds_iff_two :
    SendEnds (fun _ => 0) (CInt.toUInt64 2)
        (some fun i => if i = 0 then .data 104 [] else if i = 1 then .intr else .data 105 [])
        (fun _ => 0) [] ↔
      (2 : ℤ) = 0 ∨ Delivers
        (some fun i => if i = 0 then .data 104 [] else if i = 1 then .intr else .data 105 [])
        (2 : ℤ).toNat :=
  sendEnds_iff (fun _ => 0) (by decide) (by decide) _ (fun _ => 0) []

/-- A file that was cut off after `stat` reported one byte: the loop never ends. -/
theorem sendLoop_truncated_not_ends :
    ¬ SendEnds (fun _ => 0) (CInt.toUInt64 1) (some fun _ => .eof) (fun _ => 0) [] := by
  intro h
  rcases delivers_of_sendEnds h with hzero | ⟨rd, hrd, k, hk⟩
  · cases hzero
  · cases hrd
    have hnone : (firstReads (fun _ => ReadEvent.eof) k).bytes = [] := by
      rw [Source.bytes, firstReads, List.flatMap_map]
      exact List.flatMap_eq_nil_iff.2 fun _ _ => rfl
    rw [hnone] at hk
    cases hk
