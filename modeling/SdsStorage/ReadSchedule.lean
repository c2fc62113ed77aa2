/-
**`read_n` over every schedule.**

`read_n` is to go on until it has all the bytes it was asked for, the end of the stream, or an error
that is not an interruption.  It compares the result of the call with `EINTR`, where `errno` is
meant, so that an interruption ends it like any other error; and it counts in an `int`, so that the
count is wrong from the byte on that it cannot count.  Nothing else goes wrong, and this module says
so: the schedules `read_n` handles are exactly those that bring it to neither.

Main definitions:

* `placed`, `Contiguous` — the bytes a sequence of stores places, one behind the other;
* `ReadsFully` — what is expected of a call that returns;
* `Uninterrupted`, `delivered` — what a schedule brings before a call of a given length ends.

Main results:

* `readN_returns` — the call returns unless the schedule runs out;
* `readN_readsFully_iff` — **a call reads fully, or stops for a reason, exactly when it is not
  interrupted and is delivered less than `2 ^ 31` bytes**.
-/

import SdsStorage.Utils

set_option relaxedAutoImplicit false
set_option autoImplicit false

namespace Utils

/-! ### What is placed -/

/-- The bytes stored, in the order of the stores. -/
def placed (stores : List (ℤ × Bytes)) : Bytes := stores.flatMap (·.2)

/-- The first store is at the offset `off`, and each begins where the one before it ends. -/
def Contiguous : ℤ → List (ℤ × Bytes) → Prop
  | _, [] => True
  | off, (i, bs) :: stores => i = off ∧ Contiguous (off + bs.length) stores

@[simp] theorem placed_nil : placed [] = [] := rfl

@[simp] theorem placed_cons (st : ℤ × Bytes) (stores : List (ℤ × Bytes)) :
    placed (st :: stores) = st.2 ++ placed stores := rfl

@[simp] theorem placed_concat (stores : List (ℤ × Bytes)) (i : ℤ) (bs : Bytes) :
    placed (stores ++ [(i, bs)]) = placed stores ++ bs := by
  simp [placed]

/-- One more store, behind all others. -/
theorem Contiguous.concat {stores : List (ℤ × Bytes)} {i : ℤ} {bs : Bytes} :
    ∀ {off : ℤ}, Contiguous off stores → i = off + (placed stores).length →
      Contiguous off (stores ++ [(i, bs)]) := by
  induction stores with
  | nil =>
      intro off _ hi
      refine ⟨?_, trivial⟩
      simpa using hi
  | cons st stores ih =>
      rintro off ⟨hst, hrest⟩ hi
      refine ⟨hst, ih hrest ?_⟩
      rw [placed_cons, List.length_append] at hi
      push_cast at hi
      omega

/-! ### What is expected -/

/-- The next call finds the end of the stream. -/
def AtEnd (src : Source) : Prop :=
  src.arrivals.head? = some .eof ∨ (src.arrivals = [] ∧ src.ended = true)

/-- The next call fails with an error that is not an interruption. -/
def Failing (src : Source) : Prop := src.arrivals.head? = some .fail

/-- The state the loop of `read_n` starts from. -/
def readNStart (src : Source) : ReadN := { readn := 0, stores := [], src := src }

/-- What is expected of a call that returns: the bytes that were delivered lie one behind the other
from the start of the buffer on, the result is their number, and the turn that leaves the loop has
all bytes, or finds the end or an error that is not an interruption. -/
structure ReadsFully (src : Source) (len : ℕ) (rn : ReadN) : Prop where
  contiguous : Contiguous 0 rn.stores
  in_order : src.bytes = placed rn.stores ++ rn.src.bytes
  counted : rn.readn = (placed rn.stores).length
  stops : ∃ s, Loop.Reaches (readNTurn false len) (readNStart src) s ∧
    readNTurn false len s = .done (.ok rn) ∧ (rn.readn = len ∨ AtEnd s.src ∨ Failing s.src)

/-- No call is interrupted before `n` more bytes, the end, or an error have come. -/
def Uninterrupted : ℕ → List ReadEvent → Prop
  | 0, _ => True
  | _, [] => True
  | n, .data _ bs :: rest => Uninterrupted (n - (bs.length + 1)) rest
  | _, .intr :: _ => False
  | _, .eof :: _ => True
  | _, .fail :: _ => True

/-- How many of `n` more bytes are delivered before something else comes. -/
def delivered : ℕ → List ReadEvent → ℕ
  | n, .data _ bs :: rest => min n (bs.length + 1) + delivered (n - (bs.length + 1)) rest
  | _, _ => 0

@[simp] theorem uninterrupted_zero (arrivals : List ReadEvent) : Uninterrupted 0 arrivals := by
  cases arrivals <;> exact trivial

theorem delivered_zero (arrivals : List ReadEvent) : delivered 0 arrivals = 0 := by
  induction arrivals with
  | nil => rfl
  | cons ev rest ih =>
      cases ev with
      | data b bs => simp [delivered, ih]
      | eof | intr | fail => rfl

@[simp] theorem uninterrupted_nil (n : ℕ) : Uninterrupted n [] := by
  cases n <;> exact trivial

theorem uninterrupted_eof (n : ℕ) (rest : List ReadEvent) : Uninterrupted n (.eof :: rest) := by
  cases n <;> exact trivial

theorem uninterrupted_fail (n : ℕ) (rest : List ReadEvent) : Uninterrupted n (.fail :: rest) := by
  cases n <;> exact trivial

theorem uninterrupted_data {n : ℕ} (hn : 0 < n) (b : UInt8) (bs : Bytes) (rest : List ReadEvent) :
    Uninterrupted n (.data b bs :: rest) ↔ Uninterrupted (n - (bs.length + 1)) rest := by
  obtain ⟨k, rfl⟩ := Nat.exists_eq_add_of_lt hn
  rfl

theorem not_uninterrupted_intr {n : ℕ} (hn : 0 < n) (rest : List ReadEvent) :
    ¬ Uninterrupted n (.intr :: rest) := by
  obtain ⟨k, rfl⟩ := Nat.exists_eq_add_of_lt hn
  exact fun h => h

/-- What is left of a chunk does not matter: once it is cut, nothing more is wanted. -/
theorem uninterrupted_leftover (n : ℕ) (b : UInt8) (bs : Bytes) (rest : List ReadEvent) :
    Uninterrupted (n - ((b :: bs).take n).length) (Source.leftover (b :: bs) n rest) ↔
      Uninterrupted (n - (bs.length + 1)) rest := by
  rcases Nat.lt_or_ge n (bs.length + 1) with hcut | hwhole
  · have hlen : ((b :: bs).take n).length = n := by
      rw [List.length_take, List.length_cons]
      omega
    have hzero : n - (bs.length + 1) = 0 := by omega
    rw [hlen, Nat.sub_self, hzero]
    simp
  · rw [List.take_of_length_le hwhole, Source.leftover, List.drop_of_length_le hwhole]
    rfl

theorem delivered_leftover (n : ℕ) (b : UInt8) (bs : Bytes) (rest : List ReadEvent) :
    ((b :: bs).take n).length +
        delivered (n - ((b :: bs).take n).length) (Source.leftover (b :: bs) n rest) =
      delivered n (.data b bs :: rest) := by
  rcases Nat.lt_or_ge n (bs.length + 1) with hcut | hwhole
  · have hlen : ((b :: bs).take n).length = n := by
      rw [List.length_take, List.length_cons]
      omega
    have hzero : n - (bs.length + 1) = 0 := by omega
    rw [delivered, hlen, Nat.sub_self, hzero, delivered_zero, delivered_zero]
    omega
  · rw [List.take_of_length_le hwhole, Source.leftover, List.drop_of_length_le hwhole, delivered,
      Nat.min_eq_right hwhole]
    rfl

/-- A call that places bytes takes them from those that are delivered. -/
theorem delivered_of_read {src src' : Source} {n : ℕ} {r : ℤ} {chunk : Bytes}
    (h : src.read false n = .ok (r, chunk, src')) (hr : 0 < r) :
    (Uninterrupted (n - chunk.length) src'.arrivals ↔ Uninterrupted n src.arrivals) ∧
      chunk.length + delivered (n - chunk.length) src'.arrivals = delivered n src.arrivals := by
  cases Source.reads_of_read h with
  | @took b bs rest ended _ =>
      have hn : 0 < n := by
        rw [List.length_take, List.length_cons] at hr
        omega
      rw [uninterrupted_leftover, uninterrupted_data hn]
      exact ⟨Iff.rfl, delivered_leftover n b bs rest⟩
  | stayed hle => omega
  | passed hle => omega

/-- A call that places none has a reason to stop unless it is interrupted. -/
theorem stops_of_read {src src' : Source} {n : ℕ} {r : ℤ} {chunk : Bytes} (hn : 0 < n)
    (h : src.read false n = .ok (r, chunk, src')) (hr : r ≤ 0) :
    (Uninterrupted n src.arrivals ↔ AtEnd src ∨ Failing src) ∧ delivered n src.arrivals = 0 := by
  obtain ⟨arrivals, ended⟩ := src
  cases arrivals with
  | nil =>
      cases ended with
      | true => exact ⟨iff_of_true (uninterrupted_nil n) (Or.inl (Or.inr ⟨rfl, rfl⟩)), rfl⟩
      | false => cases h
  | cons ev rest =>
      cases ev with
      | data b bs =>
          cases h
          rw [List.length_take, List.length_cons] at hr
          omega
      | eof => exact ⟨iff_of_true (uninterrupted_eof n rest) (Or.inl (Or.inl rfl)), rfl⟩
      | fail => exact ⟨iff_of_true (uninterrupted_fail n rest) (Or.inr rfl), rfl⟩
      | intr =>
          refine ⟨iff_of_false (not_uninterrupted_intr hn rest) ?_, rfl⟩
          rintro ((hend | ⟨hnil, -⟩) | hfail)
          · cases hend
          · cases hnil
          · cases hfail

/-! ### The states of the loop -/

/-- As long as the count is right: the bytes delivered so far are in place. -/
structure ReadingWell (src : Source) (len : ℕ) (s : ReadN) : Prop where
  reaches : Loop.Reaches (readNTurn false len) (readNStart src) s
  contiguous : Contiguous 0 s.stores
  in_order : src.bytes = placed s.stores ++ s.src.bytes
  counted : s.readn = (placed s.stores).length
  le_len : (placed s.stores).length ≤ len
  small : (placed s.stores).length < 2 ^ 31

theorem readingWell_start (src : Source) (len : ℕ) : ReadingWell src len (readNStart src) where
  reaches := Relation.ReflTransGen.refl
  contiguous := trivial
  in_order := rfl
  counted := rfl
  le_len := Nat.zero_le len
  small := Nat.two_pow_pos 31

/-- Once more bytes are in place than an `int` counts, the count stays wrong. -/
structure Overcounted (s : ReadN) : Prop where
  large : 2 ^ 31 ≤ (placed s.stores).length
  readn_lt : s.readn < 2 ^ 31

theorem toInt32_lt (x : ℤ) : CInt.toInt32 x < 2 ^ 31 := by
  rw [CInt.toInt32_eq]
  omega

theorem Overcounted.not_counted {s : ReadN} (h : Overcounted s) :
    s.readn ≠ (placed s.stores).length := by
  have := h.large
  have := h.readn_lt
  omega

/-- A turn does not set the count right. -/
theorem Overcounted.again {len : ℕ} {s s' : ReadN} (h : Overcounted s)
    (hturn : readNTurn false len s = .again s') : Overcounted s' := by
  obtain ⟨r, chunk, src, -, -, rfl⟩ := readNTurn_again_read hturn
  refine ⟨?_, toInt32_lt _⟩
  rw [placed_concat, List.length_append]
  exact Nat.le_add_right_of_le h.large

theorem Overcounted.done {len : ℕ} {s rn : ReadN} (h : Overcounted s)
    (hturn : readNTurn false len s = .done (.ok rn)) : Overcounted rn := by
  rcases readNTurn_done_eq hturn with ⟨-, rfl⟩ | ⟨r, chunk, src, -, -, rfl⟩
  · exact h
  · exact ⟨h.large, h.readn_lt⟩

theorem Overcounted.run {len fuel : ℕ} {s rn : ReadN} (h : Overcounted s)
    (hrun : Loop.run (readNTurn false len) fuel s = some (.ok rn)) : Overcounted rn := by
  refine Loop.run_inv (I := Overcounted) (Q := fun r => ∀ rn, r = .ok rn → Overcounted rn)
    ?_ ?_ h hrun rn rfl
  · intro s s' hs hturn
    exact hs.again hturn
  · rintro s r hs hturn rn rfl
    exact hs.done hturn

namespace ReadingWell

variable {src src' : Source} {len : ℕ} {s s' rn : ReadN}

theorem toUInt64_readn (hlen : len < 2 ^ 64) (h : ReadingWell src len s) :
    CInt.toUInt64 s.readn = (placed s.stores).length := by
  have hle := h.le_len
  rw [h.counted]
  exact CInt.toUInt64_natCast_of_lt (by omega)

theorem toUInt64_rest (hlen : len < 2 ^ 64) (h : ReadingWell src len s) :
    CInt.toUInt64 ((len : ℤ) - s.readn) = len - (placed s.stores).length := by
  rw [h.counted]
  exact CInt.toUInt64_sub h.le_len hlen

/-- A call that is left from a state in which the count is right reads fully exactly when it has a
reason to stop. -/
theorem readsFully_iff (h : ReadingWell src len s) (hsrc : src'.bytes = s.src.bytes)
    (hturn : readNTurn false len s = .done (.ok { s with src := src' })) :
    ReadsFully src len { s with src := src' } ↔
      ((placed s.stores).length = len ∨ AtEnd s.src ∨ Failing s.src) := by
  have hcount : s.readn = len ↔ (placed s.stores).length = len := by
    rw [h.counted]
    exact Nat.cast_inj
  constructor
  · rintro ⟨-, -, -, t, ht, hdone, hreason⟩
    have hst := h.reaches.done_unique hturn ht hdone
    subst hst
    exact hreason.imp_left hcount.1
  · intro hreason
    refine ⟨h.contiguous, ?_, h.counted, s, h.reaches, hturn, hreason.imp_left hcount.2⟩
    rw [h.in_order, hsrc]

/-- A turn that leaves the loop: nothing more is delivered, and the call reads fully unless it is
interrupted. -/
theorem done_iff (hlen : len < 2 ^ 64) (h : ReadingWell src len s)
    (hturn : readNTurn false len s = .done (.ok rn)) :
    (ReadsFully src len rn ↔
        Uninterrupted (len - (placed s.stores).length) s.src.arrivals) ∧
      delivered (len - (placed s.stores).length) s.src.arrivals = 0 := by
  rcases Nat.eq_or_lt_of_le h.le_len with hfull | hlt
  · -- all bytes are there, and no call is made
    have hturn' : readNTurn false len s = .done (.ok s) := by
      rw [readNTurn, h.toUInt64_readn hlen, if_neg (Nat.not_lt.2 hfull.ge)]
    rw [hturn'] at hturn
    cases hturn
    have hread : ReadsFully src len s := (h.readsFully_iff rfl hturn').2 (Or.inl hfull)
    rw [hfull, Nat.sub_self]
    exact ⟨iff_of_true hread (uninterrupted_zero _), delivered_zero _⟩
  · have hwant : 0 < len - (placed s.stores).length := Nat.sub_pos_of_lt hlt
    rcases readNTurn_done_eq hturn with ⟨hge, -⟩ | ⟨r, chunk, left, hread, hr, rfl⟩
    · rw [h.toUInt64_readn hlen] at hge
      exact absurd hlt hge
    · rw [h.toUInt64_rest hlen] at hread
      obtain ⟨hbytes, hnone⟩ := Source.read_bytes hread
      rw [hnone hr, List.nil_append] at hbytes
      obtain ⟨hstops, hzero⟩ := stops_of_read hwant hread hr
      rw [h.readsFully_iff hbytes.symm hturn, hstops]
      exact ⟨or_iff_right hlt.ne, hzero⟩

/-- A turn that goes round again places a chunk behind the others, and what is still to come is as
it was; the count stays right as long as an `int` holds it. -/
theorem again (hlen : len < 2 ^ 64) (h : ReadingWell src len s)
    (hturn : readNTurn false len s = .again s') :
    (Uninterrupted (len - (placed s'.stores).length) s'.src.arrivals ↔
        Uninterrupted (len - (placed s.stores).length) s.src.arrivals) ∧
      (placed s'.stores).length + delivered (len - (placed s'.stores).length) s'.src.arrivals =
        (placed s.stores).length + delivered (len - (placed s.stores).length) s.src.arrivals ∧
      ((placed s'.stores).length < 2 ^ 31 → ReadingWell src len s') ∧
      (2 ^ 31 ≤ (placed s'.stores).length → Overcounted s') := by
  obtain ⟨r, chunk, left, hread, hpos, rfl⟩ := readNTurn_again_read hturn
  rw [h.toUInt64_rest hlen] at hread
  have hbytes := (Source.read_bytes hread).1
  obtain ⟨hun, hdel⟩ := delivered_of_read hread hpos
  obtain ⟨rfl, hchunk⟩ := Source.read_pos hread hpos
  have hle := h.le_len
  have hplaced : (placed (s.stores ++ [(s.readn, chunk)])).length =
      (placed s.stores).length + chunk.length := by
    rw [placed_concat, List.length_append]
  refine ⟨?_, ?_, ?_, ?_⟩
  · rw [hplaced, ← Nat.sub_sub]
    exact hun
  · rw [hplaced, ← Nat.sub_sub, Nat.add_assoc, hdel]
  · intro hsmall
    refine ⟨h.reaches.tail hturn, ?_, ?_, ?_, ?_, hsmall⟩
    · exact h.contiguous.concat (by rw [h.counted, Int.zero_add])
    · rw [placed_concat, h.in_order, hbytes, List.append_assoc]
    · dsimp only at hsmall ⊢
      rw [hplaced] at hsmall ⊢
      rw [h.counted, Nat.cast_add]
      exact CInt.toInt32_of_range (by omega) (by omega)
    · dsimp only
      rw [hplaced]
      omega
  · intro hlarge
    exact ⟨hlarge, toInt32_lt _⟩

end ReadingWell

/-! ### The whole call -/

/-- **The run lemma**: from a state in which the count is right, the rest of the call reads fully
exactly when the rest of the schedule lets it.  The induction is on the turns. -/
theorem run_readsFully_iff {src : Source} {len : ℕ} (hlen : len < 2 ^ 64) (fuel : ℕ) :
    ∀ {s rn : ReadN}, ReadingWell src len s →
      Loop.run (readNTurn false len) fuel s = some (.ok rn) →
      (ReadsFully src len rn ↔
        Uninterrupted (len - (placed s.stores).length) s.src.arrivals ∧
          (placed s.stores).length +
            delivered (len - (placed s.stores).length) s.src.arrivals < 2 ^ 31) := by
  induction fuel with
  | zero =>
      intro s rn _ hrun
      cases hrun
  | succ fuel ih =>
      intro s rn h hrun
      cases hturn : readNTurn false len s with
      | done res =>
          rw [Loop.run_done hturn] at hrun
          cases hrun
          obtain ⟨hiff, hnone⟩ := h.done_iff hlen hturn
          rw [hiff, hnone, Nat.add_zero]
          exact (and_iff_left h.small).symm
      | again s' =>
          rw [Loop.run_again hturn] at hrun
          obtain ⟨hun, hdel, hnext, hover⟩ := h.again hlen hturn
          rw [← hun, ← hdel]
          rcases Nat.lt_or_ge (placed s'.stores).length (2 ^ 31) with hsmall | hlarge
          · exact ih (hnext hsmall) hrun
          · -- the count stays wrong to the end
            have hbad := (hover hlarge).run hrun
            constructor
            · intro hread
              exact absurd hread.counted hbad.not_counted
            · rintro ⟨-, hfew⟩
              omega

/-- **The call returns unless the schedule runs out.** -/
theorem readN_returns (src : Source) (len : ℕ) :
    (∃ rn, readN src false len = .ok rn) ∨
      (readN src false len = .error .blocked ∧ src.ended = false) := by
  obtain ⟨res, hrun⟩ := Option.isSome_iff_exists.1 (readN_isSome src false len)
  rw [readN, hrun, Option.getD_some]
  refine Loop.run_inv (I := fun s => s.src.ended = src.ended)
    (Q := fun res => (∃ rn, res = .ok rn) ∨ (res = .error .blocked ∧ src.ended = false))
    ?_ ?_ rfl hrun
  · intro s s' hs hturn
    obtain ⟨r, chunk, src', hread, -, rfl⟩ := readNTurn_again_read hturn
    exact (Source.ended_read hread).trans hs
  · intro s res hs hturn
    cases res with
    | ok rn => exact Or.inl ⟨rn, rfl⟩
    | error f =>
        obtain ⟨-, hread⟩ := readNTurn_error hturn
        obtain ⟨rfl, -, hend⟩ := Source.read_error hread
        exact Or.inr ⟨rfl, hs.symm.trans hend⟩

/-- **A call reads fully, or stops for a reason, exactly when it is not interrupted and is delivered
less than `2 ^ 31` bytes.** -/
theorem readN_readsFully_iff {src : Source} {len : ℕ} (hlen : len < 2 ^ 64) {rn : ReadN}
    (h : readN src false len = .ok rn) :
    ReadsFully src len rn ↔
      Uninterrupted len src.arrivals ∧ delivered len src.arrivals < 2 ^ 31 := by
  rw [readN] at h
  cases hrun : Loop.run (readNTurn false len) (src.weight + 1)
      { readn := 0, stores := [], src := src } with
  | none =>
      rw [hrun] at h
      cases h
  | some res =>
      rw [hrun, Option.getD_some] at h
      subst h
      have hiff := run_readsFully_iff hlen _ (readingWell_start src len) hrun
      simpa [readNStart] using hiff

/-- Three bytes that come in two pieces. -/
theorem readN_readsFully_iff_three :
    ∃ rn, readN { arrivals := [.data 1 [2], .data 3 [4]], ended := false } false 3 = .ok rn ∧
      (ReadsFully { arrivals := [.data 1 [2], .data 3 [4]], ended := false } 3 rn ↔
        Uninterrupted 3 [.data 1 [2], .data 3 [4]] ∧
          delivered 3 [.data 1 [2], .data 3 [4]] < 2 ^ 31) :=
  ⟨_, rfl, readN_readsFully_iff (by decide) rfl⟩

/-- An interruption before the first byte ends the call, which returns 0. -/
theorem readN_interrupted_not_readsFully :
    ∃ rn, readN { arrivals := [.intr, .data 1 [2]], ended := true } false 2 = .ok rn ∧
      ¬ ReadsFully { arrivals := [.intr, .data 1 [2]], ended := true } 2 rn := by
  refine ⟨_, rfl, ?_⟩
  rintro ⟨-, -, -, s, hs, hdone, hreason⟩
  have hturn : readNTurn false 2 (readNStart { arrivals := [.intr, .data 1 [2]], ended := true }) =
      .done (.ok { readn := 0, stores := [],
                   src := { arrivals := [.data 1 [2]], ended := true } }) := by rfl
  have hst := hs.done_unique hdone Relation.ReflTransGen.refl hturn
  subst hst
  rcases hreason with hall | (heof | ⟨hnil, -⟩) | hfail
  · cases hall
  · cases heof
  · cases hnil
  · cases hfail

end Utils
