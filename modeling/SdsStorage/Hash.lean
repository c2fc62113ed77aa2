/-
**The hash functions.**

`gfs_hashfn` mixes a message into two words, sixteen bytes at a time, with a last block made of
the words that are left, the left-over bytes shifted into the padding, and the padding.
`hash_jump_consistent` sends a 64-bit key to one of `num_buckets` buckets by walking a
pseudo-random sequence of bucket numbers that the key alone determines.

Main definitions:

* `Hash.pad`, `Hash.dmRound`, `Hash.gfsHashfn` — the message hash;
* `Hash.Binary64` — the rounding of C's `double`, of which only `Rounding` is used;
* `Hash.jumpTurn`, `Hash.hashJumpConsistentWith`, `Hash.hashJumpConsistent` — the jump hash, for
  any such rounding and for rounding to nearest even.

Main results:

* `Hash.gfsHashfn_isOk`, `Hash.gfsHashfn_append` — the message hash reads its message, and nothing
  behind it;
* `Hash.jumpProduct_bounds` — the next bucket number lies above the current one and below `2 ^ 62`;
* `Hash.run_jumpTurn` — the loop leaves with `Hash.hashJumpConsistentWith`;
* `Hash.hashJumpConsistentWith_lt`, `Hash.hashJumpConsistentWith_eq` — **the result is a bucket,
  and growing the number of buckets moves a key only onto a new bucket**.
-/

import SdsStorage.CString
import SdsStorage.Loop
import SdsStorage.Rounding
import Mathlib.Logic.Function.Basic

set_option relaxedAutoImplicit false
set_option autoImplicit false

namespace Hash

/-! ### `gfs_hashfn` -/

def dmDelta : UInt32 := 0x9E3779B9

def dmFullRounds : ℕ := 10

def dmPartRounds : ℕ := 6

/-- `__pad`: the length, written in every byte of a word. -/
def pad (len : ℕ) : UInt32 :=
  let pad := UInt32.ofNat len ||| (UInt32.ofNat len <<< 8)
  pad ||| (pad <<< 16)

/-- The loop of `dm_round`. -/
def dmRoundLoop (array : ℕ → UInt32) : ℕ → UInt32 → UInt32 → UInt32 → UInt32 × UInt32
  | 0, _, b0, b1 => (b0, b1)
  | n + 1, sum, b0, b1 =>
      let sum := sum + dmDelta
      let b0 := b0 + (((b1 <<< 4) + array 0) ^^^ (b1 + sum) ^^^ ((b1 >>> 5) + array 1))
      let b1 := b1 + (((b0 <<< 4) + array 2) ^^^ (b0 + sum) ^^^ ((b0 >>> 5) + array 3))
      dmRoundLoop array n sum b0 b1

/-- `dm_round`, on the pair of `*h0` and `*h1`. -/
def dmRound (rounds : ℕ) (array : ℕ → UInt32) (h : UInt32 × UInt32) : UInt32 × UInt32 :=
  let b := dmRoundLoop array rounds 0 h.1 h.2
  (h.1 + b.1, h.2 + b.2)

/-- The byte at the offset `i` of the message. -/
def byteAt (msg : CharPtr) (i : ℕ) : Outcome UInt8 := do
  let m ← msg.deref
  match m[i]? with
  | some b => .ok b
  | none => .error .overread

/-- The 32-bit word at the offset `i` of the message, least significant byte first. -/
def wordAt (msg : CharPtr) (i : ℕ) : Outcome UInt32 := do
  let b0 ← byteAt msg i
  let b1 ← byteAt msg (i + 1)
  let b2 ← byteAt msg (i + 2)
  let b3 ← byteAt msg (i + 3)
  .ok (b0.toUInt32 ||| (b1.toUInt32 <<< 8) ||| (b2.toUInt32 <<< 16) ||| (b3.toUInt32 <<< 24))

/-- The local variables of `gfs_hashfn`; `intmsg` is an offset into the message. -/
structure GfsState where
  intmsg : ℕ
  fullWords : ℕ
  fullBytes : ℕ
  array : ℕ → UInt32
  h : UInt32 × UInt32

/-- The body both loops share: the next word of the message goes to `array[j]`. -/
def takeWord (msg : CharPtr) (s : GfsState) (j : ℕ) : Outcome GfsState := do
  let word ← wordAt msg s.intmsg
  .ok { s with
    array := Function.update s.array j word
    intmsg := s.intmsg + 4
    fullWords := s.fullWords - 1
    fullBytes := s.fullBytes - 4 }

/-- The loop `while (full_bytes)`: a `char` is signed, so it is sign-extended into the word. -/
def drainBytes (msg : CharPtr) (len : ℕ) : ℕ → UInt32 → Outcome UInt32
  | 0, word => .ok word
  | fullBytes + 1, word => do
      let c ← byteAt msg (len - (fullBytes + 1))
      drainBytes msg len fullBytes ((word <<< 8) ||| c.toInt8.toInt32.toUInt32)

/-- One turn of the loop over the complete blocks. -/
def fullQuad (msg : CharPtr) (s : GfsState) (_i : ℕ) : Outcome GfsState := do
  let s ← [0, 1, 2, 3].foldlM (takeWord msg) s
  .ok { s with h := dmRound dmPartRounds s.array s.h }

/-- One turn of the loop that fills the last block. -/
def lastWord (msg : CharPtr) (len : ℕ) (s : GfsState) (j : ℕ) : Outcome GfsState :=
  if s.fullWords ≠ 0 then takeWord msg s j
  else do
    let word ← drainBytes msg len s.fullBytes (pad len)
    .ok { s with array := Function.update s.array j word, fullBytes := 0 }

/-- `gfs_hashfn`. -/
def gfsHashfn (msg : CharPtr) (len : ℕ) : Outcome UInt64 := do
  let s : GfsState :=
    { intmsg := 0, fullWords := len / 4, fullBytes := len, array := fun _ => 0,
      h := (0x9464a485, 0x542e1a94) }
  let s ← (List.range (len / 16)).foldlM (fullQuad msg) s
  let s ← [0, 1, 2, 3].foldlM (lastWord msg len) s
  let h := dmRound dmFullRounds s.array s.h
  .ok (h.1 ^^^ h.2).toUInt64

theorem byteAt_isOk (mem : Bytes) {i : ℕ} (h : i < mem.length) :
    ∃ b, byteAt (.mem mem) i = .ok b := by
  refine ⟨mem[i], ?_⟩
  simp [byteAt, CharPtr.deref, List.getElem?_eq_getElem h]

theorem wordAt_isOk (mem : Bytes) {i : ℕ} (h : i + 4 ≤ mem.length) :
    ∃ word, wordAt (.mem mem) i = .ok word := by
  obtain ⟨b0, h0⟩ := byteAt_isOk mem (i := i) (by omega)
  obtain ⟨b1, h1⟩ := byteAt_isOk mem (i := i + 1) (by omega)
  obtain ⟨b2, h2⟩ := byteAt_isOk mem (i := i + 2) (by omega)
  obtain ⟨b3, h3⟩ := byteAt_isOk mem (i := i + 3) (by omega)
  simp only [wordAt, h0, h1, h2, h3, Outcome.ok_bind]
  exact ⟨_, rfl⟩

theorem drainBytes_isOk {mem : Bytes} {len : ℕ} (hlen : len ≤ mem.length) :
    ∀ (n : ℕ) (word : UInt32), n ≤ len → ∃ word', drainBytes (.mem mem) len n word = .ok word' := by
  intro n
  induction n with
  | zero =>
      intro word _
      exact ⟨word, rfl⟩
  | succ n ih =>
      intro word hn
      obtain ⟨c, hc⟩ := byteAt_isOk mem (i := len - (n + 1)) (by omega)
      simp only [drainBytes, hc, Outcome.ok_bind]
      exact ih _ (by omega)

/-- What holds of the local variables of `gfs_hashfn` throughout: the bytes still counted as left
lie within the message. -/
structure GfsInv (len : ℕ) (s : GfsState) : Prop where
  bytes_le : s.intmsg + s.fullBytes ≤ len
  words_eq : s.fullWords = s.fullBytes / 4

theorem takeWord_isOk {mem : Bytes} {len : ℕ} (hlen : len ≤ mem.length) {s : GfsState}
    (hs : GfsInv len s) (h : 4 ≤ s.fullBytes) (j : ℕ) :
    ∃ t, takeWord (.mem mem) s j = .ok t ∧ GfsInv len t ∧ t.fullBytes + 4 = s.fullBytes := by
  have hle := hs.bytes_le
  have hwords := hs.words_eq
  obtain ⟨word, hword⟩ := wordAt_isOk mem (i := s.intmsg) (by omega)
  simp only [takeWord, hword, Outcome.ok_bind]
  exact ⟨_, rfl, ⟨by dsimp only; omega, by dsimp only; omega⟩, by dsimp only; omega⟩

theorem fullQuad_isOk {mem : Bytes} {len : ℕ} (hlen : len ≤ mem.length) {s : GfsState}
    (hs : GfsInv len s) (h : 16 ≤ s.fullBytes) (i : ℕ) :
    ∃ t, fullQuad (.mem mem) s i = .ok t ∧ GfsInv len t ∧ t.fullBytes + 16 = s.fullBytes := by
  obtain ⟨t, ht, hinv, hbytes⟩ := Outcome.foldlM_range_isOk (n := 4) (f := takeWord (.mem mem))
    (I := fun k u => GfsInv len u ∧ u.fullBytes + 4 * k = s.fullBytes) ⟨hs, by omega⟩ (by
      rintro k u hk ⟨hu, hbytes⟩
      obtain ⟨v, hv, hvinv, hvbytes⟩ := takeWord_isOk hlen hu (by omega) k
      exact ⟨v, hv, hvinv, by omega⟩)
  have hrange : List.range 4 = [0, 1, 2, 3] := rfl
  rw [hrange] at ht
  simp only [fullQuad, ht, Outcome.ok_bind]
  exact ⟨_, rfl, ⟨hinv.bytes_le, hinv.words_eq⟩, hbytes⟩

theorem lastWord_isOk {mem : Bytes} {len : ℕ} (hlen : len ≤ mem.length) {s : GfsState}
    (hs : GfsInv len s) (j : ℕ) : ∃ t, lastWord (.mem mem) len s j = .ok t ∧ GfsInv len t := by
  have hle := hs.bytes_le
  have hwords := hs.words_eq
  rw [lastWord]
  by_cases hw : s.fullWords ≠ 0
  · rw [if_pos hw]
    obtain ⟨t, ht, hinv, -⟩ := takeWord_isOk hlen hs (by omega) j
    exact ⟨t, ht, hinv⟩
  · rw [if_neg hw]
    obtain ⟨word, hword⟩ := drainBytes_isOk hlen s.fullBytes (pad len) (by omega)
    simp only [hword, Outcome.ok_bind]
    exact ⟨_, rfl, ⟨by dsimp only; omega, by dsimp only; omega⟩⟩

/-- The hash of a message that lies within its memory reads nothing else. -/
theorem gfsHashfn_isOk {mem : Bytes} {len : ℕ} (hlen : len ≤ mem.length) :
    ∃ hash, gfsHashfn (.mem mem) len = .ok hash := by
  obtain ⟨s, hs, hinv, -⟩ := Outcome.foldlM_range_isOk (n := len / 16) (f := fullQuad (.mem mem))
    (I := fun k u => GfsInv len u ∧ u.fullBytes + 16 * k = len)
    (s := { intmsg := 0, fullWords := len / 4, fullBytes := len, array := fun _ => 0,
            h := (0x9464a485, 0x542e1a94) })
    ⟨⟨by dsimp only; omega, rfl⟩, by dsimp only; omega⟩ (by
      rintro k u hk ⟨hu, hbytes⟩
      obtain ⟨v, hv, hvinv, hvbytes⟩ := fullQuad_isOk hlen hu (by omega) k
      exact ⟨v, hv, hvinv, by omega⟩)
  obtain ⟨t, ht, -⟩ := Outcome.foldlM_range_isOk (n := 4) (f := lastWord (.mem mem) len)
    (I := fun _ u => GfsInv len u) hinv fun k u _ hu => lastWord_isOk hlen hu k
  have hrange : List.range 4 = [0, 1, 2, 3] := rfl
  rw [hrange] at ht
  simp only [gfsHashfn, hs, ht, Outcome.ok_bind]
  exact ⟨_, rfl⟩

/-! ### What lies behind a message -/

section Extension

variable {mem : Bytes} {s s' : GfsState}

/-- Bytes behind the memory that was read do not matter. -/
theorem byteAt_append (t : Bytes) {i : ℕ} {b : UInt8} (h : byteAt (.mem mem) i = .ok b) :
    byteAt (.mem (mem ++ t)) i = .ok b := by
  simp only [byteAt, CharPtr.deref, Outcome.ok_bind] at h ⊢
  cases hb : mem[i]? with
  | none =>
      rw [hb] at h
      cases h
  | some c =>
      rw [hb] at h
      have hlt := (List.getElem?_eq_some_iff.1 hb).1
      rw [List.getElem?_append_left hlt, hb]
      exact h

theorem wordAt_append (t : Bytes) {i : ℕ} {word : UInt32} (h : wordAt (.mem mem) i = .ok word) :
    wordAt (.mem (mem ++ t)) i = .ok word := by
  simp only [wordAt, Outcome.bind_eq_ok] at h ⊢
  obtain ⟨b0, h0, b1, h1, b2, h2, b3, h3, hword⟩ := h
  exact ⟨b0, byteAt_append t h0, b1, byteAt_append t h1, b2, byteAt_append t h2,
    b3, byteAt_append t h3, hword⟩

theorem takeWord_append (t : Bytes) {j : ℕ} (h : takeWord (.mem mem) s j = .ok s') :
    takeWord (.mem (mem ++ t)) s j = .ok s' := by
  rw [takeWord] at h ⊢
  rw [Outcome.bind_eq_ok] at h ⊢
  obtain ⟨word, hword, hs'⟩ := h
  exact ⟨word, wordAt_append t hword, hs'⟩

theorem drainBytes_append (t : Bytes) {len : ℕ} :
    ∀ (n : ℕ) (word : UInt32) {word' : UInt32}, drainBytes (.mem mem) len n word = .ok word' →
      drainBytes (.mem (mem ++ t)) len n word = .ok word' := by
  intro n
  induction n with
  | zero =>
      intro word word' h
      exact h
  | succ n ih =>
      intro word word' h
      rw [drainBytes] at h ⊢
      rw [Outcome.bind_eq_ok] at h ⊢
      obtain ⟨c, hc, hrest⟩ := h
      exact ⟨c, byteAt_append t hc, ih _ hrest⟩

theorem fullQuad_append (t : Bytes) {i : ℕ} (h : fullQuad (.mem mem) s i = .ok s') :
    fullQuad (.mem (mem ++ t)) s i = .ok s' := by
  rw [fullQuad] at h ⊢
  rw [Outcome.bind_eq_ok] at h ⊢
  obtain ⟨u, hu, hs'⟩ := h
  exact ⟨u, Outcome.foldlM_ok_mono (fun _ _ _ => takeWord_append t) hu, hs'⟩

theorem lastWord_append (t : Bytes) {len j : ℕ} (h : lastWord (.mem mem) len s j = .ok s') :
    lastWord (.mem (mem ++ t)) len s j = .ok s' := by
  rw [lastWord] at h ⊢
  by_cases hw : s.fullWords ≠ 0
  · rw [if_pos hw] at h ⊢
    exact takeWord_append t h
  · rw [if_neg hw] at h ⊢
    rw [Outcome.bind_eq_ok] at h ⊢
    obtain ⟨word, hword, hs'⟩ := h
    exact ⟨word, drainBytes_append t _ _ hword, hs'⟩

/-- **The hash of a message depends on nothing that lies behind the memory it was read from.** -/
theorem gfsHashfn_append (t : Bytes) {len : ℕ} {hash : UInt64}
    (h : gfsHashfn (.mem mem) len = .ok hash) : gfsHashfn (.mem (mem ++ t)) len = .ok hash := by
  simp only [gfsHashfn, Outcome.bind_eq_ok] at h ⊢
  obtain ⟨u, hu, v, hv, hhash⟩ := h
  exact ⟨u, Outcome.foldlM_ok_mono (fun _ _ _ => fullQuad_append t) hu,
    v, Outcome.foldlM_ok_mono (fun _ _ _ => lastWord_append t) hv, hhash⟩

end Extension

/-! ### `hash_jump_consistent` -/

/-- A rounding of C's `double`: 53 significant bits, and exponents up to the largest finite one. -/
abbrev Binary64 := Rounding 53 970

/-- Rounding to nearest even, the mode the program runs in. -/
def binary64 : Binary64 := Rounding.nearest 53 970 (by decide)

/-- The conversion of a `double` to `int64_t`: it truncates, and gives the least value when the
number is out of range. -/
def doubleToInt64 (x : ℚ) : ℤ :=
  let t := if 0 ≤ x then ⌊x⌋ else ⌈x⌉
  if -2 ^ 63 ≤ t ∧ t < 2 ^ 63 then t else -2 ^ 63

theorem doubleToInt64_of_range {x : ℚ} (h0 : 0 ≤ x) (h : ⌊x⌋ < 2 ^ 63) :
    doubleToInt64 x = ⌊x⌋ := by
  have hf : (0 : ℤ) ≤ ⌊x⌋ := Int.floor_nonneg.2 h0
  rw [doubleToInt64, if_pos h0, if_pos ⟨by omega, h⟩]

/-- The local variables of `hash_jump_consistent`. -/
structure JumpState where
  key : UInt64
  b : ℤ
  j : ℤ

variable (rd : Binary64)

/-- The floating-point product `(b + 1) * ((double)(1LL << 31) / (double)((key >> 33) + 1))`. -/
def jumpProduct (b : ℤ) (key : UInt64) : ℚ :=
  rd.round (rd.round (b + 1) *
    rd.round (rd.round (2 ^ 31) / rd.round (((key >>> 33).toNat : ℚ) + 1)))

/-- One turn of the loop of `hash_jump_consistent`. -/
def jumpTurn (numBuckets : ℤ) (s : JumpState) : Loop.Turn JumpState ℕ :=
  if s.j < numBuckets then
    let b := s.j
    let key := s.key * 2862933555777941757 + 1
    .again { key := key, b := b, j := doubleToInt64 (jumpProduct rd b key) }
  else .done (CInt.toUInt32 (if s.b < 0 then (-s.b - 1) + 1 else s.b))

/-- The state the loop starts in. -/
def jumpStart (key : UInt64) : JumpState := { key := key, b := -1, j := 0 }

/-- `hash_jump_consistent` under the rounding `rd`.  The loop takes at most `num_buckets` turns, as
`Hash.run_jumpTurn` shows. -/
def hashJumpConsistentWith (key : UInt64) (numBuckets : ℤ) : ℕ :=
  (Loop.run (jumpTurn rd numBuckets) (numBuckets.toNat + 1) (jumpStart key)).getD 0

/-- `hash_jump_consistent`. -/
def hashJumpConsistent (key : UInt64) (numBuckets : ℤ) : ℕ :=
  hashJumpConsistentWith binary64 key numBuckets

/-! ### The next bucket number -/

theorem key_shift_lt (key : UInt64) : (key >>> 33).toNat < 2 ^ 31 := by
  have h := key.toNat_lt
  rw [UInt64.toNat_shiftRight]
  simp only [UInt64.reduceToNat, Nat.reduceMod, Nat.shiftRight_eq_div_pow]
  omega

/-- The quotient is at least one, because the key shifted by 33 has 31 bits. -/
theorem jumpQuotient_bounds (key : UInt64) :
    1 ≤ rd.round (rd.round (2 ^ 31) / rd.round (((key >>> 33).toNat : ℚ) + 1)) ∧
      rd.round (rd.round (2 ^ 31) / rd.round (((key >>> 33).toNat : ℚ) + 1)) ≤ 2 ^ 31 := by
  have hk := key_shift_lt key
  have htop : rd.round (2 ^ 31) = 2 ^ 31 := by
    have h := rd.round_natCast (m := 2 ^ 31) (by norm_num)
    push_cast at h
    exact h
  have hden : rd.round (((key >>> 33).toNat : ℚ) + 1) = ((key >>> 33).toNat : ℚ) + 1 := by
    have h := rd.round_natCast (m := (key >>> 33).toNat + 1) (by omega)
    push_cast at h
    exact h
  have hkq : ((key >>> 33).toNat : ℚ) + 1 ≤ 2 ^ 31 := by exact_mod_cast hk
  have hpos : (0 : ℚ) < ((key >>> 33).toNat : ℚ) + 1 := by positivity
  have h1 : (1 : ℚ) ≤ (2 : ℚ) ^ 31 / (((key >>> 33).toNat : ℚ) + 1) := by
    rw [le_div_iff₀ hpos]
    linarith
  have hkey : (0 : ℚ) ≤ (key >>> 33).toNat := Nat.cast_nonneg _
  have h2 : (2 : ℚ) ^ 31 / (((key >>> 33).toNat : ℚ) + 1) ≤ 2 ^ 31 :=
    div_le_self (by positivity) (by linarith)
  rw [htop, hden]
  constructor
  · simpa using rd.le_round (m := 1) (by norm_num) (by simpa using h1)
  · simpa using rd.round_le (m := 1) (e := 31) (by norm_num) (by norm_num) (by positivity)
      (by simpa using h2)

/-- **The next bucket number lies above the current one, and no product overflows.** -/
theorem jumpProduct_bounds {b : ℤ} (h0 : 0 ≤ b) (hb : b < 2 ^ 31) (key : UInt64) :
    (b : ℚ) + 1 ≤ jumpProduct rd b key ∧ jumpProduct rd b key ≤ 2 ^ 62 := by
  obtain ⟨n, rfl⟩ := Int.eq_ofNat_of_zero_le h0
  obtain ⟨hq1, hq2⟩ := jumpQuotient_bounds rd key
  have hn : n + 1 ≤ 2 ^ 31 := by omega
  have hb1 : rd.round (((n : ℤ) : ℚ) + 1) = (n : ℚ) + 1 := by
    have h := rd.round_natCast (m := n + 1) (by omega)
    push_cast at h
    simpa using h
  have hnq : (n : ℚ) + 1 ≤ 2 ^ 31 := by exact_mod_cast hn
  have hn0 : (0 : ℚ) < (n : ℚ) + 1 := by positivity
  rw [jumpProduct, hb1]
  generalize rd.round (rd.round (2 ^ 31) / rd.round (((key >>> 33).toNat : ℚ) + 1)) = q at hq1 hq2
  have h1 : (n : ℚ) + 1 ≤ ((n : ℚ) + 1) * q := le_mul_of_one_le_right (le_of_lt hn0) hq1
  have h2 : ((n : ℚ) + 1) * q ≤ 2 ^ 62 := by
    have h := mul_le_mul hnq hq2 (by linarith) (by norm_num)
    norm_num at h ⊢
    exact h
  constructor
  · simpa using rd.le_round (m := n + 1) (by omega) (by push_cast; exact h1)
  · simpa using rd.round_le (m := 1) (e := 62) (by norm_num) (by norm_num) (by positivity)
      (by simpa using h2)

theorem floor_jumpProduct {b : ℤ} (h0 : 0 ≤ b) (hb : b < 2 ^ 31) (key : UInt64) :
    b < ⌊jumpProduct rd b key⌋ ∧ ⌊jumpProduct rd b key⌋ ≤ 2 ^ 62 := by
  obtain ⟨h1, h2⟩ := jumpProduct_bounds rd h0 hb key
  constructor
  · have h : b + 1 ≤ ⌊jumpProduct rd b key⌋ := Int.le_floor.2 (by push_cast; exact h1)
    omega
  · have h : ((⌊jumpProduct rd b key⌋ : ℤ) : ℚ) ≤ ((2 ^ 62 : ℤ) : ℚ) := by
      push_cast
      exact (Int.floor_le _).trans h2
    exact_mod_cast h

/-! ### The states of the loop -/

/-- What holds of the loop variables before every turn: `b` is the previous value of `j`, and no
value of `j` is out of the range of its type. -/
structure JumpInv (n : ℤ) (s : JumpState) : Prop where
  b_lt : s.b < n
  b_lt_j : s.b < s.j
  start : s.b < 0 → s.b = -1 ∧ s.j = 0
  j_nonneg : 0 ≤ s.j
  j_le : s.j ≤ 2 ^ 62

theorem jumpInv_start {n : ℤ} (hn : 1 ≤ n) (key : UInt64) : JumpInv n (jumpStart key) where
  b_lt := by simp only [jumpStart]; omega
  b_lt_j := by simp [jumpStart]
  start := by simp [jumpStart]
  j_nonneg := by simp [jumpStart]
  j_le := by simp [jumpStart]

/-- What one turn does while `j` is below the number of buckets. -/
theorem jumpTurn_again {n : ℤ} {s s' : JumpState} (hn : n < 2 ^ 31) (hs : JumpInv n s)
    (h : jumpTurn rd n s = .again s') :
    s.j < n ∧ s'.b = s.j ∧ s.j < s'.j ∧ JumpInv n s' := by
  rw [jumpTurn] at h
  split at h
  · rename_i hlt
    cases h
    obtain ⟨h1, h2⟩ := floor_jumpProduct rd hs.j_nonneg (by omega : s.j < 2 ^ 31)
      (s.key * 2862933555777941757 + 1)
    have hfloor := doubleToInt64_of_range
      (x := jumpProduct rd s.j (s.key * 2862933555777941757 + 1))
      (Int.floor_nonneg.1 (by have := hs.j_nonneg; omega)) (by omega)
    have hj := hs.j_nonneg
    refine ⟨hlt, rfl, ?_, ⟨hlt, ?_, ?_, ?_, ?_⟩⟩ <;> dsimp only <;> omega
  · cases h

theorem jumpTurn_done {n : ℤ} {s : JumpState} {v : ℕ} (hn1 : 1 ≤ n) (hn : n < 2 ^ 31)
    (hs : JumpInv n s) (h : jumpTurn rd n s = .done v) : n ≤ s.j ∧ (v : ℤ) = s.b ∧ 0 ≤ s.b := by
  rw [jumpTurn] at h
  split at h
  · cases h
  · rename_i hge
    cases h
    have hb : 0 ≤ s.b := by
      by_contra hneg
      have := hs.start (by omega)
      omega
    have hlt := hs.b_lt
    refine ⟨by omega, ?_, hb⟩
    rw [if_neg (by omega)]
    rw [CInt.toUInt32]
    omega

/-! ### Termination, range and consistency -/

/-- **The loop leaves**, after at most `num_buckets` turns, with the value of the function. -/
theorem run_jumpTurn {n : ℤ} (hn1 : 1 ≤ n) (hn : n < 2 ^ 31) (key : UInt64) :
    Loop.run (jumpTurn rd n) (n.toNat + 1) (jumpStart key) =
      some (hashJumpConsistentWith rd key n) := by
  have hsome : (Loop.run (jumpTurn rd n) (n.toNat + 1) (jumpStart key)).isSome := by
    refine Loop.run_isSome_of_variant (I := JumpInv n) (fun s => (n - s.j).toNat) ?_
      (jumpInv_start hn1 key) ?_
    · intro s s' hs h
      obtain ⟨hlt, -, hj, hs'⟩ := jumpTurn_again rd hn hs h
      exact ⟨hs', by omega⟩
    · simp only [jumpStart]
      omega
  obtain ⟨v, hv⟩ := Option.isSome_iff_exists.1 hsome
  rw [hashJumpConsistentWith, hv]
  rfl

/-- The result is the number of a bucket. -/
theorem hashJumpConsistentWith_lt {n : ℤ} (hn1 : 1 ≤ n) (hn : n < 2 ^ 31) (key : UInt64) :
    (hashJumpConsistentWith rd key n : ℤ) < n := by
  refine Loop.run_inv (I := JumpInv n) (Q := fun v : ℕ => (v : ℤ) < n) ?_ ?_
    (jumpInv_start hn1 key) (run_jumpTurn rd hn1 hn key)
  · intro s s' hs h
    exact (jumpTurn_again rd hn hs h).2.2.2
  · intro s v hs h
    obtain ⟨-, hv, -⟩ := jumpTurn_done rd hn1 hn hs h
    have := hs.b_lt
    omega

/-- The result is at least every value of `j` that is below the number of buckets. -/
theorem le_of_run_jumpTurn {m : ℤ} (hm1 : 1 ≤ m) (hm : m < 2 ^ 31) {s : JumpState}
    (hs : JumpInv m s) (hlt : s.j < m) {fuel v : ℕ}
    (h : Loop.run (jumpTurn rd m) fuel s = some v) : s.j ≤ v := by
  refine Loop.run_inv (I := fun t => JumpInv m t ∧ (s.j ≤ t.b ∨ t.j = s.j))
    (Q := fun v : ℕ => s.j ≤ v) ?_ ?_ ⟨hs, Or.inr rfl⟩ h
  · rintro t t' ⟨ht, hcase⟩ hturn
    obtain ⟨-, hb, -, ht'⟩ := jumpTurn_again rd hm ht hturn
    have := ht.b_lt_j
    exact ⟨ht', Or.inl (by omega)⟩
  · rintro t v ⟨ht, hcase⟩ hturn
    obtain ⟨hj, hv, -⟩ := jumpTurn_done rd hm1 hm ht hturn
    omega

/-- Two runs from one state: while `j` is below both counts they take the same turns, and a result
below the smaller count is reached by both. -/
theorem run_jumpTurn_of_lt {n m : ℤ} (hnm : n ≤ m) (hm : m < 2 ^ 31) {v : ℕ}
    (hv : (v : ℤ) < n) :
    ∀ (fuel : ℕ) (s : JumpState), JumpInv n s → JumpInv m s →
      Loop.run (jumpTurn rd m) fuel s = some v → Loop.run (jumpTurn rd n) fuel s = some v := by
  intro fuel
  induction fuel with
  | zero => intro s _ _ h; simp [Loop.run] at h
  | succ fuel ih =>
      intro s hsn hsm h
      rcases lt_or_ge s.j n with hjn | hjn
      · -- both loops take this turn, to the same state
        obtain ⟨s', hs'⟩ : ∃ s', jumpTurn rd n s = .again s' := by
          rw [jumpTurn]
          rw [if_pos hjn]
          exact ⟨_, rfl⟩
        have hsame : jumpTurn rd m s = jumpTurn rd n s := by
          simp only [jumpTurn]
          rw [if_pos hjn, if_pos (by omega)]
        have hs'm : jumpTurn rd m s = .again s' := hsame.trans hs'
        rw [Loop.run_again hs'm] at h
        rw [Loop.run_again hs']
        exact ih s' (jumpTurn_again rd (by omega) hsn hs').2.2.2
          (jumpTurn_again rd hm hsm hs'm).2.2.2 h
      · rcases lt_or_ge s.j m with hjm | hjm
        · -- the longer run goes on, so its result is not below `n`
          have hge := le_of_run_jumpTurn rd (by omega) hm hsm hjm h
          omega
        · have hdone : jumpTurn rd n s = jumpTurn rd m s := by
            simp only [jumpTurn, if_neg (not_lt.2 hjn), if_neg (not_lt.2 hjm)]
          cases hturn : jumpTurn rd m s with
          | again s' =>
              have := (jumpTurn_again rd hm hsm hturn).1
              omega
          | done w =>
              rw [Loop.run_done hturn] at h
              rw [Loop.run_done (hdone.trans hturn)]
              exact h

/-- **Consistency**: growing the number of buckets moves a key only onto a new bucket. -/
theorem hashJumpConsistentWith_eq {n m : ℤ} (hn1 : 1 ≤ n) (hnm : n ≤ m) (hm : m < 2 ^ 31)
    (key : UInt64) (h : (hashJumpConsistentWith rd key m : ℤ) < n) :
    hashJumpConsistentWith rd key n = hashJumpConsistentWith rd key m := by
  have hrun := run_jumpTurn_of_lt rd hnm hm h (m.toNat + 1) (jumpStart key)
    (jumpInv_start hn1 key) (jumpInv_start (by omega) key) (run_jumpTurn rd (by omega) hm key)
  exact Loop.run_det (run_jumpTurn rd hn1 (by omega) key) hrun

/-- Every value of `j` in a run is that of an exact conversion: the truncated product is in the
range of `int64_t`. -/
theorem jumpProduct_in_range {n : ℤ} (hn1 : 1 ≤ n) (hn : n < 2 ^ 31) (key : UInt64)
    {s : JumpState} (hs : Loop.Reaches (jumpTurn rd n) (jumpStart key) s) (hlt : s.j < n) :
    0 ≤ jumpProduct rd s.j (s.key * 2862933555777941757 + 1) ∧
      ⌊jumpProduct rd s.j (s.key * 2862933555777941757 + 1)⌋ < 2 ^ 63 := by
  have hinv : JumpInv n s :=
    Loop.Reaches.inv (fun _ _ ht h => (jumpTurn_again rd hn ht h).2.2.2) (jumpInv_start hn1 key) hs
  have hj := hinv.j_nonneg
  obtain ⟨h1, h2⟩ := floor_jumpProduct rd hj (by omega : s.j < 2 ^ 31)
    (s.key * 2862933555777941757 + 1)
  exact ⟨Int.floor_nonneg.1 (by omega), by omega⟩

/-- **`hash_jump_consistent` is a consistent hash**: for every rounding of the floating-point
product, the loop leaves, no value of `j` overflows, the result is a bucket, and growing the
number of buckets moves a key only onto a new bucket. -/
theorem hashJumpConsistent_isConsistentHash (key : UInt64) (n : ℤ) (hn1 : 1 ≤ n)
    (hn : n < 2 ^ 31) :
    (∃ fuel, Loop.run (jumpTurn rd n) fuel (jumpStart key) =
        some (hashJumpConsistentWith rd key n)) ∧
      (∀ s, Loop.Reaches (jumpTurn rd n) (jumpStart key) s → s.j < n →
        0 ≤ jumpProduct rd s.j (s.key * 2862933555777941757 + 1) ∧
          ⌊jumpProduct rd s.j (s.key * 2862933555777941757 + 1)⌋ < 2 ^ 63) ∧
      (hashJumpConsistentWith rd key n : ℤ) < n ∧
      ∀ m : ℤ, n ≤ m → m < 2 ^ 31 → (hashJumpConsistentWith rd key m : ℤ) < n →
        hashJumpConsistentWith rd key n = hashJumpConsistentWith rd key m :=
  ⟨⟨_, run_jumpTurn rd hn1 hn key⟩,
    fun _ hs hlt => jumpProduct_in_range rd hn1 hn key hs hlt,
    hashJumpConsistentWith_lt rd hn1 hn key,
    fun _ hnm hm h => hashJumpConsistentWith_eq rd hn1 hnm hm key h⟩

/-- A key under one bucket and under two, with `double` rounded to nearest even. -/
theorem hashJumpConsistent_isConsistentHash_two :
    (hashJumpConsistentWith binary64 7 2 : ℤ) < 2 ∧
      ((hashJumpConsistentWith binary64 7 2 : ℤ) < 1 →
        hashJumpConsistentWith binary64 7 1 = hashJumpConsistentWith binary64 7 2) :=
  ⟨(hashJumpConsistent_isConsistentHash binary64 7 2 (by decide) (by decide)).2.2.1,
    (hashJumpConsistent_isConsistentHash binary64 7 1 (by decide) (by decide)).2.2.2 2
      (by decide) (by decide)⟩

/-- With no bucket to choose from the loop does not turn, and the initial `b` gives one. -/
theorem hashJumpConsistent_of_nonpos {n : ℤ} (hn : n ≤ 0) (key : UInt64) :
    hashJumpConsistent key n = 1 := by
  have hturn : jumpTurn binary64 n (jumpStart key) = .done 1 := by
    rw [jumpTurn]
    rw [if_neg (by simp only [jumpStart]; omega)]
    rfl
  rw [hashJumpConsistent, hashJumpConsistentWith, Loop.run_done hturn]
  rfl

end Hash
