/-
**Digesting piece by piece.**

`md5_update` completes the block that is in the buffer, takes every complete block of its input, and
leaves what is behind them in the buffer.  Which blocks are taken does not depend on what is made of
them, so the function is written once more over an arbitrary transformation in the place of
`md5_transform`.

The guard `i + 64 <= inputlen` of the loop over the blocks is computed in 32 bits, and wraps when
the last blocks of the input end within 64 bytes of `2 ^ 32`: then the loop never ends.

Main definitions:

* `md5Index` — the number of bytes in the buffer;
* `Md5Stream`, `md5BlockTurnBy`, `md5UpdateBy`, `md5FinalBy` — the digest, over a transformation;
* `Md5Streamed` — a context holds what was consumed: its blocks, the bytes behind them, its bits;
* `Md5Reached`, `Md5UpdateStays` — the contexts there are, and what is said of an update of one.

Main results:

* `md5UpdateBy_md5Transform` — over `md5_transform` the functions are those of the source;
* `md5BlockTurnBy_run` — the loop takes the blocks of what is left of the input;
* `Md5Streamed.update` — **an update consumes its input**;
* `md5Update_isOk` — away from the top of its range an update stays within its buffers;
* `md5UpdateStays_iff` — **when `md5_update` ends and stays within its input**.
-/

import SdsStorage.Blocks
import SdsStorage.Md5

set_option relaxedAutoImplicit false
set_option autoImplicit false

/-- The number of bytes in the buffer. -/
def md5Index (count0 : UInt32) : UInt32 := (count0 >>> 3) &&& 0x3F

theorem toNat_md5Index (count0 : UInt32) : (md5Index count0).toNat = count0.toNat / 8 % 64 := by
  have hmask : (0x3F : UInt32).toNat = 2 ^ 6 - 1 := rfl
  rw [md5Index, UInt32.toNat_and, hmask, Nat.and_two_pow_sub_one_eq_mod, UInt32.toNat_shiftRight,
    Nat.shiftRight_eq_div_pow]
  rfl

/-- The number of bytes that complete the block in the buffer. -/
theorem toNat_md5Partlen (count0 : UInt32) :
    (64 - md5Index count0).toNat = 64 - count0.toNat / 8 % 64 := by
  have hindex := toNat_md5Index count0
  rw [UInt32.toNat_sub_of_le _ _ ?_, hindex]
  · rfl
  · rw [UInt32.le_iff_toNat_le, hindex]
    change count0.toNat / 8 % 64 ≤ 64
    omega

/-- The number of bytes of padding. -/
def md5Padlen (count0 : UInt32) : UInt32 :=
  if md5Index count0 < 56 then 56 - md5Index count0 else 120 - md5Index count0

theorem toNat_md5Padlen (count0 : UInt32) : (md5Padlen count0).toNat =
    if count0.toNat / 8 % 64 < 56 then 56 - count0.toNat / 8 % 64
    else 120 - count0.toNat / 8 % 64 := by
  have hindex := toNat_md5Index count0
  have hlt : md5Index count0 < 56 ↔ count0.toNat / 8 % 64 < 56 := by
    rw [UInt32.lt_iff_toNat_lt, hindex]
    exact Iff.rfl
  rw [md5Padlen]
  by_cases hsmall : count0.toNat / 8 % 64 < 56
  · rw [if_pos (hlt.2 hsmall), if_pos hsmall, UInt32.toNat_sub_of_le _ _ ?_, hindex]
    · rfl
    · exact UInt32.le_of_lt (hlt.2 hsmall)
  · rw [if_neg (mt hlt.1 hsmall), if_neg hsmall, UInt32.toNat_sub_of_le _ _ ?_, hindex]
    · rfl
    · rw [UInt32.le_iff_toNat_le, hindex]
      change count0.toNat / 8 % 64 ≤ 120
      omega

/-! ### Over a transformation -/

/-- `md5_ctx`, with a state of any type. -/
structure Md5Stream (σ : Type) where
  count0 : UInt32
  count1 : UInt32
  state : σ
  buffer : Bytes

/-- A context. -/
def Md5Ctx.stream (c : Md5Ctx) : Md5Stream Md5State :=
  { count0 := c.count0, count1 := c.count1, state := c.state, buffer := c.buffer }

section By

variable {σ : Type} (transform : σ → Bytes → σ)

/-- One turn of the block loop. -/
def md5BlockTurnBy (input : Bytes) (inputlen : UInt32) (s : UInt32 × σ) :
    Loop.Turn (UInt32 × σ) (Outcome (UInt32 × σ)) :=
  if s.1 + 64 ≤ inputlen then
    match readBytes input s.1.toNat 64 with
    | .error f => .done (.error f)
    | .ok block => .again (s.1 + 64, transform s.2 block)
  else .done (.ok s)

/-- `md5_update`. -/
def md5UpdateBy (context : Md5Stream σ) (input : Bytes) (inputlen : UInt32) :
    Outcome (Md5Stream σ) := do
  let index := md5Index context.count0
  let partlen := 64 - index
  let count0 := context.count0 + (inputlen <<< 3)
  let carry : UInt32 := if count0 < inputlen <<< 3 then 1 else 0
  let count1 := context.count1 + carry + (inputlen >>> 29)
  if partlen ≤ inputlen then do
    let part ← readBytes input 0 partlen.toNat
    let buffer ← CString.memcpyAt context.buffer index.toNat part
    let s ← (Loop.run (md5BlockTurnBy transform input inputlen) (inputlen.toNat / 64 + 1)
      (partlen, transform context.state buffer)).getD (.error .blocked)
    let rest ← readBytes input s.1.toNat (inputlen - s.1).toNat
    let buffer ← CString.memcpyAt buffer 0 rest
    .ok { count0 := count0, count1 := count1, state := s.2, buffer := buffer }
  else do
    let rest ← readBytes input 0 inputlen.toNat
    let buffer ← CString.memcpyAt context.buffer index.toNat rest
    .ok { context with count0 := count0, count1 := count1, buffer := buffer }

/-- `md5_final`: the state the digest is made of. -/
def md5FinalBy (context : Md5Stream σ) : Outcome σ := do
  let padlen := md5Padlen context.count0
  let bits := md5Encode [context.count0, context.count1]
  let context ← md5UpdateBy transform context md5Padding padlen
  let context ← md5UpdateBy transform context bits 8
  .ok context.state

end By

theorem md5BlockTurnBy_md5Transform : md5BlockTurnBy md5Transform = md5BlockTurn := rfl

/-- Over `md5_transform` the function is that of the source. -/
theorem md5UpdateBy_md5Transform (c : Md5Ctx) (input : Bytes) (inputlen : UInt32) :
    md5UpdateBy md5Transform c.stream input inputlen =
      md5Update c input inputlen >>= fun c' => .ok c'.stream := by
  unfold md5UpdateBy md5Update
  rw [md5BlockTurnBy_md5Transform]
  dsimp only
  by_cases hfill : 64 - md5Index c.count0 ≤ inputlen
  · have hstream : 64 - md5Index c.stream.count0 ≤ inputlen := hfill
    have hsource : (64 : UInt32) - (c.count0 >>> 3 &&& 0x3F) ≤ inputlen := hfill
    rw [if_pos hstream, if_pos hsource]
    simp only [bind_assoc]
    rfl
  · have hstream : ¬ 64 - md5Index c.stream.count0 ≤ inputlen := hfill
    have hsource : ¬ (64 : UInt32) - (c.count0 >>> 3 &&& 0x3F) ≤ inputlen := hfill
    rw [if_neg hstream, if_neg hsource]
    simp only [bind_assoc]
    rfl

theorem md5FinalBy_md5Transform (c : Md5Ctx) :
    md5Final c = md5FinalBy md5Transform c.stream >>= fun st =>
      .ok (md5Encode [st.a, st.b, st.c, st.d]) := by
  unfold md5FinalBy md5Final
  simp only [md5UpdateBy_md5Transform, bind_assoc, Outcome.ok_bind]
  rfl

/-! ### The loop over the blocks -/

section Loop

variable {σ : Type} {transform : σ → Bytes → σ} {input : Bytes} {inputlen : UInt32}

/-- What is left of the input behind the offset `i`. -/
def md5Tail (input : Bytes) (inputlen : UInt32) (i : ℕ) : Bytes :=
  (input.take inputlen.toNat).drop i

theorem length_md5Tail (hlen : inputlen.toNat ≤ input.length) (i : ℕ) :
    (md5Tail input inputlen i).length = inputlen.toNat - i := by
  rw [md5Tail, List.length_drop, List.length_take, Nat.min_eq_left hlen]

theorem md5Tail_block {i n : ℕ} (h : i + n ≤ inputlen.toNat) :
    md5Tail input inputlen i = (input.drop i).take n ++ md5Tail input inputlen (i + n) := by
  have htake : (md5Tail input inputlen i).take n = (input.drop i).take n := by
    rw [md5Tail, List.drop_take, List.take_take, Nat.min_eq_left (by omega)]
  have hdrop : (md5Tail input inputlen i).drop n = md5Tail input inputlen (i + n) := by
    rw [md5Tail, md5Tail, List.drop_drop]
  rw [← htake, ← hdrop, List.take_append_drop]

/-- A turn that does not wrap takes a block of the input, or leaves the loop. -/
theorem md5BlockTurnBy_eq (transform : σ → Bytes → σ) (hlen : inputlen.toNat ≤ input.length)
    {s : UInt32 × σ} (hwrap : s.1.toNat + 64 < 2 ^ 32) :
    (s.1 + 64).toNat = s.1.toNat + 64 ∧ md5BlockTurnBy transform input inputlen s =
      if s.1.toNat + 64 ≤ inputlen.toNat then
        .again (s.1 + 64, transform s.2 ((input.drop s.1.toNat).take 64))
      else .done (.ok s) := by
  have hnext : (s.1 + 64).toNat = s.1.toNat + 64 := by
    rw [UInt32.toNat_add]
    exact Nat.mod_eq_of_lt hwrap
  refine ⟨hnext, ?_⟩
  have hguard : s.1 + 64 ≤ inputlen ↔ s.1.toNat + 64 ≤ inputlen.toNat := by
    rw [UInt32.le_iff_toNat_le, hnext]
  rw [md5BlockTurnBy]
  by_cases hmore : s.1.toNat + 64 ≤ inputlen.toNat
  · rw [if_pos (hguard.2 hmore), if_pos hmore, readBytes, if_pos (hmore.trans hlen)]
  · rw [if_neg (mt hguard.1 hmore), if_neg hmore]

/-- A turn that goes on has passed the guard, and moves by 64. -/
theorem md5BlockTurnBy_again {s s' : UInt32 × σ}
    (h : md5BlockTurnBy transform input inputlen s = .again s') :
    s.1 + 64 ≤ inputlen ∧ s'.1 = s.1 + 64 := by
  rw [md5BlockTurnBy] at h
  split at h
  · rename_i hguard
    split at h
    · cases h
    · cases h
      exact ⟨hguard, rfl⟩
  · cases h

/-- Every turn moves by 64, whatever it wraps to. -/
theorem reaches_mod_eq {s t : UInt32 × σ}
    (h : Loop.Reaches (md5BlockTurnBy transform input inputlen) s t) :
    t.1.toNat % 64 = s.1.toNat % 64 := by
  refine Loop.Reaches.inv (I := fun u : UInt32 × σ => u.1.toNat % 64 = s.1.toNat % 64) ?_ rfl h
  intro u u' hu hturn
  have hnext : (u.1 + 64).toNat = (u.1.toNat + 64) % 2 ^ 32 := UInt32.toNat_add _ _
  rw [(md5BlockTurnBy_again hturn).2, hnext]
  omega

/-- A state the loop passes through does not lie behind the end of the input. -/
theorem reaches_le {s t : UInt32 × σ}
    (h : Loop.Reaches (md5BlockTurnBy transform input inputlen) s t)
    (hs : s.1.toNat ≤ inputlen.toNat) : t.1.toNat ≤ inputlen.toNat := by
  refine Loop.Reaches.inv (I := fun u : UInt32 × σ => u.1.toNat ≤ inputlen.toNat) ?_ hs h
  intro u u' _ hturn
  obtain ⟨hguard, hnext⟩ := md5BlockTurnBy_again hturn
  rw [hnext]
  exact UInt32.le_iff_toNat_le.1 hguard

/-- The loop takes the blocks of what is left of the input, in order. -/
theorem md5BlockTurnBy_run (transform : σ → Bytes → σ) (hlen : inputlen.toNat ≤ input.length) :
    ∀ (n : ℕ) (i : UInt32) (st : σ) (fuel : ℕ), i.toNat ≤ inputlen.toNat →
      (inputlen.toNat - i.toNat) / 64 = n → n < fuel →
      inputlen.toNat + 64 < 2 ^ 32 + i.toNat % 64 →
      ∃ i', Loop.run (md5BlockTurnBy transform input inputlen) fuel (i, st) =
          some (.ok (i',
            (Blocks.complete 64 (md5Tail input inputlen i.toNat)).foldl transform st)) ∧
        i'.toNat = i.toNat + 64 * n := by
  intro n
  induction n with
  | zero =>
      intro i st fuel hi hn hfuel hfit
      obtain ⟨fuel, rfl⟩ : ∃ k, fuel = k + 1 := ⟨fuel - 1, by omega⟩
      obtain ⟨-, hturn⟩ := md5BlockTurnBy_eq transform hlen (s := (i, st))
        (by dsimp only; omega)
      rw [if_neg (by dsimp only; omega)] at hturn
      have hshort : (md5Tail input inputlen i.toNat).length < 64 := by
        rw [length_md5Tail hlen]
        omega
      refine ⟨i, ?_, by omega⟩
      rw [Loop.run_done hturn, Blocks.complete_of_lt hshort]
      rfl
  | succ n ih =>
      intro i st fuel hi hn hfuel hfit
      obtain ⟨fuel, rfl⟩ : ∃ k, fuel = k + 1 := ⟨fuel - 1, by omega⟩
      obtain ⟨hnext, hturn⟩ := md5BlockTurnBy_eq transform hlen (s := (i, st))
        (by dsimp only; omega)
      dsimp only at hnext hturn
      rw [if_pos (by omega)] at hturn
      have hblock : ((input.drop i.toNat).take 64).length = 64 := by
        rw [List.length_take, List.length_drop]
        omega
      obtain ⟨i', hrun, hi'⟩ := ih (i + 64) (transform st ((input.drop i.toNat).take 64)) fuel
        (by omega) (by omega) (by omega) (by omega)
      refine ⟨i', ?_, by omega⟩
      rw [Loop.run_again hturn, hrun, md5Tail_block (i := i.toNat) (n := 64) (by omega),
        Blocks.complete_append_block (by decide) hblock, List.foldl_cons, hnext]

end Loop

/-! ### What a context holds -/

/-- The context holds what was consumed: its blocks are taken, the bytes behind them are in the
buffer, and its bits are counted in two words. -/
structure Md5Streamed {σ : Type} (transform : σ → Bytes → σ) (start : σ) (m : Bytes)
    (c : Md5Stream σ) : Prop where
  count : c.count0.toNat + 2 ^ 32 * c.count1.toNat = 8 * m.length % 2 ^ 64
  state : c.state = (Blocks.complete 64 m).foldl transform start
  length_buffer : c.buffer.length = 64
  buffer : c.buffer.take (m.length % 64) = Blocks.rest 64 m

/-- The number of bits is counted across the two words. -/
theorem md5Count_add (count0 count1 n : UInt32) {k : ℕ}
    (h : count0.toNat + 2 ^ 32 * count1.toNat = 8 * k % 2 ^ 64) :
    (count0 + n <<< 3).toNat + 2 ^ 32 *
      (count1 + (if count0 + n <<< 3 < n <<< 3 then (1 : UInt32) else 0) + n >>> 29).toNat =
        8 * (k + n.toNat) % 2 ^ 64 := by
  have hn := n.toNat_lt
  have h0 := count0.toNat_lt
  have h1 := count1.toNat_lt
  have hlow : (n <<< 3).toNat = n.toNat * 8 % 2 ^ 32 := by
    rw [UInt32.toNat_shiftLeft, Nat.shiftLeft_eq]
    rfl
  have hhigh : (n >>> 29).toNat = n.toNat / 2 ^ 29 := by
    rw [UInt32.toNat_shiftRight, Nat.shiftRight_eq_div_pow]
    rfl
  have hsum : (count0 + n <<< 3).toNat = (count0.toNat + n.toNat * 8 % 2 ^ 32) % 2 ^ 32 := by
    rw [UInt32.toNat_add, hlow]
  have hwrap : count0 + n <<< 3 < n <<< 3 ↔
      (count0.toNat + n.toNat * 8 % 2 ^ 32) % 2 ^ 32 < n.toNat * 8 % 2 ^ 32 := by
    rw [UInt32.lt_iff_toNat_lt, hsum, hlow]
  by_cases hcarry : (count0.toNat + n.toNat * 8 % 2 ^ 32) % 2 ^ 32 < n.toNat * 8 % 2 ^ 32
  · have hcount : (count1 + (1 : UInt32) + n >>> 29).toNat =
        ((count1.toNat + 1) % 2 ^ 32 + n.toNat / 2 ^ 29) % 2 ^ 32 := by
      rw [UInt32.toNat_add, UInt32.toNat_add, hhigh]
      rfl
    rw [if_pos (hwrap.2 hcarry), hsum, hcount]
    omega
  · have hcount : (count1 + (0 : UInt32) + n >>> 29).toNat =
        (count1.toNat + n.toNat / 2 ^ 29) % 2 ^ 32 := by
      rw [UInt32.add_zero, UInt32.toNat_add, hhigh]
    rw [if_neg (mt hwrap.1 hcarry), hsum, hcount]
    omega

section Update

variable {σ : Type} {transform : σ → Bytes → σ} {input : Bytes} {inputlen : UInt32}

/-- What the 32-bit guard takes: the bytes in the buffer and the input together leave room for a
block below `2 ^ 32`, where a buffer without bytes counts as full. -/
def Md5Fits (index : ℕ) (inputlen : UInt32) : Prop :=
  inputlen.toNat + (if index = 0 then 64 else index) < 2 ^ 32

theorem Md5Fits.of_le (index : ℕ) (hindex : index < 64) (h : inputlen.toNat ≤ 2 ^ 32 - 128) :
    Md5Fits index inputlen := by
  rw [Md5Fits]
  split <;> omega

theorem Md5Fits.start {count0 : UInt32} (h : Md5Fits (count0.toNat / 8 % 64) inputlen) :
    inputlen.toNat + 64 < 2 ^ 32 + (64 - md5Index count0).toNat % 64 := by
  rw [toNat_md5Partlen]
  rw [Md5Fits] at h
  split at h <;> omega

/-- An update that completes the block in the buffer. -/
theorem md5UpdateBy_of_fill (transform : σ → Bytes → σ) {c : Md5Stream σ}
    (hbuf : c.buffer.length = 64) (hlen : inputlen.toNat ≤ input.length)
    (hfit : Md5Fits (c.count0.toNat / 8 % 64) inputlen)
    (hfill : 64 - md5Index c.count0 ≤ inputlen) {block : Bytes}
    (hblock : block = c.buffer.take (c.count0.toNat / 8 % 64) ++
      input.take (64 - c.count0.toNat / 8 % 64)) :
    ∃ i : UInt32, Loop.run (md5BlockTurnBy transform input inputlen) (inputlen.toNat / 64 + 1)
        (64 - md5Index c.count0, transform c.state block) =
          some (.ok (i, (Blocks.complete 64 (md5Tail input inputlen
            (64 - c.count0.toNat / 8 % 64))).foldl transform (transform c.state block))) ∧
      i.toNat ≤ inputlen.toNat ∧ inputlen.toNat < i.toNat + 64 ∧
      md5Tail input inputlen i.toNat =
        Blocks.rest 64 (md5Tail input inputlen (64 - c.count0.toNat / 8 % 64)) ∧
      md5UpdateBy transform c input inputlen = .ok {
        count0 := c.count0 + inputlen <<< 3
        count1 := c.count1 +
          (if c.count0 + inputlen <<< 3 < inputlen <<< 3 then (1 : UInt32) else 0) + inputlen >>> 29
        state := (Blocks.complete 64 (md5Tail input inputlen
          (64 - c.count0.toNat / 8 % 64))).foldl transform (transform c.state block)
        buffer := md5Tail input inputlen i.toNat ++ block.drop (inputlen.toNat - i.toNat) } := by
  have hpart := toNat_md5Partlen c.count0
  have hindex := toNat_md5Index c.count0
  have hle : (64 - md5Index c.count0).toNat ≤ inputlen.toNat := UInt32.le_iff_toNat_le.1 hfill
  obtain ⟨i, hrun, hi⟩ := md5BlockTurnBy_run transform hlen
    ((inputlen.toNat - (64 - md5Index c.count0).toNat) / 64) (64 - md5Index c.count0)
    (transform c.state block) (inputlen.toNat / 64 + 1) hle rfl (by omega) hfit.start
  rw [hpart] at hrun hi hle
  have htail : md5Tail input inputlen i.toNat =
      Blocks.rest 64 (md5Tail input inputlen (64 - c.count0.toNat / 8 % 64)) := by
    rw [Blocks.rest, length_md5Tail hlen, md5Tail, md5Tail, List.drop_drop, hi]
  have hread : readBytes input 0 (64 - md5Index c.count0).toNat =
      .ok (input.take (64 - c.count0.toNat / 8 % 64)) := by
    rw [hpart, readBytes, if_pos (by omega)]
    rfl
  have hcopy : CString.memcpyAt c.buffer (md5Index c.count0).toNat
      (input.take (64 - c.count0.toNat / 8 % 64)) = .ok block := by
    have htaken : (input.take (64 - c.count0.toNat / 8 % 64)).length =
        64 - c.count0.toNat / 8 % 64 := List.length_take_of_le (by omega)
    rw [CString.memcpyAt, if_pos (by omega), hindex, htaken, List.drop_eq_nil_of_le (by omega),
      List.append_nil, hblock]
  have hleft : (inputlen - i).toNat = inputlen.toNat - i.toNat :=
    UInt32.toNat_sub_of_le _ _ (by rw [UInt32.le_iff_toNat_le]; omega)
  have hlast : readBytes input i.toNat (inputlen - i).toNat =
      .ok (md5Tail input inputlen i.toNat) := by
    rw [hleft, readBytes, if_pos (by omega), md5Tail, List.drop_take]
  have hblocklen : block.length = 64 := by
    rw [hblock, List.length_append, List.length_take, List.length_take]
    omega
  have hcopy' : CString.memcpyAt block 0 (md5Tail input inputlen i.toNat) =
      .ok (md5Tail input inputlen i.toNat ++ block.drop (inputlen.toNat - i.toNat)) := by
    rw [CString.memcpyAt, length_md5Tail hlen, if_pos (by omega), List.take_zero, List.nil_append,
      Nat.zero_add]
  refine ⟨i, hrun, by omega, by omega, htail, ?_⟩
  unfold md5UpdateBy
  dsimp only
  rw [if_pos hfill]
  simp only [hread, hcopy, hrun, hlast, hcopy', Outcome.ok_bind, Option.getD_some]

/-- An update that leaves the block in the buffer incomplete. -/
theorem md5UpdateBy_of_short (transform : σ → Bytes → σ) {c : Md5Stream σ}
    (hbuf : c.buffer.length = 64) (hlen : inputlen.toNat ≤ input.length)
    (hfill : ¬ 64 - md5Index c.count0 ≤ inputlen) :
    md5UpdateBy transform c input inputlen = .ok {
      count0 := c.count0 + inputlen <<< 3
      count1 := c.count1 +
        (if c.count0 + inputlen <<< 3 < inputlen <<< 3 then (1 : UInt32) else 0) + inputlen >>> 29
      state := c.state
      buffer := c.buffer.take (c.count0.toNat / 8 % 64) ++ input.take inputlen.toNat ++
        c.buffer.drop (c.count0.toNat / 8 % 64 + inputlen.toNat) } := by
  have hindex := toNat_md5Index c.count0
  have hlt : inputlen.toNat < 64 - c.count0.toNat / 8 % 64 := by
    rw [← toNat_md5Partlen]
    rw [UInt32.le_iff_toNat_le] at hfill
    omega
  have hread : readBytes input 0 inputlen.toNat = .ok (input.take inputlen.toNat) := by
    rw [readBytes, if_pos (by omega)]
    rfl
  have htaken : (input.take inputlen.toNat).length = inputlen.toNat :=
    List.length_take_of_le hlen
  unfold md5UpdateBy
  dsimp only
  rw [if_neg hfill, hread, Outcome.ok_bind, CString.memcpyAt, hindex, htaken, if_pos (by omega),
    Outcome.ok_bind]

/-- The bits that are counted tell how many bytes are in the buffer. -/
theorem Md5Streamed.index {start : σ} {m : Bytes} {c : Md5Stream σ}
    (hc : Md5Streamed transform start m c) : c.count0.toNat / 8 % 64 = m.length % 64 := by
  have hcount := hc.count
  omega

/-- An input that completes the block in the buffer is cut behind that block. -/
theorem append_take_cut {m : Bytes} (hle : 64 - m.length % 64 ≤ inputlen.toNat) :
    Blocks.rest 64 m ++ input.take inputlen.toNat =
      (Blocks.rest 64 m ++ input.take (64 - m.length % 64)) ++
        md5Tail input inputlen (64 - m.length % 64) := by
  have hwhole : md5Tail input inputlen 0 = (input.drop 0).take (64 - m.length % 64) ++
      md5Tail input inputlen (0 + (64 - m.length % 64)) := md5Tail_block (by omega)
  rw [Nat.zero_add, List.drop_zero, md5Tail, List.drop_zero] at hwhole
  rw [hwhole, List.append_assoc]

/-- An update that completes the block in the buffer consumes its input. -/
theorem Md5Streamed.update_fill {start : σ} {m : Bytes} {c : Md5Stream σ}
    (hc : Md5Streamed transform start m c) (hlen : inputlen.toNat ≤ input.length)
    (hfit : Md5Fits (m.length % 64) inputlen) (hfill : 64 - md5Index c.count0 ≤ inputlen) :
    ∃ c', md5UpdateBy transform c input inputlen = .ok c' ∧
      Md5Streamed transform start (m ++ input.take inputlen.toNat) c' := by
  have hindex := hc.index
  have htaken : (input.take inputlen.toNat).length = inputlen.toNat :=
    List.length_take_of_le hlen
  have hle : 64 - m.length % 64 ≤ inputlen.toNat := by
    rw [UInt32.le_iff_toNat_le, toNat_md5Partlen, hindex] at hfill
    exact hfill
  have hblock : Blocks.rest 64 m ++ input.take (64 - m.length % 64) =
      c.buffer.take (c.count0.toNat / 8 % 64) ++ input.take (64 - c.count0.toNat / 8 % 64) := by
    rw [hindex, hc.buffer]
  obtain ⟨i, -, hi, hend, htail, hupdate⟩ := md5UpdateBy_of_fill transform
    hc.length_buffer hlen (by rwa [hindex]) hfill hblock
  rw [hindex] at htail hupdate
  -- the first block ends with the first bytes of the input, the others lie behind them
  have hlenblock : (Blocks.rest 64 m ++ input.take (64 - m.length % 64)).length = 64 := by
    rw [List.length_append, Blocks.length_rest, List.length_take]
    omega
  have hsplit : Blocks.complete 64 (m ++ input.take inputlen.toNat) = Blocks.complete 64 m ++
      Blocks.complete 64 (Blocks.rest 64 m ++ input.take inputlen.toNat) :=
    Blocks.complete_append (by decide) _ _
  have hsplit' : Blocks.rest 64 (m ++ input.take inputlen.toNat) =
      Blocks.rest 64 (Blocks.rest 64 m ++ input.take inputlen.toNat) :=
    Blocks.rest_append (by decide) _ _
  rw [append_take_cut hle, Blocks.complete_append_block (by decide) hlenblock] at hsplit
  rw [append_take_cut hle, Blocks.rest_append_block (by decide) hlenblock, ← htail] at hsplit'
  refine ⟨_, hupdate, ?_, ?_, ?_, ?_⟩
  · rw [List.length_append, htaken]
    exact md5Count_add c.count0 c.count1 inputlen hc.count
  · dsimp only
    rw [hsplit, List.foldl_append, List.foldl_cons, ← hc.state]
  · dsimp only
    rw [List.length_append, length_md5Tail hlen, List.length_drop, hlenblock]
    omega
  · dsimp only
    rw [hsplit', List.take_left']
    rw [length_md5Tail hlen, List.length_append, htaken]
    have hlenTail := congrArg List.length htail
    rw [length_md5Tail hlen, Blocks.length_rest, length_md5Tail hlen] at hlenTail
    omega

/-- An update that leaves the block in the buffer incomplete consumes its input. -/
theorem Md5Streamed.update_short {start : σ} {m : Bytes} {c : Md5Stream σ}
    (hc : Md5Streamed transform start m c) (hlen : inputlen.toNat ≤ input.length)
    (hfill : ¬ 64 - md5Index c.count0 ≤ inputlen) :
    ∃ c', md5UpdateBy transform c input inputlen = .ok c' ∧
      Md5Streamed transform start (m ++ input.take inputlen.toNat) c' := by
  have htaken : (input.take inputlen.toNat).length = inputlen.toNat :=
    List.length_take_of_le hlen
  have hrest : (Blocks.rest 64 m).length = m.length % 64 := Blocks.length_rest 64 m
  have hlt : m.length % 64 + inputlen.toNat < 64 := by
    rw [UInt32.le_iff_toNat_le, toNat_md5Partlen, hc.index] at hfill
    omega
  have hshort : (Blocks.rest 64 m ++ input.take inputlen.toNat).length < 64 := by
    rw [List.length_append, hrest, htaken]
    exact hlt
  have hupdate := md5UpdateBy_of_short transform hc.length_buffer hlen hfill
  rw [hc.index, hc.buffer] at hupdate
  refine ⟨_, hupdate, ?_, ?_, ?_, ?_⟩
  · rw [List.length_append, htaken]
    exact md5Count_add c.count0 c.count1 inputlen hc.count
  · dsimp only
    rw [Blocks.complete_append (by decide), Blocks.complete_of_lt hshort, List.append_nil, hc.state]
  · have hbuf := hc.length_buffer
    dsimp only
    rw [List.length_append, List.length_drop, List.length_append, hrest, htaken]
    omega
  · dsimp only
    rw [Blocks.rest_append (by decide), Blocks.rest_of_lt hshort, List.take_left']
    rw [List.length_append, List.length_append, hrest, htaken]
    omega

/-- **An update consumes its input.** -/
theorem Md5Streamed.update {start : σ} {m : Bytes} {c : Md5Stream σ}
    (hc : Md5Streamed transform start m c) (hlen : inputlen.toNat ≤ input.length)
    (hfit : Md5Fits (m.length % 64) inputlen) :
    ∃ c', md5UpdateBy transform c input inputlen = .ok c' ∧
      Md5Streamed transform start (m ++ input.take inputlen.toNat) c' := by
  by_cases hfill : 64 - md5Index c.count0 ≤ inputlen
  · exact hc.update_fill hlen hfit hfill
  · exact hc.update_short hlen hfill

end Update

/-! ### Every context and every length -/

/-- An update keeps the size of the buffer. -/
theorem md5Update_length_buffer {c c' : Md5Ctx} {input : Bytes} {inputlen : UInt32}
    (h : md5Update c input inputlen = .ok c') : c'.buffer.length = c.buffer.length := by
  unfold md5Update at h
  dsimp only at h
  split at h
  · simp only [Outcome.bind_eq_ok] at h
    obtain ⟨part, -, buffer, hcopy, s, -, rest, -, buffer', hcopy', hc'⟩ := h
    cases hc'
    exact (CString.length_of_memcpyAt hcopy').trans (CString.length_of_memcpyAt hcopy)
  · simp only [Outcome.bind_eq_ok] at h
    obtain ⟨rest, -, buffer, hcopy, hc'⟩ := h
    cases hc'
    exact CString.length_of_memcpyAt hcopy

/-- The contexts that updates lead to. -/
inductive Md5Reached : Md5Ctx → Prop
  | init (c : Md5Ctx) (hbuf : c.buffer.length = 64) : Md5Reached (md5Init c)
  | update {c c' : Md5Ctx} {input : Bytes} {inputlen : UInt32} (hc : Md5Reached c)
      (hupdate : md5Update c input inputlen = .ok c') : Md5Reached c'

theorem Md5Reached.length_buffer {c : Md5Ctx} (h : Md5Reached c) : c.buffer.length = 64 := by
  induction h with
  | init c hbuf => exact hbuf
  | update _ hupdate ih => exact (md5Update_length_buffer hupdate).trans ih

/-- What `md5_update` does with its input is what is done over `md5_transform`. -/
theorem md5Update_of_stream {c : Md5Ctx} {input : Bytes} {inputlen : UInt32}
    {s : Md5Stream Md5State} (h : md5UpdateBy md5Transform c.stream input inputlen = .ok s) :
    ∃ c', md5Update c input inputlen = .ok c' ∧ c'.stream = s := by
  rw [md5UpdateBy_md5Transform, Outcome.bind_eq_ok] at h
  obtain ⟨c', hc', hs⟩ := h
  exact ⟨c', hc', Except.ok.inj hs⟩

section Stays

variable (c : Md5Ctx) (input : Bytes) (inputlen : UInt32)

/-- The block the first bytes of the input complete. -/
def md5FirstBlock : Bytes :=
  c.buffer.take (md5Index c.count0).toNat ++ input.take (64 - md5Index c.count0).toNat

/-- What the loop over the blocks starts from. -/
def md5Start : UInt32 × Md5State :=
  (64 - md5Index c.count0, md5Transform c.state (md5FirstBlock c input))

/-- An update ends, takes blocks of its input only, and copies what is left into the buffer. -/
structure Md5UpdateStays : Prop where
  /-- Every block the loop takes lies in the input. -/
  blocks : 64 - md5Index c.count0 ≤ inputlen → ∀ s,
    Loop.Reaches (md5BlockTurn input inputlen) (md5Start c input) s → s.1 + 64 ≤ inputlen →
      s.1.toNat + 64 ≤ inputlen.toNat
  /-- The loop ends, and the bytes that are left are copied: fewer than 64. -/
  ends : 64 - md5Index c.count0 ≤ inputlen → ∃ s c',
    Loop.Reaches (md5BlockTurn input inputlen) (md5Start c input) s ∧ ¬ s.1 + 64 ≤ inputlen ∧
      s.1.toNat ≤ inputlen.toNat ∧ inputlen.toNat < s.1.toNat + 64 ∧
      md5Update c input inputlen = .ok c' ∧ c'.state = s.2 ∧
      c'.buffer = md5Tail input inputlen s.1.toNat ++
        (md5FirstBlock c input).drop (inputlen.toNat - s.1.toNat)
  /-- An input that does not complete the block is copied behind what is in the buffer. -/
  short : ¬ 64 - md5Index c.count0 ≤ inputlen → ∃ c', md5Update c input inputlen = .ok c' ∧
    c'.state = c.state ∧
    c'.buffer = c.buffer.take (md5Index c.count0).toNat ++ input.take inputlen.toNat ++
      c.buffer.drop ((md5Index c.count0).toNat + inputlen.toNat)

variable {c input inputlen}

theorem md5UpdateStays_of_fits (hbuf : c.buffer.length = 64) (hlen : inputlen.toNat ≤ input.length)
    (hfit : Md5Fits (md5Index c.count0).toNat inputlen) : Md5UpdateStays c input inputlen := by
  have hindex := toNat_md5Index c.count0
  have hpart := toNat_md5Partlen c.count0
  have hfirst : md5FirstBlock c input = c.stream.buffer.take (c.stream.count0.toNat / 8 % 64) ++
      input.take (64 - c.stream.count0.toNat / 8 % 64) := by
    rw [md5FirstBlock, hindex, hpart]
    rfl
  rw [hindex] at hfit
  refine ⟨?_, ?_, ?_⟩
  · intro hfill s hreach hguard
    -- a state the loop passes through lies below the end of the input, and at its own residue
    have hstart := hfit.start
    have hmod : s.1.toNat % 64 = (64 - md5Index c.count0).toNat % 64 := reaches_mod_eq hreach
    have hle : s.1.toNat ≤ inputlen.toNat := reaches_le hreach (UInt32.le_iff_toNat_le.1 hfill)
    have hnext : (s.1 + 64).toNat = s.1.toNat + 64 := by
      rw [UInt32.toNat_add]
      exact Nat.mod_eq_of_lt (by change s.1.toNat + 64 < 2 ^ 32; omega)
    rw [UInt32.le_iff_toNat_le, hnext] at hguard
    exact hguard
  · intro hfill
    obtain ⟨i, hrun, hi, hend, -, hupdate⟩ := md5UpdateBy_of_fill md5Transform
      (c := c.stream) hbuf hlen hfit hfill hfirst
    obtain ⟨c', hc', hstream⟩ := md5Update_of_stream hupdate
    obtain ⟨s, hreach, hdone⟩ := Loop.reaches_of_run hrun
    have hs := hdone
    rw [md5BlockTurnBy] at hs
    split at hs
    · split at hs
      · cases hs
      · cases hs
    · rename_i hguard
      cases hs
      refine ⟨_, c', hreach, hguard, hi, hend, hc', ?_, ?_⟩
      · exact congrArg Md5Stream.state hstream
      · exact congrArg Md5Stream.buffer hstream
  · intro hfill
    have hupdate := md5UpdateBy_of_short md5Transform (c := c.stream) hbuf hlen hfill
    obtain ⟨c', hc', hstream⟩ := md5Update_of_stream hupdate
    refine ⟨c', hc', congrArg Md5Stream.state hstream, ?_⟩
    rw [hindex]
    exact congrArg Md5Stream.buffer hstream

/-- **`md5_update` stays within its buffers**, away from the top of its range. -/
theorem md5Update_isOk (hlen : inputlen.toNat ≤ input.length)
    (hsmall : inputlen.toNat ≤ 2 ^ 32 - 128) (hbuf : c.buffer.length = 64) :
    ∃ c', md5Update c input inputlen = .ok c' ∧ c'.buffer.length = 64 := by
  have hindex : (md5Index c.count0).toNat < 64 := by
    rw [toNat_md5Index]
    omega
  have hstays := md5UpdateStays_of_fits hbuf hlen (Md5Fits.of_le _ hindex hsmall)
  have hok : ∃ c', md5Update c input inputlen = .ok c' := by
    by_cases hfill : 64 - md5Index c.count0 ≤ inputlen
    · obtain ⟨-, c', -, -, -, -, hc', -⟩ := hstays.ends hfill
      exact ⟨c', hc'⟩
    · obtain ⟨c', hc', -⟩ := hstays.short hfill
      exact ⟨c', hc'⟩
  obtain ⟨c', hc'⟩ := hok
  exact ⟨c', hc', (md5Update_length_buffer hc').trans hbuf⟩

/-- The loop never ends when the guard cannot fail. -/
theorem not_md5UpdateStays_of_not_fits (hfit : ¬ Md5Fits (md5Index c.count0).toNat inputlen) :
    ¬ Md5UpdateStays c input inputlen := by
  intro hstays
  have hindex := toNat_md5Index c.count0
  have hpart := toNat_md5Partlen c.count0
  rw [Md5Fits, hindex] at hfit
  have hlarge : 2 ^ 32 + (64 - md5Index c.count0).toNat % 64 ≤ inputlen.toNat + 64 := by
    rw [hpart]
    split at hfit <;> omega
  have hfill : 64 - md5Index c.count0 ≤ inputlen := by
    rw [UInt32.le_iff_toNat_le, hpart]
    omega
  obtain ⟨s, c', hreach, hguard, -⟩ := hstays.ends hfill
  have hmod : s.1.toNat % 64 = (64 - md5Index c.count0).toNat % 64 := reaches_mod_eq hreach
  have hnext : (s.1 + 64).toNat = (s.1.toNat + 64) % 2 ^ 32 := UInt32.toNat_add _ _
  rw [UInt32.le_iff_toNat_le, hnext] at hguard
  omega

/-- **When `md5_update` ends and stays within its input**: the bytes in the buffer and the input
leave room for a block below `2 ^ 32`. -/
theorem md5UpdateStays_iff (hc : Md5Reached c) (hlen : inputlen.toNat ≤ input.length) :
    Md5UpdateStays c input inputlen ↔ Md5Fits (md5Index c.count0).toNat inputlen := by
  constructor
  · intro h
    by_contra hfit
    exact not_md5UpdateStays_of_not_fits hfit h
  · exact md5UpdateStays_of_fits hc.length_buffer hlen

end Stays

/-- A context as `md5_string` starts from. -/
def md5Fresh : Md5Ctx := ⟨0, 0, ⟨0, 0, 0, 0⟩, List.replicate 64 0⟩

/-- An input of two blocks. -/
theorem md5UpdateStays_iff_two_blocks :
    Md5Reached (md5Init md5Fresh) ∧
      Md5UpdateStays (md5Init md5Fresh) (List.replicate 128 0x61) 128 := by
  have hc : Md5Reached (md5Init md5Fresh) := Md5Reached.init _ rfl
  have hlen : (128 : UInt32).toNat ≤ (List.replicate 128 (0x61 : UInt8)).length := by
    rw [List.length_replicate]
    decide
  refine ⟨hc, (md5UpdateStays_iff hc hlen).2 ?_⟩
  unfold Md5Fits
  decide

/-- An input of 64 bytes less than `2 ^ 32`. -/
theorem not_md5UpdateStays_of_large :
    Md5Reached (md5Init md5Fresh) ∧
      (0xFFFFFFC0 : UInt32).toNat ≤ (List.replicate (2 ^ 32 - 64) (0x61 : UInt8)).length ∧
      ¬ Md5UpdateStays (md5Init md5Fresh) (List.replicate (2 ^ 32 - 64) 0x61) 0xFFFFFFC0 := by
  refine ⟨Md5Reached.init _ rfl, ?_, not_md5UpdateStays_of_not_fits ?_⟩
  · rw [List.length_replicate]
    decide
  · unfold Md5Fits
    decide
