/-
**The digest is MD5.**

The 64 steps of `md5_transform`, written out one by one with their constants, are those of the
published algorithm, and what `md5_final` appends to what was consumed is its padding.  So the
functions compute the digest of the pieces they are given, put together, however the message was
cut.

Main definitions:

* `Md5State.registers` — the state, as registers of the published algorithm;
* `md5DigestBy`, `md5Digest` — the digest of consecutive pieces, over a transformation and as it is.

Main results:

* `md5Transform_eq` — **the compression of a block is the published one**;
* `Md5Streamed.final` — the last blocks are those of the padding;
* `md5Hex_eq` — what is printed for a digest;
* `md5Digest_eq_standard` — **the digest of a message, cut in any way, is its MD5 digest**.
-/

import SdsStorage.Md5Standard
import SdsStorage.Md5Update

set_option relaxedAutoImplicit false
set_option autoImplicit false

/-! ### The compression of a block -/

/-- The state, as registers of the published algorithm. -/
def Md5State.registers (st : Md5State) : Md5Standard.Registers := ⟨st.a, st.b, st.c, st.d⟩

/-- The two shifts are a rotation, whatever the number of bits. -/
theorem rotateLeft_eq_rotate (x n : UInt32) : rotateLeft x n = Md5Standard.rotate x n.toNat := by
  have hn : (n.toBitVec % 32).toNat = n.toNat % 32 := rfl
  have hback : ((32 - n).toBitVec % 32).toNat = (32 - n.toNat % 32) % 32 := by
    have hlt := n.toNat_lt
    have hsub : ((32 - n).toBitVec % 32).toNat = (2 ^ 32 - n.toNat + 32) % 2 ^ 32 % 32 := rfl
    rw [hsub]
    omega
  refine UInt32.toBitVec_inj.1 ?_
  change x.toBitVec <<< (n.toBitVec % 32) ||| x.toBitVec >>> ((32 - n).toBitVec % 32) =
    x.toBitVec.rotateLeft n.toNat
  rw [BitVec.rotateLeft_def, BitVec.shiftLeft_eq', BitVec.ushiftRight_eq', hn, hback]
  rcases Nat.eq_zero_or_pos (n.toNat % 32) with hzero | hpos
  · have hgone : x.toBitVec >>> 32 = 0#32 := BitVec.ushiftRight_eq_zero (Nat.le_refl 32)
    rw [hzero, Nat.sub_zero, hgone, Nat.mod_self]
    simp
  · rw [Nat.mod_eq_of_lt (by omega : 32 - n.toNat % 32 < 32)]

theorem md5Step_eq (f : UInt32 → UInt32 → UInt32 → UInt32) (a b c d x s ac : UInt32) :
    md5Step f a b c d x s ac = b + Md5Standard.rotate (a + f b c d + x + ac) s.toNat := by
  rw [md5Step, rotateLeft_eq_rotate, UInt32.add_comm, ← UInt32.add_assoc, ← UInt32.add_assoc]

section Rounds

open Md5Standard

variable (x : ℕ → UInt32) (st : Md5State)

theorem auxiliary_zero : auxiliary 0 = md5F := rfl

theorem auxiliary_one : auxiliary 1 = md5G := rfl

theorem auxiliary_two : auxiliary 2 = md5H := rfl

theorem auxiliary_three : auxiliary 3 = md5I := rfl

theorem md5Round1_eq :
    (md5Round1 x st).registers = (List.range' 0 16).foldl (step x) st.registers := by
  have hrange : List.range' 0 16 = [0, 1, 2, 3, 4, 5, 6, 7, 8, 9, 10, 11, 12, 13, 14, 15] := rfl
  rw [hrange]
  simp only [md5Round1, Md5State.registers, List.foldl_cons, List.foldl_nil, step, FF, md5Step_eq,
    wordIndex, shiftCount, Nat.reduceDiv, Nat.reduceMod, auxiliary_zero, UInt32.reduceToNat, table,
    List.getD_cons_zero, List.getD_cons_succ]

theorem md5Round2_eq :
    (md5Round2 x st).registers = (List.range' 16 16).foldl (step x) st.registers := by
  have hrange : List.range' 16 16 =
      [16, 17, 18, 19, 20, 21, 22, 23, 24, 25, 26, 27, 28, 29, 30, 31] := rfl
  rw [hrange]
  simp only [md5Round2, Md5State.registers, List.foldl_cons, List.foldl_nil, step, GG, md5Step_eq,
    wordIndex, shiftCount, Nat.reduceDiv, Nat.reduceMod, Nat.reduceMul, Nat.reduceAdd,
    auxiliary_one, UInt32.reduceToNat, table, List.getD_cons_zero, List.getD_cons_succ]

theorem md5Round3_eq :
    (md5Round3 x st).registers = (List.range' 32 16).foldl (step x) st.registers := by
  have hrange : List.range' 32 16 =
      [32, 33, 34, 35, 36, 37, 38, 39, 40, 41, 42, 43, 44, 45, 46, 47] := rfl
  rw [hrange]
  simp only [md5Round3, Md5State.registers, List.foldl_cons, List.foldl_nil, step, HH, md5Step_eq,
    wordIndex, shiftCount, Nat.reduceDiv, Nat.reduceMod, Nat.reduceMul, Nat.reduceAdd,
    auxiliary_two, UInt32.reduceToNat, table, List.getD_cons_zero, List.getD_cons_succ]

theorem md5Round4_eq :
    (md5Round4 x st).registers = (List.range' 48 16).foldl (step x) st.registers := by
  have hrange : List.range' 48 16 =
      [48, 49, 50, 51, 52, 53, 54, 55, 56, 57, 58, 59, 60, 61, 62, 63] := rfl
  rw [hrange]
  simp only [md5Round4, Md5State.registers, List.foldl_cons, List.foldl_nil, step, II, md5Step_eq,
    wordIndex, shiftCount, Nat.reduceDiv, Nat.reduceMod, Nat.reduceMul, auxiliary_three,
    UInt32.reduceToNat, table, List.getD_cons_zero, List.getD_cons_succ]

/-- The four rounds are the 64 steps. -/
theorem md5Rounds_eq :
    (md5Round4 x (md5Round3 x (md5Round2 x (md5Round1 x st)))).registers =
      (List.range 64).foldl (step x) st.registers := by
  have hrange : List.range 64 =
      List.range' 0 16 ++ List.range' 16 16 ++ List.range' 32 16 ++ List.range' 48 16 := rfl
  rw [md5Round4_eq, md5Round3_eq, md5Round2_eq, md5Round1_eq, hrange, List.foldl_append,
    List.foldl_append, List.foldl_append]

end Rounds

/-- The words of a block. -/
theorem md5Decode_eq {block : Bytes} (h : block.length = 64) :
    md5Decode block = fun j => (Blocks.leWords block).getD j 0 := by
  funext j
  rcases Nat.lt_or_ge j 16 with hj | hj
  · have hget : ∀ k, k < 64 → ∀ hk : k < block.length, block.getD k 0 = block[k] :=
      fun k _ hk => List.getD_eq_getElem _ _ hk
    rw [Blocks.leWords_getD (by omega), Blocks.take_drop_four (by omega), ← Blocks.leWord_or,
      md5Decode, hget _ (by omega) (by omega), hget _ (by omega) (by omega),
      hget _ (by omega) (by omega), hget _ (by omega) (by omega)]
  · have hget : ∀ k, 64 ≤ k → block.getD k 0 = 0 :=
      fun k hk => List.getD_eq_default _ _ (by omega)
    rw [Blocks.leWords_getD_of_le (by omega), md5Decode, hget _ (by omega), hget _ (by omega),
      hget _ (by omega), hget _ (by omega)]
    decide

/-- **The compression of a block is the published one.** -/
theorem md5Transform_eq (st : Md5State) {block : Bytes} (h : block.length = 64) :
    (md5Transform st block).registers = Md5Standard.compress st.registers block := by
  have hrounds := md5Rounds_eq (md5Decode block) st
  rw [Md5Standard.compress, ← md5Decode_eq h, ← hrounds]
  rfl

/-- So is that of some blocks. -/
theorem foldl_md5Transform (st : Md5State) {blocks : List Bytes}
    (h : ∀ block ∈ blocks, block.length = 64) :
    (blocks.foldl md5Transform st).registers = blocks.foldl Md5Standard.compress st.registers := by
  induction blocks generalizing st with
  | nil => rfl
  | cons block blocks ih =>
      rw [List.foldl_cons, List.foldl_cons, ih _ fun b hb => h b (List.mem_cons_of_mem block hb),
        md5Transform_eq st (h block List.mem_cons_self)]

/-! ### The padding -/

/-- The bytes of a word. -/
theorem md5Encode_cons (w : UInt32) (ws : List UInt32) :
    md5Encode (w :: ws) = Md5Standard.leBytes 4 w.toNat ++ md5Encode ws := by
  have hbyte : ∀ v : UInt32, (v &&& 0xFF).toUInt8 = UInt8.ofNat v.toNat := by
    intro v
    have hmask : (0xFF : UInt32).toNat = 2 ^ 8 - 1 := rfl
    rw [← UInt8.toNat_inj, UInt32.toNat_toUInt8, UInt32.toNat_and, hmask,
      Nat.and_two_pow_sub_one_eq_mod, Nat.mod_mod, UInt8.toNat_ofNat']
  have h8 : (w >>> 8).toNat = w.toNat / 256 ^ 1 := by
    rw [UInt32.toNat_shiftRight, Nat.shiftRight_eq_div_pow]
    rfl
  have h16 : (w >>> 16).toNat = w.toNat / 256 ^ 2 := by
    rw [UInt32.toNat_shiftRight, Nat.shiftRight_eq_div_pow]
    rfl
  have h24 : (w >>> 24).toNat = w.toNat / 256 ^ 3 := by
    rw [UInt32.toNat_shiftRight, Nat.shiftRight_eq_div_pow]
    rfl
  have hrange : List.range 4 = [0, 1, 2, 3] := rfl
  rw [md5Encode, List.flatMap_cons, hbyte, hbyte, hbyte, hbyte, h8, h16, h24, Md5Standard.leBytes,
    hrange]
  simp only [List.map_cons, List.map_nil, Nat.pow_zero, Nat.div_one]
  rfl

theorem md5Encode_state (st : Md5State) :
    md5Encode [st.a, st.b, st.c, st.d] = Md5Standard.output st.registers := by
  rw [md5Encode_cons, md5Encode_cons, md5Encode_cons, md5Encode_cons]
  rfl

/-- The two words of the counter are the number of bits. -/
theorem md5Encode_count {count0 count1 : UInt32} {n : ℕ}
    (h : count0.toNat + 2 ^ 32 * count1.toNat = n % 2 ^ 64) :
    md5Encode [count0, count1] = Md5Standard.leBytes 8 n := by
  have h0 := count0.toNat_lt
  have hrange : List.range 8 = List.range 4 ++ (List.range 4).map (4 + ·) := rfl
  rw [md5Encode_cons, md5Encode_cons, Md5Standard.leBytes, Md5Standard.leBytes,
    Md5Standard.leBytes, hrange, List.map_append, List.map_map]
  have hnil : md5Encode [] = [] := rfl
  rw [hnil, List.append_nil]
  congr 1
  · refine List.map_congr_left ?_
    intro i hi
    rw [List.mem_range] at hi
    rw [← UInt8.toNat_inj, UInt8.toNat_ofNat', UInt8.toNat_ofNat']
    interval_cases i <;> omega
  · refine List.map_congr_left ?_
    intro i hi
    rw [List.mem_range] at hi
    rw [Function.comp_apply, ← UInt8.toNat_inj, UInt8.toNat_ofNat', UInt8.toNat_ofNat']
    interval_cases i <;> omega

section Final

variable {σ : Type} {transform : σ → Bytes → σ} {start : σ} {m : Bytes} {c : Md5Stream σ}

theorem md5Padding_take {n : ℕ} (h : n < 64) :
    md5Padding.take (n + 1) = 0x80 :: List.replicate n 0 := by
  rw [md5Padding, List.take_succ_cons, List.take_replicate, Nat.min_eq_left (by omega)]

/-- **The last blocks are those of the padding.** -/
theorem Md5Streamed.final (hc : Md5Streamed transform start m c) :
    md5FinalBy transform c = .ok ((Md5Standard.blocks m).foldl transform start) := by
  have hindex : c.count0.toNat / 8 % 64 = m.length % 64 := by
    have hcount := hc.count
    omega
  have hpadlen : (md5Padlen c.count0).toNat = (119 - m.length % 64) % 64 + 1 := by
    rw [toNat_md5Padlen, hindex]
    split <;> omega
  have hpadding : md5Padding.length = 64 := rfl
  have hbits : (md5Encode [c.count0, c.count1]).length = 8 := rfl
  have height : (8 : UInt32).toNat = 8 := rfl
  obtain ⟨c', hfirst, hc'⟩ : ∃ c', md5UpdateBy transform c md5Padding (md5Padlen c.count0) =
      .ok c' ∧ Md5Streamed transform start (m ++ md5Padding.take (md5Padlen c.count0).toNat) c' :=
    hc.update (by omega) (Md5Fits.of_le _ (Nat.mod_lt _ (by decide)) (by omega))
  obtain ⟨c'', hsecond, hc''⟩ : ∃ c'', md5UpdateBy transform c'
      (md5Encode [c.count0, c.count1]) 8 = .ok c'' ∧ Md5Streamed transform start
        (m ++ md5Padding.take (md5Padlen c.count0).toNat ++
          (md5Encode [c.count0, c.count1]).take (8 : UInt32).toNat) c'' :=
    hc'.update (by omega) (Md5Fits.of_le _ (Nat.mod_lt _ (by decide)) (by omega))
  unfold md5FinalBy
  dsimp only
  rw [hfirst, Outcome.ok_bind, hsecond, Outcome.ok_bind, hc''.state]
  have hmessage : m ++ md5Padding.take (md5Padlen c.count0).toNat ++
      (md5Encode [c.count0, c.count1]).take (8 : UInt32).toNat =
        m ++ Md5Standard.padding m.length := by
    rw [hpadlen, md5Padding_take (Nat.mod_lt _ (by decide)), height,
      List.take_of_length_le hbits.le, md5Encode_count hc.count, Md5Standard.padding,
      List.append_assoc]
  rw [hmessage, Md5Standard.blocks]

end Final

/-! ### The pieces of a message -/

section Pieces

variable {σ : Type}

/-- `md5_init`, with a state to start from. -/
def md5InitBy (start : σ) (buffer : Bytes) : Md5Stream σ :=
  { count0 := 0, count1 := 0, state := start, buffer := buffer }

/-- `md5_update` on each of some pieces, and `md5_final`. -/
def md5DigestBy (transform : σ → Bytes → σ) (context : Md5Stream σ) (chunks : List Bytes) :
    Outcome σ := do
  let context ← chunks.foldlM
    (fun context chunk => md5UpdateBy transform context chunk (UInt32.ofNat chunk.length)) context
  md5FinalBy transform context

/-- `md5_init`, `md5_update` on each of some pieces, and `md5_final`. -/
def md5Digest (context : Md5Ctx) (chunks : List Bytes) : Outcome Bytes := do
  let context ← chunks.foldlM
    (fun context chunk => md5Update context chunk (UInt32.ofNat chunk.length)) (md5Init context)
  md5Final context

theorem md5InitBy_streamed (transform : σ → Bytes → σ) (start : σ) {buffer : Bytes}
    (h : buffer.length = 64) : Md5Streamed transform start [] (md5InitBy start buffer) :=
  { count := rfl, state := rfl, length_buffer := h, buffer := rfl }

/-- The pieces are consumed one by one. -/
theorem Md5Streamed.pieces {transform : σ → Bytes → σ} {start : σ} {m : Bytes} {c : Md5Stream σ}
    (hc : Md5Streamed transform start m c) {chunks : List Bytes}
    (hchunks : ∀ chunk ∈ chunks, chunk.length ≤ 2 ^ 32 - 128) :
    ∃ c', chunks.foldlM (fun context chunk =>
        md5UpdateBy transform context chunk (UInt32.ofNat chunk.length)) c = .ok c' ∧
      Md5Streamed transform start (m ++ chunks.flatten) c' := by
  induction chunks generalizing m c with
  | nil => exact ⟨c, rfl, by rwa [List.flatten_nil, List.append_nil]⟩
  | cons chunk chunks ih =>
      have hsize := hchunks chunk List.mem_cons_self
      have hcount : (UInt32.ofNat chunk.length).toNat = chunk.length :=
        UInt32.toNat_ofNat_of_lt' (by change chunk.length < 2 ^ 32; omega)
      obtain ⟨c', hupdate, hc'⟩ : ∃ c', md5UpdateBy transform c chunk (UInt32.ofNat chunk.length) =
          .ok c' ∧ Md5Streamed transform start
            (m ++ chunk.take (UInt32.ofNat chunk.length).toNat) c' :=
        hc.update hcount.le (Md5Fits.of_le _ (Nat.mod_lt _ (by decide)) (by omega))
      rw [hcount, List.take_length] at hc'
      obtain ⟨c'', hrest, hc''⟩ := ih hc' fun b hb => hchunks b (List.mem_cons_of_mem chunk hb)
      refine ⟨c'', ?_, ?_⟩
      · rw [List.foldlM_cons, hupdate, Outcome.ok_bind, hrest]
      · rw [List.flatten_cons, ← List.append_assoc]
        exact hc''

theorem md5DigestBy_eq (transform : σ → Bytes → σ) (start : σ) {buffer : Bytes}
    (hbuf : buffer.length = 64) {chunks : List Bytes}
    (hchunks : ∀ chunk ∈ chunks, chunk.length ≤ 2 ^ 32 - 128) :
    md5DigestBy transform (md5InitBy start buffer) chunks =
      .ok ((Md5Standard.blocks chunks.flatten).foldl transform start) := by
  obtain ⟨c, hrun, hc⟩ := (md5InitBy_streamed transform start hbuf).pieces hchunks
  rw [md5DigestBy, hrun, Outcome.ok_bind, hc.final, List.nil_append]

/-- Over `md5_transform` the digest is that of the source. -/
theorem md5DigestBy_md5Transform (c : Md5Ctx) (chunks : List Bytes) :
    md5Digest c chunks = md5DigestBy md5Transform (md5Init c).stream chunks >>= fun st =>
      .ok (Md5Standard.output st.registers) := by
  have hpieces : ∀ c' : Md5Ctx, (chunks.foldlM (fun context chunk =>
      md5UpdateBy md5Transform context chunk (UInt32.ofNat chunk.length)) c'.stream) =
        chunks.foldlM (fun context chunk =>
          md5Update context chunk (UInt32.ofNat chunk.length)) c' >>=
            fun c'' => .ok c''.stream := by
    induction chunks with
    | nil => exact fun c' => rfl
    | cons chunk chunks ih =>
        intro c'
        rw [List.foldlM_cons, List.foldlM_cons, md5UpdateBy_md5Transform, bind_assoc, bind_assoc]
        congr 1
        funext c''
        rw [Outcome.ok_bind, ih c'']
  rw [md5Digest, md5DigestBy, hpieces]
  simp only [bind_assoc, Outcome.ok_bind, md5FinalBy_md5Transform, md5Encode_state]

theorem length_of_mem_blocks {m block : Bytes} (h : block ∈ Md5Standard.blocks m) :
    block.length = 64 := Blocks.length_of_mem_complete (by decide) h

/-- The digest of some pieces is that of the message they make up. -/
theorem md5Digest_ok {c : Md5Ctx} (hbuf : c.buffer.length = 64) {chunks : List Bytes}
    (hchunks : ∀ chunk ∈ chunks, chunk.length ≤ 2 ^ 32 - 128) :
    md5Digest c chunks = .ok (Md5Standard.digest chunks.flatten) := by
  have hinit : (md5Init c).stream =
      md5InitBy ⟨0x67452301, 0xEFCDAB89, 0x98BADCFE, 0x10325476⟩ c.buffer := rfl
  rw [md5DigestBy_md5Transform, hinit, md5DigestBy_eq md5Transform _ hbuf hchunks, Outcome.ok_bind,
    foldl_md5Transform _ fun block hblock => length_of_mem_blocks hblock]
  rfl

end Pieces

/-! ### Printing a digest -/

theorem hexDigit_eq_standard {n : ℕ} (h : n < 16) : hexDigit n = Md5Standard.hexDigit n := by
  have hall : ∀ i : Fin 16, hexDigit i = Md5Standard.hexDigit i := by decide
  exact hall ⟨n, h⟩

theorem md5Digits_eq_hex {md5Value : Bytes} (h : md5Value.length = md5Size) :
    md5Digits md5Value = Md5Standard.hex md5Value := by
  have hbytes : (List.range md5Size).map (fun i => md5Value.getD i 0) = md5Value := by
    refine List.ext_getElem (by rw [List.length_map, List.length_range, h]) ?_
    intro i hi hi'
    rw [List.getElem_map, List.getElem_range, List.getD_eq_getElem _ _ hi']
  have hbyte : ∀ b : UInt8, hexByte b =
      [Md5Standard.hexDigit (b.toNat / 16), Md5Standard.hexDigit (b.toNat % 16)] := by
    intro b
    have hb := b.toNat_lt
    rw [hexByte, hexDigit_eq_standard (by omega), hexDigit_eq_standard (by omega)]
  conv_rhs => rw [← hbytes, Md5Standard.hex, List.flatMap_map]
  rw [md5Digits]
  refine List.flatMap_congr ?_
  intro i _
  exact hbyte _

/-- **What is printed for a digest**, into a buffer with room for a terminator. -/
theorem md5Hex_eq {md5Str md5Value : Bytes} (hroom : 2 * md5Size < md5Str.length) :
    md5Hex md5Str md5Value =
      .ok (md5Digits md5Value ++ 0 :: md5Str.drop (2 * md5Size + 1)) := by
  have hdigits : ∀ k, ((List.range k).flatMap fun i => hexByte (md5Value.getD i 0)).length =
      2 * k := by
    intro k
    rw [List.length_flatMap]
    simp [hexByte, Nat.mul_comm]
  -- after `k` turns the first digits stand in the buffer, with a terminator behind them
  obtain ⟨str, hstr, hinv⟩ := Outcome.foldlM_range_isOk (n := md5Size) (s := md5Str)
    (f := fun str i => CString.memcpyAt str (i * 2) (hexByte (md5Value.getD i 0) ++ [0]))
    (I := fun k str => (k = 0 ∧ str = md5Str) ∨ (0 < k ∧
      str = ((List.range k).flatMap fun i => hexByte (md5Value.getD i 0)) ++
        0 :: md5Str.drop (2 * k + 1)))
    (Or.inl ⟨rfl, rfl⟩) (by
      intro k str hk hinv
      have hthree : (hexByte (md5Value.getD k 0) ++ [0]).length = 3 := rfl
      have hsize : str.length = md5Str.length := by
        rcases hinv with ⟨-, rfl⟩ | ⟨-, rfl⟩
        · rfl
        · rw [List.length_append, List.length_cons, List.length_drop, hdigits]
          omega
      refine ⟨_, by rw [CString.memcpyAt, if_pos (by omega)], Or.inr ⟨Nat.succ_pos k, ?_⟩⟩
      have hbefore : str.take (k * 2) =
          (List.range k).flatMap fun i => hexByte (md5Value.getD i 0) := by
        rcases hinv with ⟨rfl, -⟩ | ⟨-, rfl⟩
        · rfl
        · rw [List.take_left' (by rw [hdigits]; omega)]
      have hbehind : str.drop (k * 2 + 3) = md5Str.drop (2 * (k + 1) + 1) := by
        rcases hinv with ⟨rfl, rfl⟩ | ⟨-, rfl⟩
        · rfl
        · have hoff : k * 2 + 3 =
              ((List.range k).flatMap fun i => hexByte (md5Value.getD i 0)).length + 3 := by
            rw [hdigits]
            omega
          have hnext : 2 * k + 1 + 2 = 2 * (k + 1) + 1 := by omega
          rw [hoff, List.drop_length_add_append, List.drop_succ_cons, List.drop_drop, hnext]
      rw [hthree, hbefore, hbehind, List.range_succ, List.flatMap_append]
      simp)
  rcases hinv with ⟨hzero, -⟩ | ⟨-, rfl⟩
  · cases hzero
  · exact hstr

/-- The digest of a string, as it is printed. -/
theorem md5String_ok {c : Md5Ctx} (hbuf : c.buffer.length = 64) {m : Bytes}
    (hm : m.length ≤ 2 ^ 32 - 128) {md5Str : Bytes} (hroom : 2 * md5Size < md5Str.length) :
    md5String c m (UInt32.ofNat m.length) md5Str =
      .ok (Md5Standard.hex (Md5Standard.digest m) ++ 0 :: md5Str.drop (2 * md5Size + 1)) := by
  have hdigest : md5Digest c [m] = .ok (Md5Standard.digest [m].flatten) :=
    md5Digest_ok hbuf (by simpa using hm)
  have hlen : (Md5Standard.digest m).length = md5Size := Md5Standard.length_output _
  rw [md5Digest, List.foldlM_cons, bind_assoc] at hdigest
  simp only [List.foldlM_nil, pure_bind, List.flatten_cons, List.flatten_nil, List.append_nil]
    at hdigest
  rw [Outcome.bind_eq_ok] at hdigest
  obtain ⟨c', hc', hfinal⟩ := hdigest
  rw [md5String, hc', Outcome.ok_bind, hfinal, Outcome.ok_bind, md5Hex_eq hroom,
    md5Digits_eq_hex hlen]

/-- **The digest of a message, cut in any way, is its MD5 digest**: `md5_transform` is given the
blocks of the padded message, in order, and does what the published algorithm does with each; and
`md5_string` prints the digest in lowercase hexadecimal digits. -/
theorem md5Digest_eq_standard {c : Md5Ctx} (hbuf : c.buffer.length = 64) {chunks : List Bytes}
    (hchunks : ∀ chunk ∈ chunks, chunk.length ≤ 2 ^ 32 - 128) :
    md5Digest c chunks = .ok (Md5Standard.digest chunks.flatten) ∧
      (∀ (σ : Type) (transform : σ → Bytes → σ) (start : σ),
        md5DigestBy transform (md5InitBy start c.buffer) chunks =
          .ok ((Md5Standard.blocks chunks.flatten).foldl transform start)) ∧
      (∀ (st : Md5State) (block : Bytes), block.length = 64 →
        (md5Transform st block).registers = Md5Standard.compress st.registers block) ∧
      ∀ m md5Str : Bytes, m.length ≤ 2 ^ 32 - 128 → 2 * md5Size < md5Str.length →
        md5String c m (UInt32.ofNat m.length) md5Str =
          .ok (Md5Standard.hex (Md5Standard.digest m) ++ 0 :: md5Str.drop (2 * md5Size + 1)) := by
  refine ⟨md5Digest_ok hbuf hchunks, ?_, ?_, ?_⟩
  · intro σ transform start
    exact md5DigestBy_eq transform start hbuf hchunks
  · intro st block hblock
    exact md5Transform_eq st hblock
  · intro m md5Str hm hroom
    exact md5String_ok hbuf hm hroom

/-- The letters `abc`, in three pieces of which one is empty. -/
theorem md5Digest_eq_standard_abc :
    md5Digest md5Fresh [[0x61], [], [0x62, 0x63]] =
      .ok (Md5Standard.digest [0x61, 0x62, 0x63]) := by
  have hbuf : md5Fresh.buffer.length = 64 := rfl
  have hchunks : ∀ chunk ∈ [[0x61], [], [(0x62 : UInt8), 0x63]], chunk.length ≤ 2 ^ 32 - 128 := by
    simp
  exact (md5Digest_eq_standard hbuf hchunks).1
