/-
**Message digests of files.**

`md5_file` reads a file 4096 bytes at a time, digests what it reads, and prints the digest as
hexadecimal digits into a buffer of its caller, two characters at a time and each time with a
terminator behind them: the buffer takes 33 bytes.

Main definitions:

* `Md5Ctx`, `md5Init`, `md5Update`, `md5Final` — the digest, computed from consecutive pieces;
* `md5Transform` — the compression of one block, in four rounds of sixteen steps;
* `md5Hex` — the loop that prints a digest;
* `md5String`, `md5File` — the digest of a string and of a file.

Main results:

* `md5Hex_ok` — **what printing a digest writes**;
* `md5File_ok`, `md5Digits_noNul` — the characters `md5_file` leaves, none of which is a zero.
-/

import SdsStorage.Utils

set_option relaxedAutoImplicit false
set_option autoImplicit false

/-- `MD5_READ_DATA_SIZE`. -/
def md5ReadDataSize : ℕ := 4096

/-- `MD5_SIZE`. -/
def md5Size : ℕ := 16

/-! ### The steps of a round -/

def md5F (x y z : UInt32) : UInt32 := (x &&& y) ||| (~~~x &&& z)

def md5G (x y z : UInt32) : UInt32 := (x &&& z) ||| (y &&& ~~~z)

def md5H (x y z : UInt32) : UInt32 := x ^^^ y ^^^ z

def md5I (x y z : UInt32) : UInt32 := y ^^^ (x ||| ~~~z)

/-- `ROTATE_LEFT`. -/
def rotateLeft (x n : UInt32) : UInt32 := (x <<< n) ||| (x >>> (32 - n))

/-- What the four step macros share: the new value of the register `a`. -/
def md5Step (f : UInt32 → UInt32 → UInt32 → UInt32) (a b c d x s ac : UInt32) : UInt32 :=
  rotateLeft (a + (f b c d + x + ac)) s + b

def FF : UInt32 → UInt32 → UInt32 → UInt32 → UInt32 → UInt32 → UInt32 → UInt32 := md5Step md5F

def GG : UInt32 → UInt32 → UInt32 → UInt32 → UInt32 → UInt32 → UInt32 → UInt32 := md5Step md5G

def HH : UInt32 → UInt32 → UInt32 → UInt32 → UInt32 → UInt32 → UInt32 → UInt32 := md5Step md5H

def II : UInt32 → UInt32 → UInt32 → UInt32 → UInt32 → UInt32 → UInt32 → UInt32 := md5Step md5I

/-! ### Words and bytes -/

/-- `md5_decode`: the word `i` of a block. -/
def md5Decode (input : Bytes) (i : ℕ) : UInt32 :=
  (input.getD (4 * i) 0).toUInt32 ||| ((input.getD (4 * i + 1) 0).toUInt32 <<< 8) |||
    ((input.getD (4 * i + 2) 0).toUInt32 <<< 16) ||| ((input.getD (4 * i + 3) 0).toUInt32 <<< 24)

/-- `md5_encode`: the bytes of some words. -/
def md5Encode (input : List UInt32) : Bytes :=
  input.flatMap fun (w : UInt32) => [(w &&& 0xFF).toUInt8, ((w >>> 8) &&& 0xFF).toUInt8,
    ((w >>> 16) &&& 0xFF).toUInt8, ((w >>> 24) &&& 0xFF).toUInt8]

/-! ### The compression of a block -/

/-- The array `state`. -/
structure Md5State where
  a : UInt32
  b : UInt32
  c : UInt32
  d : UInt32
  deriving DecidableEq, Repr

/-- The first sixteen steps, on the words `x` of the block. -/
def md5Round1 (x : ℕ → UInt32) (st : Md5State) : Md5State :=
  let ⟨a, b, c, d⟩ := st
  let a := FF a b c d (x 0) 7 0xd76aa478
  let d := FF d a b c (x 1) 12 0xe8c7b756
  let c := FF c d a b (x 2) 17 0x242070db
  let b := FF b c d a (x 3) 22 0xc1bdceee
  let a := FF a b c d (x 4) 7 0xf57c0faf
  let d := FF d a b c (x 5) 12 0x4787c62a
  let c := FF c d a b (x 6) 17 0xa8304613
  let b := FF b c d a (x 7) 22 0xfd469501
  let a := FF a b c d (x 8) 7 0x698098d8
  let d := FF d a b c (x 9) 12 0x8b44f7af
  let c := FF c d a b (x 10) 17 0xffff5bb1
  let b := FF b c d a (x 11) 22 0x895cd7be
  let a := FF a b c d (x 12) 7 0x6b901122
  let d := FF d a b c (x 13) 12 0xfd987193
  let c := FF c d a b (x 14) 17 0xa679438e
  let b := FF b c d a (x 15) 22 0x49b40821
  ⟨a, b, c, d⟩

/-- Round 2. -/
def md5Round2 (x : ℕ → UInt32) (st : Md5State) : Md5State :=
  let ⟨a, b, c, d⟩ := st
  let a := GG a b c d (x 1) 5 0xf61e2562
  let d := GG d a b c (x 6) 9 0xc040b340
  let c := GG c d a b (x 11) 14 0x265e5a51
  let b := GG b c d a (x 0) 20 0xe9b6c7aa
  let a := GG a b c d (x 5) 5 0xd62f105d
  let d := GG d a b c (x 10) 9 0x2441453
  let c := GG c d a b (x 15) 14 0xd8a1e681
  let b := GG b c d a (x 4) 20 0xe7d3fbc8
  let a := GG a b c d (x 9) 5 0x21e1cde6
  let d := GG d a b c (x 14) 9 0xc33707d6
  let c := GG c d a b (x 3) 14 0xf4d50d87
  let b := GG b c d a (x 8) 20 0x455a14ed
  let a := GG a b c d (x 13) 5 0xa9e3e905
  let d := GG d a b c (x 2) 9 0xfcefa3f8
  let c := GG c d a b (x 7) 14 0x676f02d9
  let b := GG b c d a (x 12) 20 0x8d2a4c8a
  ⟨a, b, c, d⟩

/-- Round 3. -/
def md5Round3 (x : ℕ → UInt32) (st : Md5State) : Md5State :=
  let ⟨a, b, c, d⟩ := st
  let a := HH a b c d (x 5) 4 0xfffa3942
  let d := HH d a b c (x 8) 11 0x8771f681
  let c := HH c d a b (x 11) 16 0x6d9d6122
  let b := HH b c d a (x 14) 23 0xfde5380c
  let a := HH a b c d (x 1) 4 0xa4beea44
  let d := HH d a b c (x 4) 11 0x4bdecfa9
  let c := HH c d a b (x 7) 16 0xf6bb4b60
  let b := HH b c d a (x 10) 23 0xbebfbc70
  let a := HH a b c d (x 13) 4 0x289b7ec6
  let d := HH d a b c (x 0) 11 0xeaa127fa
  let c := HH c d a b (x 3) 16 0xd4ef3085
  let b := HH b c d a (x 6) 23 0x4881d05
  let a := HH a b c d (x 9) 4 0xd9d4d039
  let d := HH d a b c (x 12) 11 0xe6db99e5
  let c := HH c d a b (x 15) 16 0x1fa27cf8
  let b := HH b c d a (x 2) 23 0xc4ac5665
  ⟨a, b, c, d⟩

/-- Round 4. -/
def md5Round4 (x : ℕ → UInt32) (st : Md5State) : Md5State :=
  let ⟨a, b, c, d⟩ := st
  let a := II a b c d (x 0) 6 0xf4292244
  let d := II d a b c (x 7) 10 0x432aff97
  let c := II c d a b (x 14) 15 0xab9423a7
  let b := II b c d a (x 5) 21 0xfc93a039
  let a := II a b c d (x 12) 6 0x655b59c3
  let d := II d a b c (x 3) 10 0x8f0ccc92
  let c := II c d a b (x 10) 15 0xffeff47d
  let b := II b c d a (x 1) 21 0x85845dd1
  let a := II a b c d (x 8) 6 0x6fa87e4f
  let d := II d a b c (x 15) 10 0xfe2ce6e0
  let c := II c d a b (x 6) 15 0xa3014314
  let b := II b c d a (x 13) 21 0x4e0811a1
  let a := II a b c d (x 4) 6 0xf7537e82
  let d := II d a b c (x 11) 10 0xbd3af235
  let c := II c d a b (x 2) 15 0x2ad7d2bb
  let b := II b c d a (x 9) 21 0xeb86d391
  ⟨a, b, c, d⟩

/-- `md5_transform`. -/
def md5Transform (state : Md5State) (block : Bytes) : Md5State :=
  let x := md5Decode block
  let r := md5Round4 x (md5Round3 x (md5Round2 x (md5Round1 x state)))
  ⟨state.a + r.a, state.b + r.b, state.c + r.c, state.d + r.d⟩

/-! ### The digest of consecutive pieces -/

/-- `md5_ctx`. -/
structure Md5Ctx where
  count0 : UInt32
  count1 : UInt32
  state : Md5State
  buffer : Bytes
  deriving DecidableEq, Repr

/-- `PADDING`. -/
def md5Padding : Bytes := 0x80 :: List.replicate 63 0

/-- `md5_init`; the buffer stays as it is. -/
def md5Init (context : Md5Ctx) : Md5Ctx :=
  { context with count0 := 0, count1 := 0,
                 state := ⟨0x67452301, 0xEFCDAB89, 0x98BADCFE, 0x10325476⟩ }

/-- The `n` bytes of memory from the offset `off` on. -/
def readBytes (mem : Bytes) (off n : ℕ) : Outcome Bytes :=
  if off + n ≤ mem.length then .ok ((mem.drop off).take n) else .error .overread

/-- One turn of the block loop of `md5_update`. -/
def md5BlockTurn (input : Bytes) (inputlen : UInt32) (s : UInt32 × Md5State) :
    Loop.Turn (UInt32 × Md5State) (Outcome (UInt32 × Md5State)) :=
  if s.1 + 64 ≤ inputlen then
    match readBytes input s.1.toNat 64 with
    | .error f => .done (.error f)
    | .ok block => .again (s.1 + 64, md5Transform s.2 block)
  else .done (.ok s)

/-- `md5_update`, on the `inputlen` bytes at the start of the memory `input`. -/
def md5Update (context : Md5Ctx) (input : Bytes) (inputlen : UInt32) : Outcome Md5Ctx := do
  let index := (context.count0 >>> 3) &&& 0x3F
  let partlen := 64 - index
  let count0 := context.count0 + (inputlen <<< 3)
  let carry : UInt32 := if count0 < inputlen <<< 3 then 1 else 0
  let count1 := context.count1 + carry + (inputlen >>> 29)
  if partlen ≤ inputlen then do
    let part ← readBytes input 0 partlen.toNat
    let buffer ← CString.memcpyAt context.buffer index.toNat part
    let s ← (Loop.run (md5BlockTurn input inputlen) (inputlen.toNat / 64 + 1)
      (partlen, md5Transform context.state buffer)).getD (.error .blocked)
    let rest ← readBytes input s.1.toNat (inputlen - s.1).toNat
    let buffer ← CString.memcpyAt buffer 0 rest
    .ok { count0 := count0, count1 := count1, state := s.2, buffer := buffer }
  else do
    let rest ← readBytes input 0 inputlen.toNat
    let buffer ← CString.memcpyAt context.buffer index.toNat rest
    .ok { context with count0 := count0, count1 := count1, buffer := buffer }

/-- `md5_final`: the digest. -/
def md5Final (context : Md5Ctx) : Outcome Bytes := do
  let index := (context.count0 >>> 3) &&& 0x3F
  let padlen := if index < 56 then 56 - index else 120 - index
  let bits := md5Encode [context.count0, context.count1]
  let context ← md5Update context md5Padding padlen
  let context ← md5Update context bits 8
  let st := context.state
  .ok (md5Encode [st.a, st.b, st.c, st.d])

/-! ### Printing a digest -/

/-- A digit of `%x`. -/
def hexDigit (n : ℕ) : UInt8 := if n < 10 then UInt8.ofNat (48 + n) else UInt8.ofNat (87 + n)

/-- What `%02x` prints for a byte. -/
def hexByte (b : UInt8) : Bytes := [hexDigit (b.toNat / 16), hexDigit (b.toNat % 16)]

/-- The printing loop: `snprintf` puts two digits and a terminator at the offset `2 * i`. -/
def md5Hex (md5Str : Bytes) (md5Value : Bytes) : Outcome Bytes :=
  (List.range md5Size).foldlM
    (fun str i => CString.memcpyAt str (i * 2) (hexByte (md5Value.getD i 0) ++ [0])) md5Str

/-- The digits of a digest. -/
def md5Digits (md5Value : Bytes) : Bytes :=
  (List.range md5Size).flatMap fun i => hexByte (md5Value.getD i 0)

theorem hexDigit_ne_zero {n : ℕ} (h : n < 16) : hexDigit n ≠ 0 := by
  have hall : ∀ m : Fin 16, hexDigit m ≠ 0 := by decide
  exact hall ⟨n, h⟩

theorem hexByte_noNul (b : UInt8) : CString.NoNul (hexByte b) := by
  have hb := b.toNat_lt
  rw [hexByte]
  rw [CString.noNul_cons, CString.noNul_cons]
  exact ⟨hexDigit_ne_zero (by omega), hexDigit_ne_zero (by omega), CString.noNul_nil⟩

theorem md5Digits_noNul (md5Value : Bytes) : CString.NoNul (md5Digits md5Value) := by
  intro hmem
  obtain ⟨i, -, hi⟩ := List.mem_flatMap.1 hmem
  exact hexByte_noNul _ hi

/-- **What printing a digest writes**: its digits, from the start of the buffer on. -/
theorem md5Hex_ok {md5Str md5Value out : Bytes} (h : md5Hex md5Str md5Value = .ok out) :
    out.take (2 * md5Size) = md5Digits md5Value := by
  refine Outcome.foldlM_range_ok (n := md5Size) (s := md5Str)
    (I := fun k s => s.take (2 * k) =
      (List.range k).flatMap fun i => hexByte (md5Value.getD i 0)) h rfl ?_
  intro k s t _ hstep hs
  rw [CString.memcpyAt] at hstep
  split at hstep
  · rename_i hfit
    cases hstep
    have hlen : (s.take (k * 2)).length = 2 * k := by
      rw [List.length_take]
      omega
    have htwo : 2 * (k + 1) = (s.take (k * 2)).length + 2 := by omega
    rw [List.range_succ, List.flatMap_append, ← hs, Nat.mul_comm 2 k, htwo, List.append_assoc,
      List.take_length_add_append]
    simp [hexByte]
  · cases hstep

/-- `md5_string`; `md5` is what the local context holds. -/
def md5String (md5 : Md5Ctx) (destStr : Bytes) (destLen : UInt32) (md5Str : Bytes) :
    Outcome Bytes := do
  let md5 ← md5Update (md5Init md5) destStr destLen
  let md5Value ← md5Final md5
  md5Hex md5Str md5Value

/-- One turn of the loop of `md5_file`: the context after the last read, or none when a read
fails. -/
def md5FileTurn (s : Md5Ctx × Source) :
    Loop.Turn (Md5Ctx × Source) (Outcome (Option Md5Ctx)) :=
  match s.2.read false md5ReadDataSize with
  | .error f => .done (.error f)
  | .ok (ret, data, src) =>
      if ret = -1 then .done (.ok none)
      else
        match md5Update s.1 data (UInt32.ofNat (CInt.toUInt32 ret)) with
        | .error f => .done (.error f)
        | .ok md5 =>
            if ret = 0 ∨ ret < md5ReadDataSize then .done (.ok (some md5)) else .again (md5, src)

/-- `md5_file` on an open file, or none when it does not open: the status, and the buffer of the
caller. -/
def md5File (md5 : Md5Ctx) (fd : Option Source) (md5Str : Bytes) : Outcome (ℤ × Bytes) :=
  match fd with
  | none => .ok (-1, md5Str)
  | some src => do
      let last ← (Loop.run md5FileTurn (src.weight + 1) (md5Init md5, src)).getD (.error .blocked)
      match last with
      | none => .ok (-1, md5Str)
      | some md5 => do
          let md5Value ← md5Final md5
          let md5Str ← md5Hex md5Str md5Value
          .ok (0, md5Str)

/-- **The loop of `md5_file` comes to an end**, or waits. -/
theorem md5File_isSome (md5 : Md5Ctx) (src : Source) :
    (Loop.run md5FileTurn (src.weight + 1) (md5, src)).isSome := by
  refine Loop.run_isSome_of_variant (I := fun _ => True) (fun s => s.2.weight) ?_ trivial
    (Nat.lt_succ_self _)
  rintro ⟨ctx, fd⟩ s' _ h
  refine ⟨trivial, ?_⟩
  rw [md5FileTurn] at h
  split at h
  · cases h
  · rename_i ret data fd' hread
    split at h
    · cases h
    · split at h
      · cases h
      · split at h
        · cases h
        · rename_i hmore
          cases h
          rw [not_or] at hmore
          rw [md5ReadDataSize] at hmore
          exact Source.weight_read hread (by omega)

/-- The characters `md5_file` leaves are the digits of a digest. -/
theorem md5File_ok {md5 : Md5Ctx} {fd : Option Source} {md5Str out : Bytes}
    (h : md5File md5 fd md5Str = .ok (0, out)) :
    ∃ md5Value, out.take (2 * md5Size) = md5Digits md5Value := by
  simp only [md5File] at h
  split at h
  · cases h
  · rw [Outcome.bind_eq_ok] at h
    obtain ⟨last, -, h⟩ := h
    cases last with
    | none => cases h
    | some ctx =>
        simp only [Outcome.bind_eq_ok] at h
        obtain ⟨md5Value, -, str, hhex, h⟩ := h
        cases h
        exact ⟨md5Value, md5Hex_ok hhex⟩

/-- The digest of no bytes. -/
example : md5String ⟨0, 0, ⟨0, 0, 0, 0⟩, List.replicate 64 0⟩ [] 0 (List.replicate 33 0) =
    .ok ("d41d8cd98f00b204e9800998ecf8427e".toList.map (fun c => UInt8.ofNat c.toNat) ++ [0]) := by
  decide +kernel
