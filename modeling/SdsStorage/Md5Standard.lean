/-
**The MD5 message digest.**

A message is padded to a multiple of 64 bytes: a one bit, zeros, and the number of its bits in 64
bits, least significant byte first.  Each block goes through 64 steps on four registers, in four
rounds of sixteen, and is added to what the blocks before it have left.

Main definitions:

* `Md5Standard.step`, `Md5Standard.compress` — one step, and the compression of a block;
* `Md5Standard.padding`, `Md5Standard.digest` — the padding, and the digest;
* `Md5Standard.hex` — the digest in lowercase hexadecimal digits.

Main results:

* `Md5Standard.hex_inj` — bytes are read back from their digits.
-/

import SdsStorage.Blocks
import Mathlib.Data.Nat.Digits.Defs

set_option relaxedAutoImplicit false
set_option autoImplicit false

namespace Md5Standard

/-! ### The compression of a block -/

/-- The four registers. -/
structure Registers where
  a : UInt32
  b : UInt32
  c : UInt32
  d : UInt32
  deriving DecidableEq, Repr

/-- The function of three words each round has. -/
def auxiliary (round : ℕ) (x y z : UInt32) : UInt32 :=
  match round with
  | 0 => (x &&& y) ||| (~~~x &&& z)
  | 1 => (x &&& z) ||| (y &&& ~~~z)
  | 2 => x ^^^ y ^^^ z
  | _ => y ^^^ (x ||| ~~~z)

/-- The word of the block a step takes. -/
def wordIndex (i : ℕ) : ℕ :=
  match i / 16 with
  | 0 => i
  | 1 => (5 * i + 1) % 16
  | 2 => (3 * i + 5) % 16
  | _ => 7 * i % 16

/-- The number of bits a step rotates by. -/
def shiftCount (i : ℕ) : ℕ :=
  match i / 16, i % 4 with
  | 0, 0 => 7
  | 0, 1 => 12
  | 0, 2 => 17
  | 0, _ => 22
  | 1, 0 => 5
  | 1, 1 => 9
  | 1, 2 => 14
  | 1, _ => 20
  | 2, 0 => 4
  | 2, 1 => 11
  | 2, 2 => 16
  | 2, _ => 23
  | _, 0 => 6
  | _, 1 => 10
  | _, 2 => 15
  | _, _ => 21

/-- The integer parts of `2 ^ 32` times the absolute value of the sine of `1`, `2`, …, `64`. -/
def table : List UInt32 :=
  [0xd76aa478, 0xe8c7b756, 0x242070db, 0xc1bdceee, 0xf57c0faf, 0x4787c62a, 0xa8304613, 0xfd469501,
    0x698098d8, 0x8b44f7af, 0xffff5bb1, 0x895cd7be, 0x6b901122, 0xfd987193, 0xa679438e, 0x49b40821,
    0xf61e2562, 0xc040b340, 0x265e5a51, 0xe9b6c7aa, 0xd62f105d, 0x02441453, 0xd8a1e681, 0xe7d3fbc8,
    0x21e1cde6, 0xc33707d6, 0xf4d50d87, 0x455a14ed, 0xa9e3e905, 0xfcefa3f8, 0x676f02d9, 0x8d2a4c8a,
    0xfffa3942, 0x8771f681, 0x6d9d6122, 0xfde5380c, 0xa4beea44, 0x4bdecfa9, 0xf6bb4b60, 0xbebfbc70,
    0x289b7ec6, 0xeaa127fa, 0xd4ef3085, 0x04881d05, 0xd9d4d039, 0xe6db99e5, 0x1fa27cf8, 0xc4ac5665,
    0xf4292244, 0x432aff97, 0xab9423a7, 0xfc93a039, 0x655b59c3, 0x8f0ccc92, 0xffeff47d, 0x85845dd1,
    0x6fa87e4f, 0xfe2ce6e0, 0xa3014314, 0x4e0811a1, 0xf7537e82, 0xbd3af235, 0x2ad7d2bb, 0xeb86d391]

/-- A rotation to the left. -/
def rotate (x : UInt32) (n : ℕ) : UInt32 := ⟨x.toBitVec.rotateLeft n⟩

/-- One step. -/
def step (words : ℕ → UInt32) (r : Registers) (i : ℕ) : Registers :=
  { a := r.d
    b := r.b + rotate (r.a + auxiliary (i / 16) r.b r.c r.d + words (wordIndex i) + table.getD i 0)
      (shiftCount i)
    c := r.b
    d := r.c }

/-- The compression of a block. -/
def compress (r : Registers) (block : List UInt8) : Registers :=
  let s := (List.range 64).foldl (step fun j => (Blocks.leWords block).getD j 0) r
  { a := r.a + s.a, b := r.b + s.b, c := r.c + s.c, d := r.d + s.d }

/-! ### The digest -/

/-- The last `n` bytes of a number, least significant first. -/
def leBytes (n k : ℕ) : List UInt8 := (List.range n).map fun i => UInt8.ofNat (k / 256 ^ i)

/-- What is appended to a message of `n` bytes. -/
def padding (n : ℕ) : List UInt8 :=
  0x80 :: List.replicate ((119 - n % 64) % 64) 0 ++ leBytes 8 (8 * n)

/-- What the registers start from. -/
def start : Registers := ⟨0x67452301, 0xefcdab89, 0x98badcfe, 0x10325476⟩

/-- The blocks of a padded message. -/
def blocks (m : List UInt8) : List (List UInt8) := Blocks.complete 64 (m ++ padding m.length)

/-- The bytes of the registers. -/
def output (r : Registers) : List UInt8 :=
  [r.a, r.b, r.c, r.d].flatMap fun (w : UInt32) => leBytes 4 w.toNat

/-- The digest of a message. -/
def digest (m : List UInt8) : List UInt8 := output ((blocks m).foldl compress start)

/-- A lowercase hexadecimal digit. -/
def hexDigit (n : ℕ) : UInt8 := UInt8.ofNat (Nat.digitChar n).toNat

/-- Two digits for every byte. -/
def hex (bs : List UInt8) : List UInt8 :=
  bs.flatMap fun b => [hexDigit (b.toNat / 16), hexDigit (b.toNat % 16)]

/-- The digest of no bytes. -/
example : hex (digest []) =
    "d41d8cd98f00b204e9800998ecf8427e".toList.map fun c => UInt8.ofNat c.toNat := by
  decide +kernel

/-- A byte is read back from its digits. -/
theorem hex_inj {bs bs' : List UInt8} (h : hex bs = hex bs') : bs = bs' := by
  have hdigit : ∀ i j : Fin 16, hexDigit i = hexDigit j → i = j := by decide
  induction bs generalizing bs' with
  | nil =>
      cases bs' with
      | nil => rfl
      | cons b' bs' => cases h
  | cons b bs ih =>
      cases bs' with
      | nil => cases h
      | cons b' bs' =>
          have hb := b.toNat_lt
          have hb' := b'.toNat_lt
          have hcons : hexDigit (b.toNat / 16) :: hexDigit (b.toNat % 16) :: hex bs =
              hexDigit (b'.toNat / 16) :: hexDigit (b'.toNat % 16) :: hex bs' := h
          obtain ⟨hhigh, hrest⟩ := List.cons.inj hcons
          obtain ⟨hlow, htail⟩ := List.cons.inj hrest
          have hdiv := hdigit ⟨b.toNat / 16, by omega⟩ ⟨b'.toNat / 16, by omega⟩ hhigh
          have hmod := hdigit ⟨b.toNat % 16, by omega⟩ ⟨b'.toNat % 16, by omega⟩ hlow
          rw [Fin.mk.injEq] at hdiv hmod
          have hhead : b = b' := UInt8.toNat_inj.1 (by omega)
          rw [hhead, ih htail]

@[simp] theorem length_output (r : Registers) : (output r).length = 16 := rfl

end Md5Standard
