/-
**Requests.**

A client sends the type of a request in one byte and then the request as the bytes of a C
structure; the server answers with the bytes of another.  The layouts are those of the x86-64 ABI.

Main definitions:

* `RequestType` — the types of requests;
* `RequestPutObject`, `RequestPutBucketset`, `ResponseAck` — sizes, and offsets of the fields;
* `leNat`, `leBytes` — numbers and their bytes;
* `SetName` — a name that fits into a request.

Main results:

* `leNat_leBytes` — what is written as bytes is read back.
-/

import SdsStorage.CString

set_option relaxedAutoImplicit false
set_option autoImplicit false

/-! ### The types of requests -/

/-- `request_type`. -/
inductive RequestType where
  | putObject
  | delObject
  | putBucketset
  | listBuckset
  deriving DecidableEq, Repr

/-- The byte a type is sent as. -/
def RequestType.toUInt8 : RequestType → UInt8
  | putObject => 0
  | delObject => 1
  | putBucketset => 2
  | listBuckset => 3

theorem RequestType.putObject_ne_putBucketset : putObject.toUInt8 ≠ putBucketset.toUInt8 := by
  decide

/-! ### Layouts -/

/-- `BUCKET_BUFFER_LENGTH`. -/
def bucketBufferLength : ℕ := 255

/-- `BUCKET_OBJECT_UID_SZ`. -/
def bucketObjectUidSz : ℕ := 32

namespace RequestPutObject

def objectName : ℕ := 0

def setName : ℕ := 255

def uid : ℕ := 510

/-- Two bytes of padding come before this field. -/
def dataLength : ℕ := 544

def size : ℕ := 552

theorem size_lt : size < 2 ^ 31 := by decide

end RequestPutObject

namespace RequestPutBucketset

def setName : ℕ := 0

def size : ℕ := 255

end RequestPutBucketset

namespace ResponseAck

def reqType : ℕ := 0

def name : ℕ := 1

def ret : ℕ := 256

def size : ℕ := 260

theorem size_lt : size < 2 ^ 31 := by decide

end ResponseAck

/-- The address of the field at the offset `off` of a structure. -/
def fieldPtr (m : Bytes) (off : ℕ) : CharPtr := .mem (m.drop off)

/-- The number in the `n` bytes at the offset `off`, least significant byte first. -/
def leNat (m : Bytes) (off n : ℕ) : ℕ :=
  ((m.drop off).take n).foldr (fun b acc => b.toNat + 256 * acc) 0

/-- The `n` bytes of a number, least significant byte first. -/
def leBytes : ℕ → ℕ → Bytes
  | 0, _ => []
  | n + 1, x => UInt8.ofNat x :: leBytes n (x / 256)

theorem length_leBytes (n x : ℕ) : (leBytes n x).length = n := by
  induction n generalizing x with
  | zero => rfl
  | succ n ih => rw [leBytes, List.length_cons, ih]

/-- What is written as bytes is read back. -/
theorem leNat_leBytes {n x : ℕ} (h : x < 256 ^ n) : leNat (leBytes n x) 0 n = x := by
  rw [leNat]
  rw [List.drop_zero, List.take_of_length_le (Nat.le_of_eq (length_leBytes n x))]
  induction n generalizing x with
  | zero =>
      rw [Nat.pow_zero, Nat.lt_one_iff] at h
      rw [h]
      rfl
  | succ n ih =>
      have hrest : x / 256 < 256 ^ n := by
        rw [Nat.div_lt_iff_lt_mul (by omega)]
        rwa [Nat.pow_succ] at h
      rw [leBytes, List.foldr_cons, ih hrest, UInt8.toNat_ofNat']
      omega

/-! ### Names -/

/-- A name that fits into a request with its terminator. -/
structure SetName where
  name : Bytes
  noNul : CString.NoNul name
  short : name.length < bucketBufferLength

/-- The name `s`. -/
def setS : SetName where
  name := [115]
  noNul := by decide
  short := by decide
