/-
**Conversions between C's integer types.**

The integer types of the source are read as subsets of `ℤ`; a conversion reduces a value into the
range of the target type, modulo the number of its values.  Signed overflow is taken to wrap, as
it does in the unoptimised build the makefiles ask for.

Main definitions:

* `CInt.toInt32`, `CInt.toInt64` — conversion to `int` and to `int64_t` or `ssize_t`;
* `CInt.toUInt32`, `CInt.toUInt64` — conversion to `uint32_t`, and to `uint64_t` or `size_t`.

Main results: each conversion leaves the values of its own type alone, and `CInt.toUInt64_neg`
says what a negative number becomes.
-/

import Mathlib.Algebra.Order.Ring.Int

set_option relaxedAutoImplicit false
set_option autoImplicit false

namespace CInt

/-- Conversion to `uint32_t`. -/
def toUInt32 (x : ℤ) : ℕ := (x % 2 ^ 32).toNat

/-- Conversion to `uint64_t` or `size_t`. -/
def toUInt64 (x : ℤ) : ℕ := (x % 2 ^ 64).toNat

/-- Conversion to `int`. -/
def toInt32 (x : ℤ) : ℤ := if toUInt32 x < 2 ^ 31 then toUInt32 x else toUInt32 x - 2 ^ 32

/-- Conversion to `int64_t`, `ssize_t` or `off_t`. -/
def toInt64 (x : ℤ) : ℤ := if toUInt64 x < 2 ^ 63 then toUInt64 x else toUInt64 x - 2 ^ 64

theorem toInt32_eq (x : ℤ) : toInt32 x = (x + 2 ^ 31) % 2 ^ 32 - 2 ^ 31 := by
  rw [toInt32, toUInt32]
  split <;> omega

theorem toInt64_eq (x : ℤ) : toInt64 x = (x + 2 ^ 63) % 2 ^ 64 - 2 ^ 63 := by
  rw [toInt64, toUInt64]
  split <;> omega

theorem toInt32_of_range {x : ℤ} (h₁ : -2 ^ 31 ≤ x) (h₂ : x < 2 ^ 31) : toInt32 x = x := by
  rw [toInt32_eq]
  omega

theorem toInt64_of_range {x : ℤ} (h₁ : -2 ^ 63 ≤ x) (h₂ : x < 2 ^ 63) : toInt64 x = x := by
  rw [toInt64_eq]
  omega

theorem toInt32_natCast_of_lt {n : ℕ} (h : n < 2 ^ 31) : toInt32 (n : ℤ) = n :=
  toInt32_of_range (by omega) (by omega)

@[simp] theorem toUInt64_natCast_of_lt {n : ℕ} (h : n < 2 ^ 64) : toUInt64 (n : ℤ) = n := by
  rw [toUInt64]
  omega

/-- The conversion makes no number larger. -/
theorem toUInt64_natCast_le (n : ℕ) : toUInt64 (n : ℤ) ≤ n := by
  rw [toUInt64]
  omega

/-- What is left to move of `len` bytes. -/
theorem toUInt64_sub {len n : ℕ} (hle : n ≤ len) (hlen : len < 2 ^ 64) :
    toUInt64 ((len : ℤ) - n) = len - n := by
  rw [← Int.ofNat_sub hle]
  exact toUInt64_natCast_of_lt (by omega)

theorem toUInt64_of_nonneg {x : ℤ} (h0 : 0 ≤ x) (h : x < 2 ^ 64) : toUInt64 x = x.toNat := by
  obtain ⟨n, rfl⟩ := Int.eq_ofNat_of_zero_le h0
  exact toUInt64_natCast_of_lt (by omega)

theorem toUInt64_sub_of_nonneg {len : ℕ} {x : ℤ} (h0 : 0 ≤ x) (hle : x ≤ len)
    (hlen : len < 2 ^ 64) : toUInt64 (len - x) = len - x.toNat := by
  obtain ⟨n, rfl⟩ := Int.eq_ofNat_of_zero_le h0
  exact toUInt64_sub (by omega) hlen

theorem toUInt64_neg {x : ℤ} (h₁ : -2 ^ 64 ≤ x) (h₂ : x < 0) :
    (toUInt64 x : ℤ) = x + 2 ^ 64 := by
  rw [toUInt64]
  omega

end CInt
