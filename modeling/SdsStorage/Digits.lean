/-
**Digits, with and without leading zeros.**

A number below `b ^ k` has `k` digits in the base `b` when leading zeros are kept.  Kept, they make
the digits of the complement those of the digits' complements, and the last of them those of the
number cut off; dropped, they leave the digits a number is printed with.

Main definitions:

* `Digits.fixed` — a number of digits, most significant first.

Main results:

* `Digits.fixed_complement` — **the digits of a complement are complemented**;
* `Digits.drop_fixed` — the last digits;
* `Digits.map_fixed` — **zeros, and the digits that are printed**.
-/

import Mathlib.Tactic.Common
import Mathlib.Algebra.Order.Ring.Nat

set_option relaxedAutoImplicit false
set_option autoImplicit false

namespace Digits

variable {b : ℕ}

/-- The last `k` digits of a number, most significant first. -/
def fixed (b : ℕ) : ℕ → ℕ → List ℕ
  | 0, _ => []
  | k + 1, n => fixed b k (n / b) ++ [n % b]

@[simp] theorem length_fixed (b k n : ℕ) : (fixed b k n).length = k := by
  induction k generalizing n with
  | zero => rfl
  | succ k ih => rw [fixed, List.length_append, ih, List.length_singleton]

theorem lt_of_mem_fixed (hb : 0 < b) {k n d : ℕ} (h : d ∈ fixed b k n) : d < b := by
  induction k generalizing n with
  | zero => cases h
  | succ k ih =>
      rw [fixed, List.mem_append, List.mem_singleton] at h
      rcases h with h | rfl
      · exact ih h
      · exact Nat.mod_lt _ hb

theorem fixed_zero (b k : ℕ) : fixed b k 0 = List.replicate k 0 := by
  induction k with
  | zero => rfl
  | succ k ih => rw [fixed, Nat.zero_div, Nat.zero_mod, ih, List.replicate_succ']

/-- The last digits. -/
theorem drop_fixed (b j k n : ℕ) : (fixed b (j + k) n).drop j = fixed b k n := by
  induction k generalizing n with
  | zero =>
      rw [Nat.add_zero, fixed, List.drop_eq_nil_of_le]
      rw [length_fixed]
  | succ k ih =>
      rw [← Nat.add_assoc, fixed, fixed, List.drop_append_of_le_length, ih]
      rw [length_fixed]
      exact Nat.le_add_right j k

/-- What lies above the digits makes no difference. -/
theorem fixed_mod (b k n : ℕ) : fixed b k (n % b ^ k) = fixed b k n := by
  induction k generalizing n with
  | zero => rfl
  | succ k ih =>
      rw [fixed, fixed, Nat.pow_succ', Nat.mod_mul_right_div_self, Nat.mod_mul_right_mod, ih]

/-- **The digits of a complement are complemented.** -/
theorem fixed_complement (hb : 0 < b) {k n : ℕ} (h : n < b ^ k) :
    (fixed b k n).map (fun d => b - 1 - d) = fixed b k (b ^ k - 1 - n) := by
  induction k generalizing n with
  | zero => rfl
  | succ k ih =>
      have hpow : b ^ (k + 1) = b * b ^ k := by rw [Nat.pow_succ, Nat.mul_comm]
      have hdiv : n / b < b ^ k := Nat.div_lt_of_lt_mul (by rwa [← hpow])
      have hmod := Nat.mod_lt n hb
      have hn := Nat.div_add_mod n b
      -- the complement is that of the quotient, shifted, and that of the last digit
      have hsplit : b ^ (k + 1) - 1 - n = b * (b ^ k - 1 - n / b) + (b - 1 - n % b) := by
        have hmul : b * (b ^ k - 1 - n / b) + b * (n / b) + b = b * b ^ k := by
          rw [← Nat.mul_add, ← Nat.mul_succ]
          congr 1
          omega
        omega
      have hlast : b - 1 - n % b < b := by omega
      rw [fixed, fixed, List.map_append, ih hdiv, List.map_cons, List.map_nil, hsplit,
        Nat.mul_add_div hb, Nat.div_eq_of_lt hlast, Nat.add_zero, Nat.mul_add_mod,
        Nat.mod_eq_of_lt hlast]

/-- **Zeros, and the digits that are printed.** -/
theorem map_fixed (hb : 1 < b) {k n : ℕ} (hk : 0 < k) (h : n < b ^ k) :
    (fixed b k n).map Nat.digitChar =
      List.replicate (k - (Nat.toDigits b n).length) '0' ++ Nat.toDigits b n := by
  induction k generalizing n with
  | zero => omega
  | succ k ih =>
      rw [fixed, List.map_append, List.map_cons, List.map_nil]
      rcases Nat.lt_or_ge n b with hlt | hge
      · rw [Nat.div_eq_of_lt hlt, Nat.mod_eq_of_lt hlt, fixed_zero, List.map_replicate,
          Nat.toDigits_of_lt_base hlt]
        rfl
      · have hpow : b ^ (k + 1) = b * b ^ k := by rw [Nat.pow_succ, Nat.mul_comm]
        have hdiv : n / b < b ^ k := Nat.div_lt_of_lt_mul (by rwa [← hpow])
        have hpos : 0 < k := by
          rcases Nat.eq_zero_or_pos k with rfl | hpos
          · rw [Nat.zero_add, Nat.pow_one] at h
            omega
          · exact hpos
        rw [ih hpos hdiv, Nat.toDigits_of_base_le hb hge, List.length_append,
          List.length_singleton, Nat.add_sub_add_right, List.append_assoc]

/-- A number that needs all its digits is printed with all of them. -/
theorem map_fixed_of_le (hb : 1 < b) {k n : ℕ} (hlow : b ^ k ≤ n) (h : n < b ^ (k + 1)) :
    (fixed b (k + 1) n).map Nat.digitChar = Nat.toDigits b n := by
  have hlen : k + 1 ≤ (Nat.toDigits b n).length := by
    rcases Nat.eq_zero_or_pos k with rfl | hpos
    · exact Nat.length_toDigits_pos
    · by_contra hshort
      have hle : (Nat.toDigits b n).length ≤ k := by omega
      have hlt := (Nat.length_toDigits_le_iff hb hpos).1 hle
      omega
  rw [map_fixed hb (Nat.succ_pos k) h, Nat.sub_eq_zero_of_le hlen, List.replicate_zero,
    List.nil_append]

/-- The digits that are printed are digits of the base. -/
theorem exists_of_mem_toDigits (hb : 1 < b) {n : ℕ} {c : Char} (h : c ∈ Nat.toDigits b n) :
    ∃ d < b, c = Nat.digitChar d := by
  have hpow : n < b ^ (n + 1) :=
    (Nat.lt_pow_self hb).trans (Nat.pow_lt_pow_right hb (Nat.lt_succ_self n))
  have hmem : c ∈ (fixed b (n + 1) n).map Nat.digitChar := by
    rw [map_fixed hb (Nat.succ_pos n) hpow]
    exact List.mem_append_right _ h
  obtain ⟨d, hd, rfl⟩ := List.mem_map.1 hmem
  exact ⟨d, lt_of_mem_fixed (by omega) hd, rfl⟩

end Digits
