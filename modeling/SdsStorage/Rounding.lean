/-
**Rounding to a bounded number of significant bits.**

A floating-point operation computes the exact result and rounds it.  What the programs that use
such an operation rely on is rarely the rounding rule itself: it is that rounding is monotone and
that it leaves the numbers of the format alone.  This module states these two properties for
rounding to `p` significant bits, derives the bounds that follow from them, and shows that two
rules have them: not rounding at all, and rounding to nearest with ties to even.

Main definitions:

* `Rounding` — a rounding rule for nonnegative numbers, with `p` significant bits;
* `Rounding.rational` — exact arithmetic, as a rounding rule;
* `Rounding.halfEven`, `Rounding.nearestEven` — rounding to nearest with ties to even.

Main results:

* `Rounding.le_round`, `Rounding.round_le` — bounds by numbers of the format survive rounding;
* `Rounding.nearest` — **rounding to nearest even is a rounding rule**.
-/

import Mathlib.Data.Int.Log
import Mathlib.Algebra.Order.Floor.Ring
import Mathlib.Data.Rat.Floor
import Mathlib.Tactic.Linarith
import Mathlib.Tactic.Ring
import Mathlib.Tactic.FieldSimp
import Mathlib.Tactic.Positivity

set_option relaxedAutoImplicit false
set_option autoImplicit false

/-- **A rounding rule** with `p` significant bits, on nonnegative numbers: it is monotone, and it
leaves alone the numbers `m * 2 ^ e` whose significand `m` fits in `p` bits and whose exponent is
at most `E`. -/
structure Rounding (p E : ℕ) where
  /-- The value an exact result is rounded to. -/
  round : ℚ → ℚ
  /-- Rounding is monotone. -/
  mono : ∀ {x y : ℚ}, 0 ≤ x → x ≤ y → round x ≤ round y
  /-- Rounding leaves the numbers of the format alone. -/
  exact : ∀ m e : ℕ, m ≤ 2 ^ p → e ≤ E → round ((m : ℚ) * 2 ^ e) = (m : ℚ) * 2 ^ e

namespace Rounding

variable {p E : ℕ} (rd : Rounding p E)

/-! ### Bounds survive rounding -/

/-- Integers with at most `p` bits are left alone. -/
theorem round_natCast {m : ℕ} (hm : m ≤ 2 ^ p) : rd.round (m : ℚ) = m := by
  simpa using rd.exact m 0 hm (Nat.zero_le _)

/-- A lower bound that is an integer of at most `p` bits survives rounding. -/
theorem le_round {m : ℕ} {x : ℚ} (hm : m ≤ 2 ^ p) (hx : (m : ℚ) ≤ x) : (m : ℚ) ≤ rd.round x := by
  have h := rd.mono (Nat.cast_nonneg m) hx
  rwa [rd.round_natCast hm] at h

/-- An upper bound that is a number of the format survives rounding. -/
theorem round_le {m e : ℕ} {x : ℚ} (hm : m ≤ 2 ^ p) (he : e ≤ E) (h0 : 0 ≤ x)
    (hx : x ≤ (m : ℚ) * 2 ^ e) : rd.round x ≤ (m : ℚ) * 2 ^ e := by
  have h := rd.mono h0 hx
  rwa [rd.exact m e hm he] at h

/-! ### Exact arithmetic -/

/-- Exact rational arithmetic, as a rounding rule. -/
def rational (p E : ℕ) : Rounding p E where
  round := id
  mono := fun _ h => h
  exact := fun _ _ _ _ => rfl

/-! ### Rounding to nearest, ties to even -/

/-- The integer nearest to `y`, and the even one of the two when `y` is half-way. -/
def halfEven (y : ℚ) : ℤ :=
  let f := ⌊y⌋
  if y - f < 1 / 2 then f
  else if 1 / 2 < y - f then f + 1
  else if f % 2 = 0 then f else f + 1

theorem halfEven_intCast (n : ℤ) : halfEven (n : ℚ) = n := by
  simp [halfEven]

theorem floor_le_halfEven (y : ℚ) : ⌊y⌋ ≤ halfEven y := by
  unfold halfEven
  dsimp only
  split_ifs <;> omega

theorem halfEven_le_floor_succ (y : ℚ) : halfEven y ≤ ⌊y⌋ + 1 := by
  unfold halfEven
  dsimp only
  split_ifs <;> omega

theorem halfEven_mono {x y : ℚ} (h : x ≤ y) : halfEven x ≤ halfEven y := by
  rcases lt_or_eq_of_le (Int.floor_mono h) with hlt | heq
  · have h₁ := halfEven_le_floor_succ x
    have h₂ := floor_le_halfEven y
    omega
  · -- the two numbers lie between the same integers, so the larger one is rounded up first
    unfold halfEven
    dsimp only
    rw [heq]
    split_ifs <;> first | omega | (exfalso; linarith)

/-- The unit in the last place of a number with `p` significant bits. -/
def ulp (p : ℕ) (x : ℚ) : ℚ := 2 ^ (Int.log 2 |x| + 1 - p)

theorem ulp_pos (p : ℕ) (x : ℚ) : 0 < ulp p x := by
  exact zpow_pos (by norm_num) _

/-- Rounding to the nearest number with `p` significant bits, ties to even. -/
def nearestEven (p : ℕ) (x : ℚ) : ℚ := halfEven (x / ulp p x) * ulp p x

/-- A number that is a whole multiple of its unit in the last place is not changed. -/
theorem nearestEven_of_eq_mul {p : ℕ} {x : ℚ} (n : ℤ) (h : x = n * ulp p x) :
    nearestEven p x = x := by
  have hq : x / ulp p x = n := by
    rw [div_eq_iff (ne_of_gt (ulp_pos p x))]
    exact h
  rw [nearestEven, hq, halfEven_intCast]
  exact h.symm

/-- Rounding does not leave the interval between two powers of two: the upper end. -/
theorem nearestEven_le_zpow {p : ℕ} {x : ℚ} (hx : 0 < x) :
    nearestEven p x ≤ 2 ^ (Int.log 2 x + 1) := by
  have hu := ulp_pos p x
  have hlt : x < (2 : ℚ) ^ (Int.log 2 x + 1) := by
    exact_mod_cast Int.lt_zpow_succ_log_self (b := 2) (by norm_num) x
  have hsplit : (2 : ℚ) ^ (Int.log 2 x + 1) = ((2 ^ p : ℤ) : ℚ) * ulp p x := by
    rw [ulp, abs_of_pos hx]
    push_cast
    rw [← zpow_natCast, ← zpow_add₀ (by norm_num : (2 : ℚ) ≠ 0)]
    congr 1
    ring
  have hq : x / ulp p x ≤ ((2 ^ p : ℤ) : ℚ) := by
    rw [div_le_iff₀ hu, ← hsplit]
    exact le_of_lt hlt
  have hr := halfEven_mono hq
  rw [halfEven_intCast] at hr
  rw [hsplit, nearestEven]
  exact mul_le_mul_of_nonneg_right (by exact_mod_cast hr) (le_of_lt hu)

/-- Rounding does not leave the interval between two powers of two: the lower end. -/
theorem zpow_le_nearestEven {p : ℕ} (hp : 0 < p) {x : ℚ} (hx : 0 < x) :
    (2 : ℚ) ^ (Int.log 2 x) ≤ nearestEven p x := by
  have hu := ulp_pos p x
  have hle : (2 : ℚ) ^ (Int.log 2 x) ≤ x := by
    exact_mod_cast Int.zpow_log_le_self (b := 2) (by norm_num) hx
  have hsplit : (2 : ℚ) ^ (Int.log 2 x) = ((2 ^ (p - 1) : ℤ) : ℚ) * ulp p x := by
    rw [ulp, abs_of_pos hx]
    push_cast
    rw [← zpow_natCast, ← zpow_add₀ (by norm_num : (2 : ℚ) ≠ 0)]
    congr 1
    push_cast [Nat.cast_sub hp]
    ring
  have hq : ((2 ^ (p - 1) : ℤ) : ℚ) ≤ x / ulp p x := by
    rw [le_div_iff₀ hu, ← hsplit]
    exact hle
  have hr := halfEven_mono hq
  rw [halfEven_intCast] at hr
  rw [hsplit, nearestEven]
  exact mul_le_mul_of_nonneg_right (by exact_mod_cast hr) (le_of_lt hu)

theorem nearestEven_mono {p : ℕ} (hp : 0 < p) {x y : ℚ} (hx : 0 ≤ x) (hxy : x ≤ y) :
    nearestEven p x ≤ nearestEven p y := by
  rcases hx.lt_or_eq with hpos | rfl
  · have hy : 0 < y := lt_of_lt_of_le hpos hxy
    rcases lt_or_eq_of_le (Int.log_mono_right (b := 2) hpos hxy) with hlt | heq
    · -- a power of two separates the two numbers
      have hpow : (2 : ℚ) ^ (Int.log 2 x + 1) ≤ 2 ^ Int.log 2 y :=
        zpow_le_zpow_right₀ (by norm_num) (by omega)
      exact (nearestEven_le_zpow hpos).trans (hpow.trans (zpow_le_nearestEven hp hy))
    · have hulp : ulp p x = ulp p y := by
        rw [ulp, ulp, abs_of_pos hpos, abs_of_pos hy, heq]
      have hu := ulp_pos p y
      have hq : x / ulp p y ≤ y / ulp p y := div_le_div_of_nonneg_right hxy (le_of_lt hu)
      rw [nearestEven, nearestEven, hulp]
      exact mul_le_mul_of_nonneg_right (by exact_mod_cast halfEven_mono hq) (le_of_lt hu)
  · have h0 : nearestEven p 0 = 0 := by
      have hz := halfEven_intCast 0
      rw [Int.cast_zero] at hz
      rw [nearestEven, zero_div, hz]
      simp
    have hq : (0 : ℚ) ≤ y / ulp p y := div_nonneg hxy (le_of_lt (ulp_pos p y))
    have hr := halfEven_mono hq
    have hz := halfEven_intCast 0
    rw [Int.cast_zero] at hz
    rw [hz] at hr
    rw [h0, nearestEven]
    exact mul_nonneg (by exact_mod_cast hr) (le_of_lt (ulp_pos p y))

/-- A number with a significand of at most `p` bits is a whole multiple of its unit in the last
place. -/
theorem nearestEven_exact_of_lt {p : ℕ} (m e : ℕ) (hm0 : 0 < m) (hm : m < 2 ^ p) :
    nearestEven p ((m : ℚ) * 2 ^ e) = (m : ℚ) * 2 ^ e := by
  have hpos : (0 : ℚ) < (m : ℚ) * 2 ^ e := by positivity
  have hlt : (m : ℚ) * 2 ^ e < ((2 : ℕ) : ℚ) ^ ((p : ℤ) + e) := by
    have hmq : (m : ℚ) < 2 ^ p := by exact_mod_cast hm
    rw [zpow_add₀ (by norm_num), zpow_natCast, zpow_natCast]
    push_cast
    exact mul_lt_mul_of_pos_right hmq (by positivity)
  have hlog : Int.log 2 ((m : ℚ) * 2 ^ e) < (p : ℤ) + e :=
    (Int.lt_zpow_iff_log_lt (by norm_num) hpos).1 hlt
  have hulp : ulp p ((m : ℚ) * 2 ^ e) = 2 ^ (Int.log 2 ((m : ℚ) * 2 ^ e) + 1 - p) := by
    rw [ulp, abs_of_pos hpos]
  refine nearestEven_of_eq_mul (m * 2 ^ (e - (Int.log 2 ((m : ℚ) * 2 ^ e) + 1 - p)).toNat : ℤ) ?_
  rw [hulp]
  generalize Int.log 2 ((m : ℚ) * 2 ^ e) = L at hlog
  have hexp : (2 : ℚ) ^ e = 2 ^ (e - (L + 1 - p)).toNat * 2 ^ (L + 1 - p) := by
    rw [← zpow_natCast, ← zpow_natCast, ← zpow_add₀ (by norm_num),
      Int.toNat_of_nonneg (by omega)]
    congr 1
    ring
  push_cast
  rw [mul_assoc, ← hexp]

theorem nearestEven_exact {p : ℕ} (hp : 0 < p) (m e : ℕ) (hm : m ≤ 2 ^ p) :
    nearestEven p ((m : ℚ) * 2 ^ e) = (m : ℚ) * 2 ^ e := by
  rcases Nat.eq_zero_or_pos m with rfl | hm0
  · have hz := halfEven_intCast 0
    rw [Int.cast_zero] at hz
    simp [nearestEven, hz]
  rcases Nat.lt_or_eq_of_le hm with hlt | rfl
  · exact nearestEven_exact_of_lt m e hm0 hlt
  · -- the significand `2 ^ p` is written with one bit less and the next exponent
    obtain ⟨q, rfl⟩ : ∃ q, p = q + 1 := ⟨p - 1, by omega⟩
    have hshift : ((2 ^ (q + 1) : ℕ) : ℚ) * 2 ^ e = ((2 ^ q : ℕ) : ℚ) * 2 ^ (e + 1) := by
      push_cast
      ring
    rw [hshift]
    exact nearestEven_exact_of_lt _ _ (by positivity)
      (Nat.pow_lt_pow_right (by norm_num) (by omega))

/-- **Rounding to nearest even is a rounding rule.** -/
def nearest (p E : ℕ) (hp : 0 < p) : Rounding p E where
  round := nearestEven p
  mono := nearestEven_mono hp
  exact := fun m e hm _ => nearestEven_exact hp m e hm

end Rounding
