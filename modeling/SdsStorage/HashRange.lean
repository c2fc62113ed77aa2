/-
**The width of a hash range.**

`bucketset_hash_range_round` looks for the first multiple of 512 above a number of hashes.  The
multiples are computed as an `int` and then converted to `uint64_t`: from `2 ^ 31` on the product
is negative, and the conversion makes of it a number just below `2 ^ 64`.

Main definitions:

* `rangeProduct` — the multiples, as they are compared;
* `RoundsUp` — the loop ends with the least multiple.

Main results:

* `rangeProduct_low`, `rangeProduct_high` — what is compared;
* `hashRangeRound_roundsUp_iff` — **the number is rounded up exactly when it is not among those
  that only wrapped products exceed**.
-/

import SdsStorage.Bucketset
import Mathlib.Order.Bounds.Basic

set_option relaxedAutoImplicit false
set_option autoImplicit false

/-- `i * BUCKET_MIN_HASH`, an `int`, as a `uint64_t`. -/
def rangeProduct (i : ℤ) : ℕ := CInt.toUInt64 (CInt.toInt32 (i * bucketMinHash))

theorem rangeProduct_low {i : ℤ} (h0 : 0 ≤ i) (h : i < 2 ^ 22) :
    (rangeProduct i : ℤ) = 512 * i := by
  rw [rangeProduct, bucketMinHash, CInt.toInt32_eq, CInt.toUInt64]
  omega

/-- From `2 ^ 22` on the product has wrapped. -/
theorem rangeProduct_high {i : ℤ} (h0 : 2 ^ 22 ≤ i) (h : i < 2 ^ 23) :
    (rangeProduct i : ℤ) = 2 ^ 64 - 2 ^ 32 + 512 * i := by
  rw [rangeProduct, bucketMinHash, CInt.toInt32_eq, CInt.toUInt64]
  omega

theorem rangeProduct_lt (i : ℤ) : rangeProduct i < 2 ^ 64 := by
  rw [rangeProduct, CInt.toUInt64]
  omega

/-- A turn with a positive index compares one product. -/
theorem hashRangeRoundTurn_eq (base : UInt64) {i : ℤ} (hi : 0 < i) :
    hashRangeRoundTurn base i =
      if base.toNat < rangeProduct i then .done (UInt64.ofNat (rangeProduct i))
      else .again (CInt.toInt32 (i + 1)) := by
  have hlt : base < UInt64.ofNat (rangeProduct i) ↔ base.toNat < rangeProduct i := by
    rw [UInt64.lt_iff_toNat_lt, UInt64.toNat_ofNat_of_lt' (rangeProduct_lt i)]
  rw [hashRangeRoundTurn, if_pos hi]
  change (if base < UInt64.ofNat (rangeProduct i) then _ else _) = _
  by_cases h : base.toNat < rangeProduct i
  · rw [if_pos h, if_pos (hlt.2 h)]
    rfl
  · rw [if_neg h, if_neg (mt hlt.1 h)]

/-- The loop ends, with the least multiple of `BUCKET_MIN_HASH` above the number. -/
def RoundsUp (base : UInt64) : Prop :=
  ∃ (fuel : ℕ) (value : UInt64), Loop.run (hashRangeRoundTurn base) fuel 1 = some value ∧
    IsLeast {m : ℕ | bucketMinHash.toNat ∣ m ∧ base.toNat < m} value.toNat

/-- What holds of the index before every turn: no product up to here exceeds the number. -/
structure RoundInv (base : UInt64) (i : ℤ) : Prop where
  pos : 0 < i
  lt : i < 2 ^ 23
  below : ∀ k : ℤ, 0 < k → k < i → rangeProduct k ≤ base.toNat

theorem RoundInv.next {base : UInt64} (hbase : base.toNat + 512 < 2 ^ 64) {i : ℤ}
    (h : RoundInv base i) (hle : rangeProduct i ≤ base.toNat) : RoundInv base (i + 1) := by
  have hpos := h.pos
  have hlt := h.lt
  refine ⟨by omega, ?_, ?_⟩
  · by_contra hlast
    have hprod := rangeProduct_high (i := i) (by omega) hlt
    omega
  · intro k hk hki
    rcases Int.lt_or_eq_of_le (Int.lt_add_one_iff.1 hki) with hbefore | rfl
    · exact h.below k hk hbefore
    · exact hle

/-- The index at which the loop leaves. -/
theorem hashRangeRound_found {base : UInt64} (hbase : base.toNat + 512 < 2 ^ 64) :
    ∃ i, RoundInv base i ∧ base.toNat < rangeProduct i ∧
      Loop.run (hashRangeRoundTurn base) (2 ^ 31) 1 = some (UInt64.ofNat (rangeProduct i)) := by
  obtain ⟨value, hrun⟩ := Option.isSome_iff_exists.1 (hashRangeRound_isSome base)
  have hstart : RoundInv base 1 := ⟨by omega, by omega, fun k hk hk1 => by omega⟩
  have hfound : ∃ i, RoundInv base i ∧ base.toNat < rangeProduct i ∧
      value = UInt64.ofNat (rangeProduct i) := by
    refine Loop.run_inv (I := RoundInv base)
      (Q := fun value => ∃ i, RoundInv base i ∧ base.toNat < rangeProduct i ∧
        value = UInt64.ofNat (rangeProduct i)) ?_ ?_ hstart hrun
    · intro i i' hi hturn
      have hlt := hi.lt
      have hpos := hi.pos
      rw [hashRangeRoundTurn_eq base hi.pos] at hturn
      split at hturn
      · cases hturn
      · rename_i hle
        cases hturn
        rw [CInt.toInt32_of_range (by omega) (by omega)]
        exact hi.next hbase (Nat.not_lt.1 hle)
    · intro i r hi hturn
      rw [hashRangeRoundTurn_eq base hi.pos] at hturn
      split at hturn
      · rename_i hlt
        cases hturn
        exact ⟨i, hi, hlt, rfl⟩
      · cases hturn
  obtain ⟨i, hi, hlt, rfl⟩ := hfound
  exact ⟨i, hi, hlt, hrun⟩

/-- The first product above the number is the least multiple above it, except where the products
have just wrapped. -/
theorem RoundInv.isLeast_iff {base : UInt64} {i : ℤ} (h : RoundInv base i)
    (hgt : base.toNat < rangeProduct i) :
    IsLeast {m : ℕ | bucketMinHash.toNat ∣ m ∧ base.toNat < m} (rangeProduct i) ↔
      base.toNat < 2 ^ 31 - 512 ∨ 2 ^ 64 - 2 ^ 31 - 512 ≤ base.toNat := by
  have hpos := h.pos
  have hmin : bucketMinHash.toNat = 512 := rfl
  -- the product below the last one, when there is one
  have hprev : 1 < i → rangeProduct (i - 1) ≤ base.toNat :=
    fun hi => h.below (i - 1) (by omega) (by omega)
  have hleast : rangeProduct i ≤ base.toNat + 512 → 512 ∣ rangeProduct i →
      IsLeast {m : ℕ | bucketMinHash.toNat ∣ m ∧ base.toNat < m} (rangeProduct i) := by
    rintro hclose ⟨q, hq⟩
    rw [hmin]
    refine ⟨⟨⟨q, hq⟩, hgt⟩, ?_⟩
    rintro m ⟨⟨p, rfl⟩, hm⟩
    omega
  rcases Int.lt_or_le i (2 ^ 22) with hlow | hhigh
  · have hprod := rangeProduct_low h.pos.le hlow
    have hclose : rangeProduct i ≤ base.toNat + 512 := by
      rcases Int.lt_or_le 1 i with hone | hone
      · have hbefore := rangeProduct_low (i := i - 1) (by omega) (by omega)
        have := hprev hone
        omega
      · omega
    refine iff_of_true (hleast hclose ⟨i.toNat, by omega⟩) (Or.inl (by omega))
  · have hlt := h.lt
    have hprod := rangeProduct_high hhigh hlt
    have hbelow := h.below (2 ^ 22 - 1) (by omega) (by omega)
    have hlast := rangeProduct_low (i := 2 ^ 22 - 1) (by omega) (by omega)
    have hdvd : 512 ∣ rangeProduct i := ⟨(2 ^ 55 - 2 ^ 23 + i.toNat), by omega⟩
    rcases Int.lt_or_eq_of_le hhigh with hmore | rfl
    · -- wrapped products that follow one another
      have hbefore := rangeProduct_high (i := i - 1) (by omega) (by omega)
      have := hprev (by omega)
      exact iff_of_true (hleast (by omega) hdvd) (Or.inr (by omega))
    · -- the first product that has wrapped
      constructor
      · rintro ⟨-, hlower⟩
        refine Or.inr ?_
        by_contra hfew
        have hsmaller : 2 ^ 64 - 2 ^ 31 - 512 ∈
            {m : ℕ | bucketMinHash.toNat ∣ m ∧ base.toNat < m} := by
          refine ⟨?_, by omega⟩
          rw [hmin]
          exact ⟨2 ^ 55 - 2 ^ 22 - 1, by norm_num⟩
        have := hlower hsmaller
        omega
      · rintro (hfew | hmany)
        · omega
        · exact hleast (by omega) hdvd

/-- **When the number is rounded up**: for every number whose next multiple fits, the loop ends with
the least multiple above it exactly when that multiple is below `2 ^ 31`, or so large that it is
among the wrapped products. -/
theorem hashRangeRound_roundsUp_iff {base : UInt64} (hbase : base.toNat + 512 < 2 ^ 64) :
    RoundsUp base ↔ base.toNat < 2 ^ 31 - 512 ∨ 2 ^ 64 - 2 ^ 31 - 512 ≤ base.toNat := by
  obtain ⟨i, hi, hgt, hrun⟩ := hashRangeRound_found hbase
  have hvalue : (UInt64.ofNat (rangeProduct i)).toNat = rangeProduct i :=
    UInt64.toNat_ofNat_of_lt' (rangeProduct_lt i)
  rw [← hi.isLeast_iff hgt, RoundsUp]
  constructor
  · rintro ⟨fuel, value, hrun', hleast⟩
    cases Loop.run_det hrun hrun'
    rwa [hvalue] at hleast
  · intro hleast
    refine ⟨2 ^ 31, _, hrun, ?_⟩
    rwa [hvalue]

/-- The ranges of three buckets that cover the hashes of 32 bits. -/
theorem hashRangeRound_roundsUp_iff_third :
    RoundsUp 1431655766 ↔ (1431655766 : UInt64).toNat < 2 ^ 31 - 512 ∨
      2 ^ 64 - 2 ^ 31 - 512 ≤ (1431655766 : UInt64).toNat :=
  hashRangeRound_roundsUp_iff (by decide)

/-- The range of a bucket that is to cover half of them. -/
theorem half_not_roundsUp : ¬ RoundsUp 2147483648 := by
  have hbase : (2147483648 : UInt64).toNat = 2 ^ 31 := by decide
  have hfits : (2147483648 : UInt64).toNat + 512 < 2 ^ 64 := by omega
  obtain ⟨i, hi, hgt, hrun⟩ := hashRangeRound_found hfits
  rintro ⟨fuel, value, hrun', hleast⟩
  cases Loop.run_det hrun hrun'
  rw [UInt64.toNat_ofNat_of_lt' (rangeProduct_lt i), hi.isLeast_iff hgt, hbase] at hleast
  omega
