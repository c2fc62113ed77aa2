/-
**The digits of a log line.**

`_safe_utoa` and `_safe_itoa` write the digits of a number from the right into a buffer of 22 bytes.
A negative number is negated first; in the base 16 it is printed as the complement of the digits of
what lies below its negation.  The least number has no negation: its remainders are negative, and
the table of digits is read before its start.

Main definitions:

* `Log.hexAt`, `Log.digitsLoop`, `Log.safeUtoa`, `Log.safeItoa` — the digits;
* `Log.hexNat` — hexadecimal digits;
* `Log.unsignedOf`, `Log.signedOf` — an argument.

Main results:

* `Log.safeUtoa_ten`, `Log.safeItoa_ten` — the decimal digits of every number but the least;
* `Log.safeItoa_sixteen` — **the hexadecimal digits of every number**, as one of 64 bits;
* `Log.safeItoa_minimum` — **what is printed for the least number**;
* `Log.hexNat_signedOf` — the hexadecimal digits of an argument of 64 or 32 bits.
-/

import SdsStorage.CInt
import SdsStorage.CString
import SdsStorage.Digits

set_option relaxedAutoImplicit false
set_option autoImplicit false

namespace Log

/-! ### The digit loops -/

/-- The array `hex`, without its terminator. -/
def hexTable : Bytes :=
  [0x30, 0x31, 0x32, 0x33, 0x34, 0x35, 0x36, 0x37, 0x38, 0x39, 0x61, 0x62, 0x63, 0x64, 0x65, 0x66]

/-- `hex[i]`: an index below zero leads to the bytes that lie before the array, last one first. -/
def hexAt (stray : ℕ → UInt8) (i : ℤ) : UInt8 :=
  if i < 0 then stray (-i).toNat else hexTable.getD i.toNat 0

/-- The loop `do { *buf-- = hex[val % base]; } while ((val /= base) != 0)`, with room for some
characters; division truncates. -/
def digitsLoop (stray : ℕ → UInt8) (base : ℤ) : ℕ → ℤ → Bytes → Outcome Bytes
  | 0, _, _ => .error .outOfBounds
  | room + 1, val, buf =>
      let buf := hexAt stray (val.tmod base) :: buf
      if val.tdiv base ≠ 0 then digitsLoop stray base room (val.tdiv base) buf else .ok buf

/-- The room for characters in an array of 22 bytes with a terminator at its end. -/
def buffRoom : ℕ := 21

/-- `_safe_utoa`. -/
def safeUtoa (stray : ℕ → UInt8) (base : ℤ) (val : ℕ) : Outcome Bytes :=
  digitsLoop stray base buffRoom val []

/-- The `switch` that complements a hexadecimal digit. -/
def complementDigit (c : UInt8) : UInt8 :=
  match c with
  | 0x30 => 0x66
  | 0x31 => 0x65
  | 0x32 => 0x64
  | 0x33 => 0x63
  | 0x34 => 0x62
  | 0x35 => 0x61
  | 0x36 => 0x39
  | 0x37 => 0x38
  | 0x38 => 0x37
  | 0x39 => 0x36
  | 0x61 => 0x35
  | 0x62 => 0x34
  | 0x63 => 0x33
  | 0x64 => 0x32
  | 0x65 => 0x31
  | 0x66 => 0x30
  | c => c

/-- `_safe_itoa`. -/
def safeItoa (stray : ℕ → UInt8) (base val : ℤ) : Outcome Bytes := do
  let rest := if val < 0 then CInt.toInt64 (-val) else val
  let rest := if val < 0 ∧ base = 16 then CInt.toInt64 (rest - 1) else rest
  let digits ← digitsLoop stray base buffRoom rest []
  if val < 0 ∧ base = 10 then
    if digits.length < buffRoom then .ok (0x2d :: digits) else .error .outOfBounds
  else if val < 0 ∧ base = 16 then
    -- the last sixteen characters, which were zeros before the loop wrote over them
    .ok (((List.replicate 16 0x30 ++ digits).drop digits.length).map complementDigit)
  else .ok digits

/-- The byte of a character. -/
def charByte (c : Char) : UInt8 := c.toNat.toUInt8

/-- The hexadecimal digits of a number, most significant first. -/
def hexNat (n : ℕ) : Bytes := (Nat.toDigits 16 n).map charByte

theorem decimalNat_eq (n : ℕ) : CString.decimalNat n = (Nat.toDigits 10 n).map charByte := rfl

theorem hexAt_natCast (stray : ℕ → UInt8) {d : ℕ} (h : d < 16) :
    hexAt stray d = charByte (Nat.digitChar d) := by
  have hall : ∀ i : Fin 16, hexTable.getD i 0 = charByte (Nat.digitChar i) := by decide
  rw [hexAt, if_neg (by omega), Int.toNat_natCast]
  exact hall ⟨d, h⟩

/-- The digits of a number that is not negative. -/
theorem digitsLoop_natCast (stray : ℕ → UInt8) {b : ℕ} (hb : 1 < b) (hb' : b ≤ 16) :
    ∀ (room n : ℕ) (buf : Bytes), n < b ^ room →
      digitsLoop stray b room n buf = .ok ((Nat.toDigits b n).map charByte ++ buf) ∨ room = 0 := by
  intro room
  induction room with
  | zero => exact fun _ _ _ => Or.inr rfl
  | succ room ih =>
      intro n buf hn
      refine Or.inl ?_
      have hmod : n % b < b := Nat.mod_lt n (by omega)
      rw [digitsLoop, ← Int.ofNat_tmod, ← Int.ofNat_tdiv, hexAt_natCast stray (by omega)]
      rcases Nat.lt_or_ge n b with hlt | hge
      · rw [if_neg (by rw [Nat.div_eq_of_lt hlt]; decide), Nat.toDigits_of_lt_base hlt,
          Nat.mod_eq_of_lt hlt]
        rfl
      · have hpos : 0 < n / b := Nat.div_pos hge (by omega)
        have hdiv : n / b < b ^ room := by
          refine Nat.div_lt_of_lt_mul ?_
          rwa [Nat.mul_comm, ← Nat.pow_succ]
        rw [if_pos (by omega), Nat.toDigits_of_base_le hb hge, List.map_append, List.map_cons,
          List.map_nil, List.append_assoc]
        rcases ih (n / b) (charByte (Nat.digitChar (n % b)) :: buf) hdiv with h | rfl
        · exact h
        · rw [Nat.pow_zero] at hdiv
          omega

/-- A buffer of 22 bytes takes the digits of every number of 64 bits. -/
theorem digitsLoop_buff (stray : ℕ → UInt8) {b n : ℕ} (hb : 10 ≤ b) (hb' : b ≤ 16)
    (hn : n < 2 ^ 64) :
    digitsLoop stray b buffRoom n [] = .ok ((Nat.toDigits b n).map charByte) := by
  have hpow : 10 ^ buffRoom ≤ b ^ buffRoom := Nat.pow_le_pow_left hb _
  have hlt : 2 ^ 64 < 10 ^ buffRoom := by decide
  rcases digitsLoop_natCast stray (by omega) hb' buffRoom n [] (by omega) with h | h
  · rw [h, List.append_nil]
  · cases h

/-- The decimal digits of a number that is not negative. -/
theorem safeUtoa_ten (stray : ℕ → UInt8) {n : ℕ} (hn : n < 2 ^ 64) :
    safeUtoa stray 10 n = .ok (CString.decimalNat n) :=
  digitsLoop_buff stray (b := 10) (by omega) (by omega) hn

theorem length_decimalNat_le {n : ℕ} (hn : n < 2 ^ 64) : (CString.decimalNat n).length ≤ 20 := by
  have hlt : 2 ^ 64 < 10 ^ 20 := by decide
  rw [decimalNat_eq, List.length_map]
  exact (Nat.length_toDigits_le_iff (by decide) (by decide)).2 (by omega)

/-- A number that is not negative is printed as it is. -/
theorem safeItoa_natCast (stray : ℕ → UInt8) (base : ℤ) (n : ℕ) :
    safeItoa stray base n = digitsLoop stray base buffRoom n [] := by
  have hneg : ¬ (n : ℤ) < 0 := by omega
  unfold safeItoa
  dsimp only
  rw [if_neg hneg, if_neg (fun h => hneg h.1)]
  cases digitsLoop stray base buffRoom n [] with
  | error e => rfl
  | ok digits =>
      rw [Outcome.ok_bind, if_neg (fun h => hneg h.1), if_neg (fun h => hneg h.1)]

/-- A negative number that has a negation is printed as that, behind a sign. -/
theorem safeItoa_ten_neg (stray : ℕ → UInt8) {n : ℕ} (hn : n + 1 < 2 ^ 63) :
    safeItoa stray 10 (Int.negSucc n) = .ok (0x2d :: CString.decimalNat (n + 1)) := by
  have hneg : Int.negSucc n < 0 := Int.negSucc_lt_zero n
  have hval : CInt.toInt64 (-Int.negSucc n) = ((n + 1 : ℕ) : ℤ) := by
    rw [Int.neg_negSucc, CInt.toInt64_of_range (by omega) (by omega)]
  have hloop : digitsLoop stray 10 buffRoom ((n + 1 : ℕ) : ℤ) [] =
      .ok (CString.decimalNat (n + 1)) := digitsLoop_buff stray (b := 10) (by omega) (by omega)
        (by omega)
  have hlen := length_decimalNat_le (n := n + 1) (by omega)
  unfold safeItoa
  dsimp only
  rw [if_pos hneg, hval, if_neg (fun h => absurd h.2 (by decide)), hloop, Outcome.ok_bind,
    if_pos ⟨hneg, rfl⟩, if_pos (by rw [buffRoom]; omega)]

/-- **The decimal digits of every number but the least.** -/
theorem safeItoa_ten (stray : ℕ → UInt8) {val : ℤ} (h₁ : -2 ^ 63 < val) (h₂ : val < 2 ^ 63) :
    safeItoa stray 10 val = .ok (CString.decimal val) := by
  cases val with
  | ofNat n =>
      have hn : (n : ℤ) < 2 ^ 63 := h₂
      exact (safeItoa_natCast stray 10 n).trans
        (digitsLoop_buff stray (b := 10) (by omega) (by omega) (by omega))
  | negSucc n =>
      have hn : n + 1 < 2 ^ 63 := by
        rw [Int.negSucc_eq] at h₁
        omega
      exact safeItoa_ten_neg stray hn

/-- The complement of a digit. -/
theorem complementDigit_charByte {d : ℕ} (h : d < 16) :
    complementDigit (charByte (Nat.digitChar d)) = charByte (Nat.digitChar (16 - 1 - d)) := by
  have hall : ∀ i : Fin 16, complementDigit (charByte (Nat.digitChar i)) =
      charByte (Nat.digitChar (16 - 1 - i)) := by decide
  exact hall ⟨d, h⟩

/-- A negative number is printed in the base 16 with sixteen digits, as one of 64 bits. -/
theorem safeItoa_sixteen_neg (stray : ℕ → UInt8) {n : ℕ} (hn : n < 2 ^ 63) :
    safeItoa stray 16 (Int.negSucc n) =
      .ok (((Digits.fixed 16 16 (2 ^ 64 - 1 - n)).map Nat.digitChar).map charByte) := by
  have hneg : Int.negSucc n < 0 := Int.negSucc_lt_zero n
  -- what is below the negation, also for the least number, whose negation wraps
  have hval : CInt.toInt64 (CInt.toInt64 (-Int.negSucc n) - 1) = (n : ℤ) := by
    rw [Int.neg_negSucc, CInt.toInt64_eq, CInt.toInt64_eq]
    push_cast
    omega
  have hloop : digitsLoop stray 16 buffRoom (n : ℤ) [] = .ok (hexNat n) :=
    digitsLoop_buff stray (b := 16) (by omega) (by omega) (by omega)
  have hpow : (16 : ℕ) ^ 16 = 2 ^ 64 := by decide
  have hlen : (Nat.toDigits 16 n).length ≤ 16 :=
    (Nat.length_toDigits_le_iff (by decide) (by decide)).2 (by omega)
  have hpadded : (List.replicate 16 0x30 ++ hexNat n).drop (hexNat n).length =
      ((Digits.fixed 16 16 n).map Nat.digitChar).map charByte := by
    have hzero : charByte '0' = 0x30 := by decide
    rw [Digits.map_fixed (by decide) (by decide) (by omega), List.map_append, List.map_replicate,
      hzero, List.drop_append_of_le_length (by rw [hexNat, List.length_map]; simpa using hlen),
      List.drop_replicate, hexNat, List.length_map]
  have hcomplement : (((Digits.fixed 16 16 n).map Nat.digitChar).map charByte).map
      complementDigit =
        ((Digits.fixed 16 16 (2 ^ 64 - 1 - n)).map Nat.digitChar).map charByte := by
    rw [← hpow, ← Digits.fixed_complement (by decide) (by omega), List.map_map, List.map_map,
      List.map_map, List.map_map]
    refine List.map_congr_left ?_
    intro d hd
    exact complementDigit_charByte (Digits.lt_of_mem_fixed (by decide) hd)
  unfold safeItoa
  dsimp only
  rw [if_pos hneg, if_pos ⟨hneg, rfl⟩, hval, hloop, Outcome.ok_bind,
    if_neg (fun h => absurd h.2 (by decide)), if_pos ⟨hneg, rfl⟩, hpadded, hcomplement]

/-- **The hexadecimal digits of every number**, as one of 64 bits. -/
theorem safeItoa_sixteen (stray : ℕ → UInt8) {val : ℤ} (h₁ : -2 ^ 63 ≤ val) (h₂ : val < 2 ^ 63) :
    safeItoa stray 16 val = .ok (hexNat (CInt.toUInt64 val)) := by
  cases val with
  | ofNat n =>
      have hn : (n : ℤ) < 2 ^ 63 := h₂
      have hu : CInt.toUInt64 (Int.ofNat n) = n := CInt.toUInt64_natCast_of_lt (by omega)
      rw [hu]
      exact (safeItoa_natCast stray 16 n).trans
        (digitsLoop_buff stray (b := 16) (by omega) (by omega) (by omega))
  | negSucc n =>
      have hn : n < 2 ^ 63 := by
        rw [Int.negSucc_eq] at h₁
        omega
      have hu : CInt.toUInt64 (Int.negSucc n) = 2 ^ 64 - 1 - n := by
        rw [CInt.toUInt64, Int.negSucc_eq]
        omega
      have hlow : 16 ^ 15 ≤ 2 ^ 64 - 1 - n := by
        have hpow : (16 : ℕ) ^ 15 = 2 ^ 60 := by decide
        omega
      have hhigh : 2 ^ 64 - 1 - n < 16 ^ (15 + 1) := by
        have hpow : (16 : ℕ) ^ (15 + 1) = 2 ^ 64 := by decide
        omega
      rw [safeItoa_sixteen_neg stray hn, hu, hexNat,
        Digits.map_fixed_of_le (by decide) hlow hhigh]

/-- The last eight digits of a negative number of 32 bits are those it has as one of 32 bits. -/
theorem drop_hexNat {n : ℕ} (h₁ : 2 ^ 64 - 2 ^ 31 ≤ n) (h₂ : n < 2 ^ 64) :
    (hexNat n).drop 8 = hexNat (n % 2 ^ 32) := by
  have hpow : (16 : ℕ) ^ 15 = 2 ^ 60 := by decide
  have hpow' : (16 : ℕ) ^ (15 + 1) = 2 ^ 64 := by decide
  have hpow7 : (16 : ℕ) ^ 7 = 2 ^ 28 := by decide
  have hpow8 : (16 : ℕ) ^ (7 + 1) = 2 ^ 32 := by decide
  have hcut : (Digits.fixed 16 (15 + 1) n).drop 8 = Digits.fixed 16 (7 + 1) (n % 2 ^ 32) := by
    rw [← hpow8, Digits.fixed_mod]
    exact Digits.drop_fixed 16 8 8 n
  rw [hexNat, hexNat, ← Digits.map_fixed_of_le (b := 16) (k := 15) (n := n) (by decide) (by omega)
    (by omega), ← Digits.map_fixed_of_le (b := 16) (k := 7) (n := n % 2 ^ 32) (by decide)
    (by omega) (by omega), ← List.map_drop, ← List.map_drop, hcut]

/-- **What is printed for the least number**: a sign, and bytes that lie before the table, but for
the two digits that are zero. -/
theorem safeItoa_minimum (stray : ℕ → UInt8) : safeItoa stray 10 (-2 ^ 63) =
    .ok (0x2d :: stray 9 :: [stray 2, stray 2, stray 3, stray 3, stray 7, stray 2, 0x30, stray 3,
      stray 6, stray 8, stray 5, stray 4, stray 7, stray 7, stray 5, stray 8, 0x30, stray 8]) := by
  rfl

/-! ### The arguments -/

/-- A word of 64 bits, as a signed number. -/
theorem toInt_toInt64 (x : UInt64) :
    x.toInt64.toInt = if x.toNat < 2 ^ 63 then (x.toNat : ℤ) else x.toNat - 2 ^ 64 := by
  change x.toBitVec.toInt = _
  rw [BitVec.toInt_eq_toNat_cond]
  change (if 2 * x.toNat < 2 ^ 64 then _ else _) = _
  by_cases h : x.toNat < 2 ^ 63
  · rw [if_pos h, if_pos (by omega)]
    rfl
  · rw [if_neg h, if_neg (by omega)]
    rfl

/-- A word of 32 bits, as a signed number. -/
theorem toInt_toInt32 (x : UInt32) :
    x.toInt32.toInt = if x.toNat < 2 ^ 31 then (x.toNat : ℤ) else x.toNat - 2 ^ 32 := by
  change x.toBitVec.toInt = _
  rw [BitVec.toInt_eq_toNat_cond]
  change (if 2 * x.toNat < 2 ^ 32 then _ else _) = _
  by_cases h : x.toNat < 2 ^ 31
  · rw [if_pos h, if_pos (by omega)]
    rfl
  · rw [if_neg h, if_neg (by omega)]
    rfl

/-- `va_arg`, with 64 or 32 bits, unsigned. -/
def unsignedOf (longlong : Bool) (bits : UInt64) : ℕ :=
  if longlong then bits.toNat else bits.toUInt32.toNat

/-- `va_arg`, with 64 or 32 bits, signed. -/
def signedOf (longlong : Bool) (bits : UInt64) : ℤ :=
  if longlong then bits.toInt64.toInt else bits.toUInt32.toInt32.toInt

theorem unsignedOf_lt (longlong : Bool) (bits : UInt64) : unsignedOf longlong bits < 2 ^ 64 := by
  have h64 := bits.toNat_lt
  have h32 := bits.toUInt32.toNat_lt
  rw [unsignedOf]
  split <;> omega

theorem signedOf_bounds (longlong : Bool) (bits : UInt64) :
    -2 ^ 63 ≤ signedOf longlong bits ∧ signedOf longlong bits < 2 ^ 63 := by
  have h64 := bits.toNat_lt
  have h32 := bits.toUInt32.toNat_lt
  rw [signedOf, toInt_toInt64, toInt_toInt32]
  split
  · split <;> omega
  · split <;> omega

/-- **The hexadecimal digits of an argument**, cut to 32 bits when it has no more. -/
theorem hexNat_signedOf (longlong : Bool) (bits : UInt64) :
    (if longlong = false ∧ signedOf longlong bits < 0 then
        (hexNat (CInt.toUInt64 (signedOf longlong bits))).drop 8
      else hexNat (CInt.toUInt64 (signedOf longlong bits))) =
      hexNat (unsignedOf longlong bits) := by
  have h64 := bits.toNat_lt
  have h32 := bits.toUInt32.toNat_lt
  cases longlong with
  | true =>
      have hwhole : CInt.toUInt64 (signedOf true bits) = unsignedOf true bits := by
        rw [signedOf, unsignedOf, if_pos rfl, if_pos rfl, toInt_toInt64, CInt.toUInt64]
        split <;> omega
      rw [if_neg (fun h => Bool.noConfusion h.1), hwhole]
  | false =>
      have hunsigned : unsignedOf false bits = bits.toUInt32.toNat := rfl
      have hword : signedOf false bits = bits.toUInt32.toInt32.toInt := rfl
      rw [hunsigned, hword, toInt_toInt32]
      rcases Nat.lt_or_ge bits.toUInt32.toNat (2 ^ 31) with hlt | hge
      · rw [if_pos hlt, if_neg (fun h => by omega), CInt.toUInt64_natCast_of_lt (by omega)]
      · have hnot : ¬ bits.toUInt32.toNat < 2 ^ 31 := by omega
        have hsigned : CInt.toUInt64 ((bits.toUInt32.toNat : ℤ) - 2 ^ 32) =
            2 ^ 64 - 2 ^ 32 + bits.toUInt32.toNat := by
          rw [CInt.toUInt64]
          omega
        have hcut : (2 ^ 64 - 2 ^ 32 + bits.toUInt32.toNat) % 2 ^ 32 = bits.toUInt32.toNat := by
          omega
        rw [if_neg hnot, if_pos ⟨rfl, by omega⟩, hsigned, drop_hexNat (by omega) (by omega), hcut]

/-- Digits are no terminators. -/
theorem hexNat_noNul (n : ℕ) : CString.NoNul (hexNat n) := by
  have hdigit : ∀ i : Fin 16, charByte (Nat.digitChar i) ≠ 0 := by decide
  intro hmem
  obtain ⟨c, hc, hzero⟩ := List.mem_map.1 hmem
  obtain ⟨d, hd, rfl⟩ := Digits.exists_of_mem_toDigits (by decide) hc
  exact hdigit ⟨d, hd⟩ hzero

end Log
