/-
**The formatter and `printf`.**

For the directives it knows, `_safe_vsnprintf` prints what `printf` prints, with two exceptions.
The least number of 64 bits has no negation, and all its decimal digits but the zeros are read from
in front of the table; and the number of characters is returned as an `int`.

Main definitions:

* `Log.printfText`, `Log.printfOf` — what `printf` prints for a piece, and for some;
* `Log.Piece.Supported`, `Log.Piece.IsMinimum` — a directive that is known, and one that prints the
  least number in decimal;
* `Log.LeastHidden` — no digit of such a number lies among the characters that are kept;
* `Log.AgreesWithPrintf` — what is expected of the formatter.

Main results:

* `Log.pieceText_eq` — **every other piece is printed as it should be**;
* `Log.agreesWithPrintf_iff` — **when the formatter agrees with `printf`**.
-/

import SdsStorage.LogFormat
import Mathlib.Data.List.TakeWhile

set_option relaxedAutoImplicit false
set_option autoImplicit false

namespace Log

/-! ### What `printf` prints -/

/-- What `printf` prints for a piece; a pointer as bare hexadecimal digits. -/
def printfText : Piece → Bytes
  | .plain c _ _ => [c]
  | .number mod conv _ arg =>
      if conv = 0x75 then CString.decimalNat (unsignedOf mod.longlong arg.bits)
      else if conv = 0x78 then hexNat (unsignedOf mod.longlong arg.bits)
      else if conv = 0x70 then hexNat arg.bits.toNat
      else CString.decimal (signedOf mod.longlong arg.bits)
  | .string _ arg _ =>
      match arg.str with
      | .null => nullText
      | .mem m => untilNul m
      | .wild => []
  | .skipped _ _ _ _ _ _ => []

/-- What `printf` prints. -/
def printfOf (pieces : List Piece) : Bytes := pieces.flatMap printfText

namespace Piece

/-- The directive is known. -/
def Supported : Piece → Prop
  | .skipped _ _ _ _ _ _ => False
  | _ => True

/-- The least number is printed in decimal. -/
def IsMinimum : Piece → Prop
  | .number mod conv _ arg =>
      (conv = 0x64 ∨ conv = 0x69) ∧ signedOf mod.longlong arg.bits = -2 ^ 63
  | _ => False

end Piece

theorem untilNul_noNul (mem : Bytes) : CString.NoNul (untilNul mem) := by
  intro h
  have hne := List.mem_takeWhile_imp h
  simp at hne

theorem stringText_eq (mod : LengthMod) (arg : Slot) (harg : Terminated arg.str) :
    stringText arg = printfText (.string mod arg harg) := by
  rw [stringText, printfText]
  cases arg.str with
  | null => exact untilNul_cstr (by decide)
  | mem m => rfl
  | wild => rfl

/-- A number with a sign is printed in decimal. -/
theorem printfText_decimal (mod : LengthMod) {conv : UInt8} (hconv : isNumber conv = true)
    (hd : conv = 0x64 ∨ conv = 0x69) (arg : Slot) :
    printfText (.number mod conv hconv arg) =
      CString.decimal (signedOf mod.longlong arg.bits) := by
  have hne : ∀ c : UInt8, c = 0x75 ∨ c = 0x78 ∨ c = 0x70 → conv ≠ c := by
    rintro c hc rfl
    rcases hd with rfl | rfl <;> exact absurd hc (by decide)
  rw [printfText, if_neg (hne _ (by decide)), if_neg (hne _ (by decide)),
    if_neg (hne _ (by decide))]

/-- **Every other piece is printed as it should be.** -/
theorem pieceText_eq (stray : ℕ → UInt8) {p : Piece} (hp : p.Supported) (hmin : ¬ p.IsMinimum) :
    pieceText stray p = printfText p := by
  cases p with
  | plain c hnul hdir => rfl
  | string mod arg harg => exact stringText_eq mod arg harg
  | skipped mod conv hnul hmod hconv hstr => cases hp
  | number mod conv hconv arg =>
      rcases conv_cases hconv with hd | rfl | rfl | rfl
      · obtain ⟨h₁, h₂⟩ := signedOf_bounds mod.longlong arg.bits
        have hlow : -2 ^ 63 < signedOf mod.longlong arg.bits :=
          lt_of_le_of_ne h₁ fun h => hmin ⟨hd, h.symm⟩
        rw [printfText_decimal mod hconv hd, pieceText, valAsStr_d stray _ hd,
          safeItoa_ten stray hlow h₂]
        exact untilNul_cstr (CString.decimal_noNul _)
      · rw [pieceText, valAsStr_u]
        exact untilNul_cstr (CString.decimalNat_noNul _)
      · rw [pieceText, valAsStr_x]
        exact untilNul_cstr (hexNat_noNul _)
      · rw [pieceText, valAsStr_p]
        exact untilNul_cstr (hexNat_noNul _)

/-- The bytes that stand for the digits of the least number, behind the first one. -/
def leastDigits (stray : ℕ → UInt8) : Bytes :=
  [stray 2, stray 2, stray 3, stray 3, stray 7, stray 2, 0x30, stray 3, stray 6, stray 8, stray 5,
    stray 4, stray 7, stray 7, stray 5, stray 8, 0x30, stray 8]

/-- The least number starts with its sign, whatever lies before the table. -/
theorem pieceText_minimum (stray : ℕ → UInt8) {p : Piece} (h : p.IsMinimum) :
    ∃ digits digits', pieceText stray p = 0x2d :: digits ∧
      printfText p = 0x2d :: 0x39 :: digits' ∧ (stray 9 = 1 → ∃ more, digits = 1 :: more) := by
  cases p with
  | number mod conv hconv arg =>
      obtain ⟨hd, hmin⟩ := h
      have hprintf : printfText (.number mod conv hconv arg) = CString.decimal (-2 ^ 63) := by
        rw [printfText_decimal mod hconv hd, hmin]
      have htext : pieceText stray (.number mod conv hconv arg) =
          0x2d :: untilNul (stray 9 :: CString.cstr (leastDigits stray)) := by
        rw [pieceText, valAsStr_d stray _ hd, hmin, safeItoa_minimum]
        rfl
      have hdecimal : ∃ digits', CString.decimal (-2 ^ 63) = 0x2d :: 0x39 :: digits' :=
        ⟨_, by rfl⟩
      obtain ⟨digits', hdigits'⟩ := hdecimal
      refine ⟨_, digits', htext, hprintf.trans hdigits', ?_⟩
      intro hstray
      rw [hstray]
      exact ⟨_, rfl⟩
  | plain c hnul hdir => cases h
  | string mod arg harg => cases h
  | skipped mod conv hnul hmod hconv hstr => cases h

/-! ### The characters that are kept -/

/-- No digit of the least number lies among the first `cap` characters that `printf` prints. -/
def LeastHidden (cap : ℕ) (pieces : List Piece) : Prop :=
  ∀ before p after, pieces = before ++ p :: after → p.IsMinimum →
    cap ≤ (printfOf before).length + 1

theorem leastHidden_nil (cap : ℕ) : LeastHidden cap [] := by
  rintro before p after h
  cases before <;> cases h

theorem leastHidden_cons_iff {cap : ℕ} {p : Piece} {pieces : List Piece} :
    LeastHidden cap (p :: pieces) ↔
      (p.IsMinimum → cap ≤ 1) ∧ LeastHidden (cap - (printfText p).length) pieces := by
  constructor
  · intro h
    refine ⟨h [] p pieces rfl, ?_⟩
    rintro before q after rfl hq
    have hle := h (p :: before) q after rfl hq
    rw [printfOf, List.flatMap_cons, List.length_append] at hle
    rw [printfOf]
    omega
  · rintro ⟨hp, hpieces⟩ before q after h hq
    cases before with
    | nil =>
        cases h
        exact hp hq
    | cons q' before =>
        cases h
        have hle := hpieces before q after rfl hq
        rw [printfOf, List.flatMap_cons, List.length_append]
        rw [printfOf] at hle
        omega

/-- **What is kept is what `printf` prints**, when no digit of the least number is. -/
theorem take_textOf (stray : ℕ → UInt8) {pieces : List Piece}
    (hsupported : ∀ p ∈ pieces, p.Supported) {cap : ℕ} (hhidden : LeastHidden cap pieces) :
    (textOf stray pieces).take cap = (printfOf pieces).take cap := by
  induction pieces generalizing cap with
  | nil => rfl
  | cons p pieces ih =>
      obtain ⟨hp, hpieces⟩ := leastHidden_cons_iff.1 hhidden
      have hrest := ih (fun q hq => hsupported q (List.mem_cons_of_mem _ hq)) hpieces
      rw [textOf, List.flatMap_cons, printfOf, List.flatMap_cons]
      by_cases hmin : p.IsMinimum
      · obtain ⟨digits, digits', htext, hprintf, -⟩ := pieceText_minimum stray hmin
        have hcap := hp hmin
        rw [htext, hprintf]
        -- at most the sign is kept
        rcases Nat.le_one_iff_eq_zero_or_eq_one.1 hcap with rfl | rfl <;> rfl
      · rw [pieceText_eq stray (hsupported p List.mem_cons_self) hmin, List.take_append,
          List.take_append]
        rw [textOf, printfOf] at hrest
        rw [hrest]

/-- A digit of the least number that is kept is wrong, when no byte before the table is a digit. -/
theorem leastHidden_of_take {pieces : List Piece} (hsupported : ∀ p ∈ pieces, p.Supported)
    {cap : ℕ} (h : (textOf (fun _ => 1) pieces).take cap = (printfOf pieces).take cap) :
    LeastHidden cap pieces := by
  induction pieces generalizing cap with
  | nil => exact leastHidden_nil cap
  | cons p pieces ih =>
      rw [textOf, List.flatMap_cons, printfOf, List.flatMap_cons] at h
      rw [leastHidden_cons_iff]
      have hpieces : ∀ q ∈ pieces, q.Supported := fun q hq =>
        hsupported q (List.mem_cons_of_mem _ hq)
      by_cases hmin : p.IsMinimum
      · obtain ⟨digits, digits', htext, hprintf, hfirst⟩ := pieceText_minimum (fun _ => 1) hmin
        obtain ⟨more, rfl⟩ := hfirst rfl
        have hcap : cap ≤ 1 := by
          by_contra hge
          obtain ⟨k, rfl⟩ : ∃ k, cap = k + 2 := ⟨cap - 2, by omega⟩
          rw [htext, hprintf] at h
          injection h with _ h
          injection h with h _
          exact absurd h (by decide)
        refine ⟨fun _ => hcap, ih hpieces ?_⟩
        have hnone : cap - (printfText p).length = 0 := by
          rw [hprintf, List.length_cons, List.length_cons]
          omega
        rw [hnone, List.take_zero, List.take_zero]
      · rw [pieceText_eq _ (hsupported p List.mem_cons_self) hmin, List.take_append,
          List.take_append] at h
        exact ⟨fun h => absurd h hmin, ih hpieces (List.append_cancel_left h)⟩

/-! ### The formatter -/

/-- What is expected of the formatter: whatever lies before the table of digits and in the buffer,
it writes the first characters that `printf` prints, with a terminator, and returns how many. -/
def AgreesWithPrintf (pieces : List Piece) (size : ℕ) : Prop :=
  ∀ (stray : ℕ → UInt8) (buf : Bytes) (start : ℕ) (format : Bytes) (ap : List Slot),
    start + size ≤ buf.length →
      safeVsnprintf stray buf start size (spell pieces ++ 0 :: format) (argsOf pieces ++ ap) =
        .ok (((printfOf pieces).take (size - 1)).length,
          put buf start (CString.cstr ((printfOf pieces).take (size - 1))))

theorem pieceText_noNul (stray : ℕ → UInt8) (p : Piece) : CString.NoNul (pieceText stray p) := by
  cases p with
  | plain c hnul hdir => exact CString.noNul_cons.2 ⟨hnul, CString.noNul_nil⟩
  | number mod conv hconv arg =>
      obtain ⟨val, hval⟩ := valAsStr_isOk stray mod.longlong hconv arg
      rw [pieceText, hval]
      exact untilNul_noNul _
  | string mod arg harg =>
      obtain ⟨val, -, -, htext⟩ := valOf_deref harg
      rw [pieceText, htext]
      exact untilNul_noNul _
  | skipped mod conv hnul hmod hconv hstr => exact CString.noNul_nil

theorem printfText_noNul {p : Piece} (hp : p.Supported) : CString.NoNul (printfText p) := by
  cases p with
  | plain c hnul hdir => exact CString.noNul_cons.2 ⟨hnul, CString.noNul_nil⟩
  | number mod conv hconv arg =>
      rw [printfText]
      split
      · exact CString.decimalNat_noNul _
      · split
        · exact hexNat_noNul _
        · split
          · exact hexNat_noNul _
          · exact CString.decimal_noNul _
  | string mod arg harg =>
      obtain ⟨val, -, -, htext⟩ := valOf_deref harg
      rw [← stringText_eq mod arg harg, htext]
      exact untilNul_noNul _
  | skipped mod conv hnul hmod hconv hstr => cases hp

/-- A text of pieces without terminators has none. -/
theorem flatMap_noNul {text : Piece → Bytes} {pieces : List Piece}
    (h : ∀ p ∈ pieces, CString.NoNul (text p)) : CString.NoNul (pieces.flatMap text) := by
  intro hmem
  obtain ⟨p, hp, hnul⟩ := List.mem_flatMap.1 hmem
  exact h p hp hnul

theorem take_noNul {s : Bytes} (hs : CString.NoNul s) (n : ℕ) : CString.NoNul (s.take n) :=
  fun h => hs (List.mem_of_mem_take h)

theorem untilNul_put_zero {s : Bytes} (hs : CString.NoNul s) (buf : Bytes) :
    untilNul (put buf 0 (CString.cstr s)) = s := by
  have hshape : put buf 0 (CString.cstr s) = s ++ 0 :: buf.drop (s.length + 1) := by
    simp [put, CString.cstr]
  rw [hshape, untilNul_append hs]

/-- **When the formatter agrees with `printf`**: no digit of the least number is among the
characters that are kept, and their number is an `int`. -/
theorem agreesWithPrintf_iff {pieces : List Piece} {size : ℕ} (hsize : 1 ≤ size)
    (hsupported : ∀ p ∈ pieces, p.Supported) :
    AgreesWithPrintf pieces size ↔
      LeastHidden (size - 1) pieces ∧ min (size - 1) (printfOf pieces).length < 2 ^ 31 := by
  have hlength : ((printfOf pieces).take (size - 1)).length =
      min (size - 1) (printfOf pieces).length := List.length_take
  constructor
  · intro hagrees
    have hrun := hagrees (fun _ => 1) (List.replicate size 0) 0 [] []
      (by rw [List.length_replicate, Nat.zero_add])
    rw [safeVsnprintf_pieces (fun _ => 1) hsize (by rw [List.length_replicate, Nat.zero_add])]
      at hrun
    injection hrun with hrun
    obtain ⟨hcount, hbuf⟩ := Prod.mk.inj hrun
    have htext : CString.NoNul ((textOf (fun _ => 1) pieces).take (size - 1)) :=
      take_noNul (flatMap_noNul fun p _ => pieceText_noNul _ p) _
    have hprintf : CString.NoNul ((printfOf pieces).take (size - 1)) :=
      take_noNul (flatMap_noNul fun p hp => printfText_noNul (hsupported p hp)) _
    have hkept := congrArg untilNul hbuf
    rw [untilNul_put_zero htext, untilNul_put_zero hprintf] at hkept
    refine ⟨leastHidden_of_take hsupported hkept, ?_⟩
    rw [hkept, hlength, CInt.toInt32_eq] at hcount
    omega
  · rintro ⟨hhidden, hcount⟩ stray buf start format ap hroom
    rw [safeVsnprintf_pieces stray hsize hroom, take_textOf stray hsupported hhidden, hlength,
      CInt.toInt32_natCast_of_lt hcount]

/-- `%d` with the argument `-5`. -/
def minusFive : Piece := .number .none 0x64 rfl { bits := 0xfffffffb, str := .wild }

/-- `%ld` with the argument `INT64_MIN`. -/
def leastLong : Piece := .number .l 0x64 rfl { bits := 0x8000000000000000, str := .wild }

theorem agreesWithPrintf_iff_minus_five : AgreesWithPrintf [minusFive] 64 := by
  refine (agreesWithPrintf_iff (by decide) ?_).2 ⟨?_, by decide⟩
  · intro p hp
    rw [List.mem_singleton.1 hp]
    trivial
  · refine leastHidden_cons_iff.2 ⟨?_, leastHidden_nil _⟩
    rintro ⟨-, hmin⟩
    exact absurd hmin (by decide)

/-- The least number of 64 bits is not printed as it should be. -/
theorem not_agreesWithPrintf_least : ¬ AgreesWithPrintf [leastLong] 64 := by
  intro hagrees
  have hrun := hagrees (fun _ => 1) (List.replicate 64 0) 0 [] [] (by decide)
  exact absurd hrun (by decide +kernel)

end Log
