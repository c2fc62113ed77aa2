/-
**Byte strings in memory.**

A pointer to characters is modelled by the memory it leads into, from the address it holds to the
end of the object; the string functions of the C library read that memory and fault when they run
past its end.

Main definitions:

* `Bytes`, `CharPtr` — memory, and a pointer into it;
* `CString.cstr`, `CString.NoNul` — a string with its terminator, and the bytes that may stand
  before one;
* `CString.strlen`, `CString.strncmp`, `CString.strncpy`, `CString.memcpyAt` — the library
  functions;
* `CString.decimal`, `CString.percentS` — what `%ld` and `%s` print.

Main results:

* `CString.strlen_cstr` — the length of a terminated string;
* `CString.strncmp_eq_zero_iff` — **a bounded comparison by the length of the first string is the
  prefix test**;
* `CString.strncpy_strlen` — a copy bounded by the length of its source writes no terminator;
* `CString.decimalNat_inj` — numbers are read back from their digits.
-/

import SdsStorage.Outcome
import Mathlib.Algebra.Order.Ring.Int
import Mathlib.Tactic.Common

set_option relaxedAutoImplicit false
set_option autoImplicit false

/-- A stretch of memory. -/
abbrev Bytes := List UInt8

/-- A pointer to characters: null, the memory it leads into, or bytes that are not a pointer. -/
inductive CharPtr where
  | null
  | mem (m : Bytes)
  | wild
  deriving DecidableEq, Repr

namespace CharPtr

/-- The memory a pointer leads into, when it is read through. -/
def deref : CharPtr → Outcome Bytes
  | null => .error .nullDeref
  | mem m => .ok m
  | wild => .error .wild

end CharPtr

namespace CString

/-- A string with its terminator. -/
def cstr (s : Bytes) : Bytes := s ++ [0]

/-- The bytes contain no terminator. -/
def NoNul (s : Bytes) : Prop := (0 : UInt8) ∉ s

instance (s : Bytes) : Decidable (NoNul s) := inferInstanceAs (Decidable (_ ∉ _))

@[simp] theorem noNul_nil : NoNul [] := List.not_mem_nil

@[simp] theorem noNul_cons {b : UInt8} {s : Bytes} : NoNul (b :: s) ↔ b ≠ 0 ∧ NoNul s := by
  simp [NoNul, eq_comm]

/-! ### `strlen` -/

/-- The number of bytes before the terminator. -/
def strlen : Bytes → Outcome ℕ
  | [] => .error .overread
  | b :: mem => if b = 0 then .ok 0 else (strlen mem).map (· + 1)

theorem strlen_append {s t : Bytes} (hs : NoNul s) : strlen (s ++ 0 :: t) = .ok s.length := by
  induction s with
  | nil => simp [strlen]
  | cons b s ih =>
      rw [noNul_cons] at hs
      rw [List.cons_append, strlen, if_neg hs.1, ih hs.2]
      rfl

/-- The terminator lies in the memory that was read. -/
theorem strlen_lt {mem : Bytes} {n : ℕ} (h : strlen mem = .ok n) : n < mem.length := by
  induction mem generalizing n with
  | nil => cases h
  | cons b mem ih =>
      rw [strlen] at h
      split at h
      · cases h
        exact Nat.succ_pos _
      · cases hmem : strlen mem with
        | error f =>
            rw [hmem] at h
            cases h
        | ok k =>
            rw [hmem] at h
            cases h
            exact Nat.succ_lt_succ (ih hmem)

/-- Memory without a terminator is read past its end. -/
theorem strlen_noNul {mem : Bytes} (h : NoNul mem) : strlen mem = .error .overread := by
  induction mem with
  | nil => rfl
  | cons b mem ih =>
      rw [noNul_cons] at h
      rw [strlen, if_neg h.1, ih h.2]
      rfl

@[simp] theorem strlen_cstr {s : Bytes} (hs : NoNul s) : strlen (cstr s) = .ok s.length :=
  strlen_append hs

/-- Terminated memory is a string, its terminator, and the bytes after it. -/
theorem eq_append_of_mem {mem : Bytes} (h : (0 : UInt8) ∈ mem) :
    NoNul (mem.takeWhile (· ≠ 0)) ∧
      ∃ t, mem = mem.takeWhile (· ≠ 0) ++ 0 :: t := by
  induction mem with
  | nil => simp at h
  | cons b mem ih =>
      by_cases hb : b = 0
      · subst hb
        exact ⟨by simp, mem, by simp⟩
      · have hmem : (0 : UInt8) ∈ mem := by
          rcases List.mem_cons.1 h with h0 | h0
          · exact absurd h0.symm hb
          · exact h0
        obtain ⟨hs, t, ht⟩ := ih hmem
        rw [List.takeWhile_cons_of_pos (by simpa using hb)]
        refine ⟨noNul_cons.2 ⟨hb, hs⟩, t, ?_⟩
        rw [List.cons_append, ← ht]

/-! ### `strncmp` -/

/-- The comparison of two stretches of memory, for at most `n` bytes. -/
def strncmpMem : ℕ → Bytes → Bytes → Outcome ℤ
  | 0, _, _ => .ok 0
  | n + 1, a :: s, b :: t =>
      if a ≠ b then .ok (a.toNat - b.toNat) else if a = 0 then .ok 0 else strncmpMem n s t
  | _ + 1, _, _ => .error .overread

/-- `strncmp`; no byte is read when the bound is zero. -/
def strncmp (s t : CharPtr) (n : ℕ) : Outcome ℤ :=
  if n = 0 then .ok 0 else do
    let s ← s.deref
    let t ← t.deref
    strncmpMem n s t

theorem strncmpMem_eq {s u t : Bytes} (hs : NoNul s) (ht : NoNul t) (v : Bytes) :
    ∃ d, strncmpMem s.length (s ++ u) (t ++ 0 :: v) = .ok d ∧ (d = 0 ↔ s <+: t) := by
  induction s generalizing t with
  | nil => exact ⟨0, rfl, by simp⟩
  | cons a s ih =>
      rw [noNul_cons] at hs
      cases t with
      | nil =>
          refine ⟨a.toNat - (0 : UInt8).toNat, ?_, ?_⟩
          · simp [strncmpMem, hs.1]
          · have ha : a.toNat ≠ 0 := fun h => hs.1 (UInt8.toNat_inj.1 (by simpa using h))
            simp
            omega
      | cons b t =>
          rw [noNul_cons] at ht
          by_cases hab : a = b
          · subst hab
            obtain ⟨d, hd, hiff⟩ := ih hs.2 ht.2
            refine ⟨d, ?_, ?_⟩
            · simp [strncmpMem, hs.1, hd]
            · rw [hiff, List.cons_prefix_cons]
              simp
          · refine ⟨a.toNat - b.toNat, ?_, ?_⟩
            · simp [strncmpMem, hab]
            · have hne : a.toNat ≠ b.toNat := fun h => hab (UInt8.toNat_inj.1 h)
              rw [List.cons_prefix_cons]
              simp [hab]
              omega

/-- **A comparison bounded by the length of its first string is the prefix test.** -/
theorem strncmp_eq_zero_iff {s t : Bytes} (hs : NoNul s) (ht : NoNul t) (u v : Bytes) :
    ∃ d, strncmp (.mem (s ++ u)) (.mem (t ++ 0 :: v)) s.length = .ok d ∧ (d = 0 ↔ s <+: t) := by
  cases s with
  | nil => exact ⟨0, by simp [strncmp], by simp⟩
  | cons a s =>
      obtain ⟨d, hd, hiff⟩ := strncmpMem_eq (u := u) hs ht v
      exact ⟨d, by simpa [strncmp, CharPtr.deref] using hd, hiff⟩

/-- A comparison reads nothing behind the terminator of its second string. -/
theorem strncmpMem_behind {p : Bytes} (h : (0 : UInt8) ∈ p) (t t' : Bytes) :
    ∀ (n : ℕ) (s : Bytes), strncmpMem n s (p ++ t) = strncmpMem n s (p ++ t') := by
  induction p with
  | nil => cases h
  | cons b p ih =>
      intro n s
      cases n with
      | zero => rfl
      | succ n =>
          cases s with
          | nil => rfl
          | cons a s =>
              simp only [List.cons_append, strncmpMem]
              by_cases hab : a = b
              · by_cases ha : a = 0
                · simp only [ha, if_true]
                · have hp : (0 : UInt8) ∈ p := by
                    rcases List.mem_cons.1 h with hb | hp
                    · exact absurd (hab.trans hb.symm) ha
                    · exact hp
                  simp only [ih hp n s]
              · simp only [ne_eq, hab, not_false_eq_true, if_true]

theorem strncmp_behind {p : Bytes} (h : (0 : UInt8) ∈ p) (s : CharPtr) (t t' : Bytes) (n : ℕ) :
    strncmp s (.mem (p ++ t)) n = strncmp s (.mem (p ++ t')) n := by
  simp only [strncmp, CharPtr.deref, Outcome.ok_bind, strncmpMem_behind h t t']

/-! ### `strncpy` and `memcpy` -/

/-- The `n` bytes that `strncpy` takes from its source: the string, and zeros up to `n`. -/
def strncpySource : ℕ → Bytes → Outcome Bytes
  | 0, _ => .ok []
  | _ + 1, [] => .error .overread
  | n + 1, b :: mem =>
      if b = 0 then .ok (List.replicate (n + 1) 0) else (strncpySource n mem).map (b :: ·)

/-- `memcpy` of `src` to the offset `off` of the object `dst`. -/
def memcpyAt (dst : Bytes) (off : ℕ) (src : Bytes) : Outcome Bytes :=
  if off + src.length ≤ dst.length then
    .ok (dst.take off ++ src ++ dst.drop (off + src.length))
  else .error .outOfBounds

theorem memcpyAt_isOk {dst src : Bytes} {off : ℕ} (h : off + src.length ≤ dst.length) :
    ∃ out, memcpyAt dst off src = .ok out ∧ out.length = dst.length := by
  refine ⟨_, by rw [memcpyAt, if_pos h], ?_⟩
  simp only [List.length_append, List.length_take, List.length_drop]
  omega

theorem length_of_memcpyAt {dst src out : Bytes} {off : ℕ}
    (h : memcpyAt dst off src = .ok out) : out.length = dst.length := by
  rw [memcpyAt] at h
  split at h
  · rename_i hfit
    cases h
    simp only [List.length_append, List.length_take, List.length_drop]
    omega
  · cases h

/-- `strncpy` of `n` bytes of `src` to the offset `off` of the object `dst`. -/
def strncpy (dst : Bytes) (off : ℕ) (src : CharPtr) (n : ℕ) : Outcome Bytes :=
  if n = 0 then .ok dst else do
    let mem ← src.deref
    let bs ← strncpySource n mem
    memcpyAt dst off bs

theorem strncpySource_length {s : Bytes} (hs : NoNul s) (u : Bytes) :
    strncpySource s.length (s ++ u) = .ok s := by
  induction s with
  | nil => rfl
  | cons b s ih =>
      rw [noNul_cons] at hs
      simp only [List.length_cons, List.cons_append, strncpySource, if_neg hs.1, ih hs.2]
      rfl

/-- A copy bounded by the length of its source writes the string without a terminator. -/
theorem strncpy_strlen {s : Bytes} (hs : NoNul s) (u dst : Bytes) (off : ℕ)
    (hfit : off + s.length ≤ dst.length) :
    strncpy dst off (.mem (s ++ u)) s.length =
      .ok (dst.take off ++ s ++ dst.drop (off + s.length)) := by
  cases s with
  | nil => simp [strncpy]
  | cons b s =>
      have hsrc := strncpySource_length hs u
      simp only [List.length_cons, List.cons_append] at hsrc hfit
      simp [strncpy, CharPtr.deref, hsrc, memcpyAt, hfit]

/-! ### What the format directives print -/

/-- The decimal digits of a number, most significant first. -/
def decimalNat (n : ℕ) : Bytes := (Nat.toDigits 10 n).map fun c => c.toNat.toUInt8

/-- What `%d` or `%ld` prints. -/
def decimal : ℤ → Bytes
  | .ofNat n => decimalNat n
  | .negSucc n => 45 :: decimalNat (n + 1)

/-- The character of a digit is read back from its byte. -/
theorem ofNat_digit {c : Char} (h : c.isDigit) : Char.ofNat (c.toNat.toUInt8).toNat = c := by
  have hle : c.toNat ≤ 57 := by
    simp only [Char.isDigit, Bool.and_eq_true, decide_eq_true_eq] at h
    exact h.2
  have hbyte : (c.toNat.toUInt8).toNat = c.toNat := by
    rw [Nat.toUInt8_eq, UInt8.toNat_ofNat']
    omega
  rw [hbyte, Char.ofNat_toNat]

/-- Only digits are printed. -/
theorem decimalNat_digit {n : ℕ} {b : UInt8} (h : b ∈ decimalNat n) :
    48 ≤ b.toNat ∧ b.toNat ≤ 57 := by
  obtain ⟨c, hc, rfl⟩ := List.mem_map.1 h
  have hdigit := Nat.isDigit_of_mem_toDigits (by simp) (by simp) hc
  simp only [Char.isDigit, Bool.and_eq_true, decide_eq_true_eq] at hdigit
  have hlow : 48 ≤ c.toNat := hdigit.1
  have hhigh : c.toNat ≤ 57 := hdigit.2
  rw [Nat.toUInt8_eq, UInt8.toNat_ofNat']
  omega

/-- Digits are no terminators. -/
theorem decimalNat_noNul (n : ℕ) : NoNul (decimalNat n) := by
  intro h
  have hlow : 48 ≤ (0 : UInt8).toNat := (decimalNat_digit h).1
  exact absurd hlow (by decide)

theorem decimal_noNul (x : ℤ) : NoNul (decimal x) := by
  cases x with
  | ofNat n => exact decimalNat_noNul n
  | negSucc n => exact noNul_cons.2 ⟨by decide, decimalNat_noNul (n + 1)⟩

/-- **Numbers are read back from their digits.** -/
theorem decimalNat_inj {m n : ℕ} (h : decimalNat m = decimalNat n) : m = n := by
  have hback : ∀ k : ℕ, (decimalNat k).map (fun b => Char.ofNat b.toNat) = Nat.toDigits 10 k := by
    intro k
    rw [decimalNat, List.map_map]
    conv_rhs => rw [← List.map_id (Nat.toDigits 10 k)]
    refine List.map_congr_left ?_
    intro c hc
    exact ofNat_digit (Nat.isDigit_of_mem_toDigits (by simp) (by simp) hc)
  have hdigits : Nat.toDigits 10 m = Nat.toDigits 10 n := by rw [← hback, ← hback, h]
  rw [← Nat.ofDigitChars_ten_toDigits (n := m), ← Nat.ofDigitChars_ten_toDigits (n := n), hdigits]

/-- What `%s` prints; a null pointer is printed as `(null)`. -/
def percentS : CharPtr → Outcome Bytes
  | .null => .ok [40, 110, 117, 108, 108, 41]
  | .mem m => do
      let n ← strlen m
      .ok (m.take n)
  | .wild => .error .wild

theorem percentS_append {s : Bytes} (hs : NoNul s) (t : Bytes) :
    percentS (.mem (s ++ 0 :: t)) = .ok s := by
  rw [percentS, strlen_append hs, Outcome.ok_bind, List.take_left]

theorem percentS_isOk {s : Bytes} (hs : NoNul s) (t : Bytes) :
    ∃ out, percentS (.mem (s ++ 0 :: t)) = .ok out := ⟨s, percentS_append hs t⟩

/-- What comes before the terminator contains none. -/
theorem noNul_take_of_strlen {mem : Bytes} {n : ℕ} (h : strlen mem = .ok n) :
    NoNul (mem.take n) := by
  induction mem generalizing n with
  | nil => cases h
  | cons b mem ih =>
      rw [strlen] at h
      split at h
      · cases h
        exact noNul_nil
      · rename_i hb
        cases hmem : strlen mem with
        | error f =>
            rw [hmem] at h
            cases h
        | ok k =>
            rw [hmem] at h
            cases h
            exact noNul_cons.2 ⟨hb, ih hmem⟩

theorem noNul_of_percentS {p : CharPtr} {out : Bytes} (h : percentS p = .ok out) :
    NoNul out := by
  cases p with
  | null =>
      cases h
      simp
  | mem m =>
      rw [percentS, Outcome.bind_eq_ok] at h
      obtain ⟨n, hn, h⟩ := h
      cases h
      exact noNul_take_of_strlen hn
  | wild => cases h

/-- What `snprintf` leaves in a buffer of `size` bytes, without the terminator. -/
def snprintf (size : ℕ) (s : Bytes) : Bytes := s.take (size - 1)

end CString
