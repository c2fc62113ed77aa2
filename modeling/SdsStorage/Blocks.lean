/-
**Blocks of a list.**

A list is cut into blocks of one length, with fewer elements than that left over.  The cut is
unique, so that a list that grows at its end is cut where its first part was.  A block of four bytes
is read as a word, least significant byte first.

Main definitions:

* `Blocks.complete`, `Blocks.rest` — the blocks, and what is left;
* `Blocks.leWord`, `Blocks.leWords` — a word of four bytes, and the words of a list of bytes.

Main results:

* `Blocks.cut_unique` — **there is one way to cut a list**;
* `Blocks.complete_append`, `Blocks.rest_append` — what is appended is cut behind what was left;
* `Blocks.leWord_or` — a word is put together from its bytes by shifts;
* `Blocks.leWord_inj` — the bytes of a word are determined by it.
-/

import Mathlib.Data.List.Basic
import Mathlib.Data.Nat.Bitwise
import Mathlib.Tactic.Common
import Mathlib.Tactic.IntervalCases

set_option relaxedAutoImplicit false
set_option autoImplicit false

namespace Blocks

variable {α : Type*} {k : ℕ}

/-! ### Cutting a list -/

/-- The blocks of `k` elements a list starts with. -/
def complete (k : ℕ) (l : List α) : List (List α) :=
  (List.range (l.length / k)).map fun i => (l.drop (k * i)).take k

/-- What is left behind them. -/
def rest (k : ℕ) (l : List α) : List α := l.drop (k * (l.length / k))

theorem complete_of_lt {l : List α} (h : l.length < k) : complete k l = [] := by
  rw [complete, Nat.div_eq_of_lt h]
  rfl

theorem rest_of_lt {l : List α} (h : l.length < k) : rest k l = l := by
  rw [rest, Nat.div_eq_of_lt h]
  rfl

@[simp] theorem length_rest (k : ℕ) (l : List α) : (rest k l).length = l.length % k := by
  rw [rest, List.length_drop, Nat.mod_def]

theorem complete_append_block (hk : 0 < k) {b : List α} (hb : b.length = k) (l : List α) :
    complete k (b ++ l) = b :: complete k l := by
  have hcount : (b ++ l).length / k = l.length / k + 1 := by
    rw [List.length_append, hb, Nat.add_div_left _ hk]
  rw [complete, complete, hcount, List.range_succ_eq_map, List.map_cons, List.map_map]
  congr 1
  · rw [Nat.mul_zero, List.drop_zero, List.take_left' hb]
  · refine List.map_congr_left ?_
    intro i _
    have hoff : k * (i + 1) = b.length + k * i := by rw [hb, Nat.mul_succ, Nat.add_comm]
    simp only [Function.comp_apply, Nat.succ_eq_add_one]
    rw [hoff, List.drop_length_add_append]

theorem rest_append_block (hk : 0 < k) {b : List α} (hb : b.length = k) (l : List α) :
    rest k (b ++ l) = rest k l := by
  have hcount : (b ++ l).length / k = l.length / k + 1 := by
    rw [List.length_append, hb, Nat.add_div_left _ hk]
  have hoff : k * (l.length / k + 1) = b.length + k * (l.length / k) := by
    rw [hb, Nat.mul_succ, Nat.add_comm]
  rw [rest, rest, hcount, hoff, List.drop_length_add_append]

/-- **There is one way to cut a list.** -/
theorem cut_unique {bs : List (List α)} (hbs : ∀ b ∈ bs, b.length = k) {r : List α}
    (hr : r.length < k) : complete k (bs.flatten ++ r) = bs ∧ rest k (bs.flatten ++ r) = r := by
  have hk : 0 < k := Nat.zero_lt_of_lt hr
  induction bs with
  | nil => exact ⟨complete_of_lt hr, rest_of_lt hr⟩
  | cons b bs ih =>
      have hb : b.length = k := hbs b (by simp)
      obtain ⟨hcomplete, hrest⟩ := ih fun b' hb' => hbs b' (List.mem_cons_of_mem b hb')
      rw [List.flatten_cons, List.append_assoc]
      exact ⟨by rw [complete_append_block hk hb, hcomplete],
        by rw [rest_append_block hk hb, hrest]⟩

/-- Every list is cut. -/
theorem exists_cut (hk : 0 < k) (l : List α) :
    ∃ bs r, (∀ b ∈ bs, b.length = k) ∧ r.length < k ∧ l = List.flatten bs ++ r := by
  induction hn : l.length using Nat.strongRecOn generalizing l with
  | _ n ih =>
      subst hn
      rcases Nat.lt_or_ge l.length k with hlt | hge
      · exact ⟨[], l, by simp, hlt, rfl⟩
      · have hlen : (l.take k).length = k := List.length_take_of_le hge
        obtain ⟨bs, r, hbs, hr, hl⟩ := ih (l.drop k).length
          (by rw [List.length_drop]; omega) (l.drop k) rfl
        refine ⟨l.take k :: bs, r, ?_, hr, ?_⟩
        · intro b hb
          rcases List.mem_cons.1 hb with rfl | hb
          · exact hlen
          · exact hbs b hb
        · rw [List.flatten_cons, List.append_assoc, ← hl, List.take_append_drop]

theorem length_of_mem_complete (hk : 0 < k) {l b : List α} (h : b ∈ complete k l) :
    b.length = k := by
  obtain ⟨bs, r, hbs, hr, rfl⟩ := exists_cut hk l
  rw [(cut_unique hbs hr).1] at h
  exact hbs b h

@[simp] theorem length_complete (k : ℕ) (l : List α) : (complete k l).length = l.length / k := by
  simp [complete]

/-- What is appended to a list is cut behind what was left of it. -/
theorem append_cut (hk : 0 < k) (l m : List α) :
    complete k (l ++ m) = complete k l ++ complete k (rest k l ++ m) ∧
      rest k (l ++ m) = rest k (rest k l ++ m) := by
  obtain ⟨bs, r, hbs, hr, rfl⟩ := exists_cut hk l
  obtain ⟨bs', r', hbs', hr', hrm⟩ := exists_cut hk (r ++ m)
  obtain ⟨hcomplete, hrest⟩ := cut_unique hbs hr
  have hall : ∀ b ∈ bs ++ bs', b.length = k := by
    intro b hb
    rcases List.mem_append.1 hb with hb | hb
    · exact hbs b hb
    · exact hbs' b hb
  have hsplit : bs.flatten ++ r ++ m = (bs ++ bs').flatten ++ r' := by
    rw [List.append_assoc, hrm, List.flatten_append, List.append_assoc]
  rw [hcomplete, hrest, hsplit, hrm, (cut_unique hall hr').1, (cut_unique hall hr').2,
    (cut_unique hbs' hr').1, (cut_unique hbs' hr').2]
  exact ⟨rfl, rfl⟩

theorem complete_append (hk : 0 < k) (l m : List α) :
    complete k (l ++ m) = complete k l ++ complete k (rest k l ++ m) := (append_cut hk l m).1

theorem rest_append (hk : 0 < k) (l m : List α) : rest k (l ++ m) = rest k (rest k l ++ m) :=
  (append_cut hk l m).2

/-! ### Words -/

/-- The number in some bytes, least significant first. -/
def leNumber (bs : List UInt8) : ℕ := bs.foldr (fun b acc => b.toNat + 256 * acc) 0

/-- The word in four bytes. -/
def leWord (bs : List UInt8) : UInt32 := UInt32.ofNat (leNumber bs)

/-- The words of a list of bytes. -/
def leWords (bs : List UInt8) : List UInt32 := (complete 4 bs).map leWord

theorem leWords_getD {bs : List UInt8} {j : ℕ} (h : j < bs.length / 4) (d : UInt32) :
    (leWords bs).getD j d = leWord ((bs.drop (4 * j)).take 4) := by
  rw [leWords, complete, List.map_map, List.getD_eq_getElem _ _ (by simpa using h)]
  simp

theorem leWords_getD_of_le {bs : List UInt8} {j : ℕ} (h : bs.length / 4 ≤ j) (d : UInt32) :
    (leWords bs).getD j d = d := by
  rw [leWords, List.getD_eq_default]
  rwa [List.length_map, length_complete]

/-- Four elements in a row. -/
theorem take_drop_four {l : List α} {i : ℕ} (h : i + 4 ≤ l.length) :
    (l.drop i).take 4 = [l[i], l[i + 1], l[i + 2], l[i + 3]] := by
  refine List.ext_getElem? ?_
  intro k
  rcases Nat.lt_or_ge k 4 with hk | hk
  · rw [List.getElem?_take_of_lt hk, List.getElem?_drop, List.getElem?_eq_getElem (by omega)]
    interval_cases k <;> rfl
  · rw [List.getElem?_eq_none (by rw [List.length_take]; omega),
      List.getElem?_eq_none (by simpa using hk)]

theorem leNumber_lt (bs : List UInt8) : leNumber bs < 256 ^ bs.length := by
  induction bs with
  | nil => exact Nat.one_pos
  | cons b bs ih =>
      have hb := b.toNat_lt
      have hcons : leNumber (b :: bs) = b.toNat + 256 * leNumber bs := rfl
      rw [hcons, List.length_cons, Nat.pow_succ]
      omega

theorem leNumber_inj {bs bs' : List UInt8} (hlen : bs.length = bs'.length)
    (h : leNumber bs = leNumber bs') : bs = bs' := by
  induction bs generalizing bs' with
  | nil =>
      rw [List.length_nil] at hlen
      exact (List.eq_nil_of_length_eq_zero hlen.symm).symm
  | cons b bs ih =>
      cases bs' with
      | nil => cases hlen
      | cons b' bs' =>
          have hb := b.toNat_lt
          have hb' := b'.toNat_lt
          have hcons : b.toNat + 256 * leNumber bs = b'.toNat + 256 * leNumber bs' := h
          have hhead : b = b' := UInt8.toNat_inj.1 (by omega)
          rw [hhead, ih (Nat.succ_inj.1 hlen) (by omega)]

/-- The bytes of a word are determined by it. -/
theorem leWord_inj {bs bs' : List UInt8} (hlen : bs.length = 4) (hlen' : bs'.length = 4)
    (h : leWord bs = leWord bs') : bs = bs' := by
  have hlt := leNumber_lt bs
  have hlt' := leNumber_lt bs'
  rw [hlen] at hlt
  rw [hlen'] at hlt'
  refine leNumber_inj (hlen.trans hlen'.symm) ?_
  have hnat := congrArg UInt32.toNat h
  rwa [leWord, leWord, UInt32.toNat_ofNat_of_lt' hlt, UInt32.toNat_ofNat_of_lt' hlt'] at hnat

/-- A byte that is shifted above those that are there. -/
theorem toNat_or_shiftLeft (x : UInt32) (b : UInt8) {s : ℕ} (hs : s ≤ 24)
    (hx : x.toNat < 2 ^ s) :
    (x ||| b.toUInt32 <<< UInt32.ofNat s).toNat = x.toNat + b.toNat * 2 ^ s := by
  have hb := b.toNat_lt
  have hshift : (UInt32.ofNat s).toNat % 32 = s := by
    rw [UInt32.toNat_ofNat']
    omega
  have hpow : b.toNat * 2 ^ s < 2 ^ 32 := by
    have hle : 2 ^ s ≤ 2 ^ 24 := Nat.pow_le_pow_right (by decide) hs
    have hmul : b.toNat * 2 ^ s ≤ b.toNat * 2 ^ 24 := Nat.mul_le_mul_left _ hle
    omega
  rw [UInt32.toNat_or, UInt32.toNat_shiftLeft, hshift, UInt8.toNat_toUInt32, Nat.shiftLeft_eq,
    Nat.mod_eq_of_lt hpow, Nat.or_comm, Nat.mul_comm, ← Nat.two_pow_add_eq_or_of_lt hx,
    Nat.add_comm, Nat.mul_comm]

/-- **A word is put together from its bytes by shifts.** -/
theorem leWord_or (b0 b1 b2 b3 : UInt8) :
    b0.toUInt32 ||| b1.toUInt32 <<< 8 ||| b2.toUInt32 <<< 16 ||| b3.toUInt32 <<< 24 =
      leWord [b0, b1, b2, b3] := by
  have h0 := b0.toNat_lt
  have h1 := b1.toNat_lt
  have h2 := b2.toNat_lt
  have h3 := b3.toNat_lt
  have hfirst : (b0.toUInt32 ||| b1.toUInt32 <<< 8).toNat = b0.toNat + b1.toNat * 2 ^ 8 :=
    toNat_or_shiftLeft (s := 8) _ b1 (by decide) (by rw [UInt8.toNat_toUInt32]; omega)
  have hsecond : (b0.toUInt32 ||| b1.toUInt32 <<< 8 ||| b2.toUInt32 <<< 16).toNat =
      b0.toNat + b1.toNat * 2 ^ 8 + b2.toNat * 2 ^ 16 := by
    rw [← hfirst]
    exact toNat_or_shiftLeft (s := 16) _ b2 (by decide) (by rw [hfirst]; omega)
  have hthird : (b0.toUInt32 ||| b1.toUInt32 <<< 8 ||| b2.toUInt32 <<< 16 |||
      b3.toUInt32 <<< 24).toNat =
        b0.toNat + b1.toNat * 2 ^ 8 + b2.toNat * 2 ^ 16 + b3.toNat * 2 ^ 24 := by
    rw [← hsecond]
    exact toNat_or_shiftLeft (s := 24) _ b3 (by decide) (by rw [hsecond]; omega)
  have hnumber : leNumber [b0, b1, b2, b3] =
      b0.toNat + b1.toNat * 2 ^ 8 + b2.toNat * 2 ^ 16 + b3.toNat * 2 ^ 24 := by
    simp only [leNumber, List.foldr_cons, List.foldr_nil]
    omega
  have hlt : leNumber [b0, b1, b2, b3] < 2 ^ 32 := by omega
  rw [← UInt32.toNat_inj, hthird, leWord, UInt32.toNat_ofNat_of_lt' hlt, hnumber]

end Blocks
